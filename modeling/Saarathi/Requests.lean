import Saarathi.Callers
import Saarathi.Footprints

/-!
# Requests on behalf of a caller

A turn, and every other request that a caller makes: whatever it does, it names
only what is the caller's.
-/

namespace Saarathi

open Program Program.Prog ReadCommitted

/-- The caller that a request is made for; the periodic job has none. -/
def Req.user : Req → Option UserContext
  | chat _ user => some user
  | finalize _ user => some user
  | resume _ user => some user
  | abandon _ user => some user
  | reset _ user => some user
  | sweep _ => none

namespace Confinement

variable {d : Deployment} {P : Owner → Prop} {x : Conn} {w w' : World} {α β : Type}

section Handlers

open RemoteFlowAgentHandler

variable {c : ConversationId} {agent : RegisteredAgent} {user : UserContext} {s : AgentSession}

/-- The channel that the request has got last is one of the conversation. -/
abbrev Connected (P : Owner → Prop) (x : Conn) (c : ConversationId) (i : ChannelId) (w : World) : Prop :=
  Found P x c w ∧ w.lastRead x Op.acquired = some (c,i)

theorem acquire_found (auth : Auth) :
    Triple (spec d P x) (Found P x c) (MitraSessionManager.acquire c auth) fun i w => Connected P x c i w := by
  apply call lasting_found
  · exact fun w hw => ⟨stays_of_concerns ⟨.inl rfl,.inr rfl,rfl,rfl,rfl⟩ (knows_of_found hw),hw.1⟩
  · intro w i w' hw hw' ha
    refine ⟨hw',?_⟩
    rw [ha.lastRead]
    rfl

theorem reacquire_found (auth : Auth) :
    Triple (spec d P x) (Found P x c) (MitraSessionManager.reacquire c auth) fun i w => Connected P x c i w := by
  have hpop : Concerns c none (perform (Op.popChannel c)) := .named rfl rfl rfl rfl rfl
  exact Triple.seq rises lasting_found (safe_of_found hpop) fun _ => acquire_found auth

theorem wp_sendOn {i : ChannelId} {text : Json} {timeout gap : ℕ} {auth : Auth} (hw : Connected P x c i w) :
    wp (spec d P x) (sendOn i text timeout gap auth) (fun _ w' => Found P x c w') w := by
  refine wp_perform.mpr fun w₁ h₁ => ?_
  have hfound : Found P x c w₁ := lasting_found w w₁ hw.1 h₁.toUp
  refine ⟨⟨⟨?_,?_,?_,rfl,?_⟩,hfound.1⟩,fun r w₂ h₂ => lasting_found w₁ w₂ hfound h₂.up⟩
  · rintro c' ⟨⟩
  · rintro k ⟨⟩
  · rintro u ⟨⟩
  · rintro j ⟨⟩
    refine ⟨c,?_,hfound.2⟩
    rw [World.lastRead,h₁.events]
    exact hw.2

/-- Both attempts send on a channel of the conversation. -/
theorem converse_found (auth : Auth) (text : Json) (timeout gap : ℕ) :
    Safe (spec d P x) (Found P x c) (converse c auth text timeout gap) := by
  have hsend : ∀ i, Triple (spec d P x) (Connected P x c i) (sendOn i text timeout gap auth).attempt
      fun _ w => Found P x c w := by
    intro i w hw
    exact wp_attempt.mpr (wp_mono (wp_sendOn hw) fun _ w' h _ _ => h)
  refine (acquire_found auth).bind fun i => (hsend i).bind ?_
  rintro (e | bot)
  · split
    · exact Triple.done _
    · refine (reacquire_found auth).bind fun i w hw => ?_
      exact wp_mono (wp_sendOn hw) fun _ _ _ _ _ => trivial
    · exact Triple.throw _
  · exact Triple.done _

theorem returns_remoteSession (remote : RemoteSpec) (user : UserContext) (session : AgentSessionView) :
    Returns (fun sess => sess.conversationId = session.conversationId) (remoteSession remote user session) := by
  refine Returns.bind (Returns.any _) fun botRoute _ => ?_
  split
  · refine Returns.bind (Returns.any _) fun company _ => ?_
    refine Returns.bind (Returns.any _) fun profileId _ => ?_
    exact Returns.bind (Returns.any _) fun remoteSid _ => rfl
  · exact rfl

theorem remoteHandle_turning (key : String) (remote : RemoteSpec) (session : Option AgentSession) (text : Json) :
    Safe (spec d P x) (Turning P x c session)
      (RemoteFlowAgentHandler.handle key remote user (session.map (·.toSessionView)) text) := by
  cases session with
  | none => exact Triple.throw _
  | some s =>
    refine Triple.from_facts (F := Found P x s.conversationId) ?_ fun w h => (h.2 s rfl).2.1
    have hsess : Triple (spec d P x) (Found P x s.conversationId) (remoteSession remote user s.toSessionView)
        fun sess w => sess.conversationId = s.conversationId := by
      intro w hw
      have hsafe := safe_of_found (d := d) (remoteSession_concerns remote user s.toSessionView) w hw
      exact wp_mono ((returns_remoteSession remote user s.toSessionView).wp hsafe) fun _ _ h => h.2
    refine hsess.andThen rises lasting_found fun sess w hw => ?_
    have hconv : sess.conversationId = s.conversationId := hw.2
    rw [← hconv] at hw
    refine Triple.seq rises lasting_found (converse_found _ _ _ _) (fun bot => ?_) w hw.1
    refine Triple.seq rises lasting_found (safe_of_found ?_) fun _ => Triple.done _
    exact Concerns.branch (.nameless rfl rfl rfl rfl rfl) (.pure _)

theorem handle_turning (session : Option AgentSession) (text : Json) :
    Safe (spec d P x) (Turning P x c session)
      (handle d c agent user (session.map (·.toSessionView)) text) := by
  unfold handle
  split
  · refine safe_of_turning (Concerns.bind (.named rfl rfl rfl rfl rfl) fun _ => .pure _)
  · split
    · exact remoteHandle_turning _ _ _ _
    · exact Triple.throw _

/-- The handler runs on the session of the turn. -/
theorem marked_turning {session : Option AgentSession} {run : HandlerRun} {p : Proc α}
    (hrun : run.session = session.map (·.id)) (hp : Safe (spec d P x) (Turning P x c session) p) :
    Safe (spec d P x) (Turning P x c session) (marked c run p) := by
  have hbegin : Concerns c (session.map (·.id)) (perform (Op.handleBegin c run)) :=
    (all_perform _).mpr ⟨.inl rfl,.inl hrun,rfl,rfl,rfl⟩
  refine Triple.seq rises lasting_turning (safe_of_turning hbegin) fun _ => ?_
  refine Triple.ensuring rises lasting_turning (fun _ _ _ h _ => h) hp (safe_of_turning ?_)
  exact Concerns.bind (.named rfl rfl rfl rfl rfl) fun _ => .pure _

end Handlers

section Turns

open OrchestrationService

variable {conv : Conversation} {inp : TurnInput} {agent : RegisteredAgent} {session : Option AgentSession}

theorem runHandler_turning (history : List Message) :
    Safe (spec d P x) (Turning P x conv.id session) (runHandler d inp conv agent session history) := by
  refine Triple.seq rises lasting_turning (Triple.safe (Triple.attempt (marked_turning rfl ?_))) fun r => ?_
  · exact handle_turning _ _
  · split
    · exact Triple.done _
    · refine Triple.seq rises lasting_turning (safe_of_turning (recoverTimedOutTurn_concerns ..)) ?_
      rintro (_ | turn)
      · exact Triple.throw _
      · exact Triple.done _
    · exact Triple.throw _

/-- A session of the conversation, as the turn has it. -/
abbrev Mine (P : Owner → Prop) (x : Conn) (c : ConversationId) (s : AgentSession) (w : World) : Prop :=
  s.conversationId = c ∧ Holding P x s w

theorem lasting_mine {c : ConversationId} {s : AgentSession} : Lasting (Up P x) (Mine P x c s) :=
  fun w w' h hu => ⟨h.1,lasting_holding w w' h.2 hu⟩

theorem turning_of_mine {c : ConversationId} {s : AgentSession} (h : Mine P x c s w) : Turning P x c (some s) w := by
  obtain ⟨rfl,hs⟩ := h
  refine ⟨hs.1,?_⟩
  rintro _ ⟨⟩
  exact ⟨rfl,hs⟩

theorem finalize_mine {c : ConversationId} {s : AgentSession} (agent : Option RegisteredAgent) (user : UserContext) :
    Triple (spec d P x) (Mine P x c s) (finalize d s agent user) fun v w => Mine P x c v w := by
  intro w hw
  refine wp_mono (finalize_holding agent user w hw.2) fun r w' h v hv => ?_
  obtain ⟨hholding,hconv⟩ := h v hv
  exact ⟨hconv.trans hw.1,hholding⟩

theorem apply_mine {c : ConversationId} {s : AgentSession} (delta : SessionDelta) :
    Triple (spec d P x) (Mine P x c s) (SessionService.apply s delta) fun v w => Mine P x c v w := by
  intro w hw
  refine wp_mono (apply_holding delta w hw.2) fun r w' h v hv => ?_
  obtain ⟨hholding,hconv⟩ := h v hv
  exact ⟨hconv.trans hw.1,hholding⟩

/-- The session that a turn leaves is one of the conversation. -/
theorem settleTurn_turning (turn : AgentTurn) :
    Triple (spec d P x) (Turning P x conv.id session) (settleTurn d inp agent turn session)
      fun r w => Turning P x conv.id r w := by
  unfold settleTurn
  split
  · exact Triple.pure fun w h => h
  rename_i s
  refine Triple.from_facts (F := Mine P x conv.id s) ?_ fun w h => h.2 s rfl
  refine Triple.bind (P := fun v w => Mine P x conv.id v w) ?_ fun v => ?_
  · split
    · exact apply_mine _
    · exact Triple.pure fun w h => h
  · refine Triple.branch ?_ (Triple.pure fun w h => turning_of_mine h)
    exact (finalize_mine (some agent) inp.user).bind fun v => Triple.pure fun w h => turning_of_mine h

theorem handleTurnLocked_found :
    Triple (spec d P x) (Found P x conv.id) (handleTurnLocked d inp conv) fun r w => Found P x r.conversation.id w := by
  refine Triple.seq rises lasting_found (safe_of_found (recordUserMessage_concerns inp)) fun _ => ?_
  refine Triple.seq rises lasting_found routeTurn_found ?_
  rintro ⟨decision,agent⟩
  refine (admitTurn_found agent).bind ?_
  rintro ⟨session,history⟩
  have hcommit : ∀ session : Option AgentSession, Concerns conv.id (session.map (·.id)) (perform Op.commit) :=
    fun _ => .nameless rfl rfl rfl rfl rfl
  refine Triple.seq rises lasting_turning (safe_of_turning (hcommit _)) fun _ => ?_
  refine Triple.seq rises lasting_turning (runHandler_turning history) fun turn => ?_
  refine (settleTurn_turning turn).bind fun session => ?_
  refine Triple.seq rises lasting_turning (safe_of_turning (storeReply_concerns ..)) fun _ => ?_
  refine Triple.seq rises lasting_turning (safe_of_turning (hcommit _)) fun _ => ?_
  exact Triple.pure fun w h => h.1

theorem handleTurn_own (hP : P inp.user.owner) :
    Triple (spec d P x) (Own P x) (handleTurn d inp) fun r w => Found P x r.conversation.id w := by
  refine (getOrCreate_own hP inp.conversationId).bind fun conv => ?_
  refine Triple.seq rises lasting_found (safe_of_found (tryLockConversation_concerns conv.id)) fun got => ?_
  refine Triple.branch ?_ (Triple.throw _)
  refine Triple.ensuring rises lasting_found (fun _ => lasting_found) handleTurnLocked_found (safe_of_found ?_)
  exact unlockConversation_concerns conv.id

/-- A session that is read again is the one that is held. -/
theorem getHeld_holding {s : AgentSession} {id : SessionId} (hid : s.id = id) :
    Triple (spec d P x) (Holding P x s) (SessionService.get id) fun r w => ∀ v, r = some v → Holding P x v w := by
  intro w hw
  have hget := get_own (d := d) (P := P) id w hw.1.1
  refine wp_mono (wp_lasting rises lasting_holding hget hw) ?_
  rintro r w' ⟨hr,hw'⟩ v hv a rfl
  obtain ⟨hvid,hversion,-⟩ := hr _ hv a rfl
  rw [hvid,← hid] at hversion
  exact Holding.of_eq hw' (hvid.trans hid.symm) (hw'.2.2 a hversion)

theorem finalizeNow_holding {s : AgentSession} {id : SessionId} (user : UserContext) (hid : s.id = id) :
    Safe (spec d P x) (Holding P x s) (finalizeNow d id user) := by
  refine (getHeld_holding hid).bind ?_
  rintro (_ | session)
  · exact Triple.done _
  refine Triple.from_facts (F := Holding P x session) ?_ fun w h => h session rfl
  refine Triple.seq rises lasting_holding (safe_of_holding snapshot_concerns) fun registry => ?_
  exact Triple.seq rises lasting_holding (finalize_holding _ user).safe fun _ => Triple.done _

theorem storeRecovered_holding {s : AgentSession} (agent : RegisteredAgent) (result : Reconciliation) :
    Safe (spec d P x) (Holding P x s) (storeRecovered s agent result) := by
  have hseq : Concerns s.conversationId (some s.id) (ConversationRepository.nextSeqForUpdate s.conversationId) :=
    ConversationRepository.nextSeqForUpdate_concerns
  refine Triple.seq rises lasting_holding (safe_of_holding hseq) fun seq => ?_
  refine Triple.seq rises lasting_holding (safe_of_holding ?_) fun _ => ?_
  · exact (all_perform _).mpr ⟨.inl rfl,.inl rfl,rfl,rfl,rfl⟩
  refine Triple.seq rises lasting_holding (apply_holding _).safe fun updated => safe_of_holding ?_
  refine Concerns.bind (.named rfl rfl rfl rfl rfl) fun _ => ?_
  exact Concerns.bind (.nameless rfl rfl rfl rfl rfl) fun _ => .pure _

theorem resumeTurn_holding {s : AgentSession} {id : SessionId} (hid : s.id = id) :
    Safe (spec d P x) (Holding P x s) (resumeTurn d id) := by
  refine (getHeld_holding hid).bind ?_
  rintro (_ | session)
  · exact Triple.done _
  refine Triple.from_facts (F := Holding P x session) ?_ fun w h => h session rfl
  refine Triple.seq rises lasting_holding (safe_of_holding snapshot_concerns) fun registry => ?_
  have hlast : Concerns session.conversationId (some session.id)
      (MessageRepository.lastUserContent session.conversationId) :=
    Concerns.bind (.named rfl rfl rfl rfl rfl) fun _ => .scalarOneOrNone _
  refine Triple.seq rises lasting_holding (safe_of_holding hlast) fun lastUserText => ?_
  split
  · refine Triple.branch (Triple.done _) ?_
    refine Triple.seq rises lasting_holding (safe_of_holding (reconcileTurn_concerns ..)) ?_
    rintro (_ | result)
    · exact Triple.done _
    refine Triple.branch ?_ (Triple.done _)
    exact Triple.seq rises lasting_holding (storeRecovered_holding _ result) fun _ => Triple.done _
  · exact Triple.done _

end Turns

section Routes

open Routes

variable {user : UserContext}

theorem resolve_own (hP : P user.owner) (sessionId : UuidField) :
    Triple (spec d P x) (Own P x) (resolve sessionId user)
      fun r w => ∀ e, r = some e → e.2.id = e.1 ∧ Holding P x e.2 w := by
  cases sessionId with
  | id sid =>
    refine (get_own sid).andThen rises lasting_own ?_
    rintro (_ | dto)
    · refine Triple.pure ?_
      rintro w - e ⟨⟩
    refine Triple.from_facts (F := fun w => (Own P x w ∧ w.db.InConversation dto.conversationId dto.id) ∧ dto.id = sid)
      ?_ fun w h => ⟨⟨h.1,(h.2 dto rfl).2.2⟩,(h.2 dto rfl).1⟩
    have hlast : Lasting (Up P x) fun w =>
        (Own P x w ∧ w.db.InConversation dto.conversationId dto.id) ∧ dto.id = sid :=
      (lasting_own.and lasting_inConversation).and fun _ _ h _ => h
    have hscoped := (getScoped_own (d := d) (x := x) hP dto.conversationId).from_facts
      fun w (h : (Own P x w ∧ w.db.InConversation dto.conversationId dto.id) ∧ dto.id = sid) => h.1.1
    refine hscoped.andThen rises hlast ?_
    rintro (_ | conv)
    · refine Triple.pure ?_
      rintro w - e ⟨⟩
    · refine Triple.pure ?_
      rintro w ⟨⟨⟨hown,hin⟩,hid⟩,hconv⟩ e ⟨⟩
      obtain ⟨hfound,hkey⟩ := hconv conv rfl
      exact ⟨hid,hkey ▸ hfound,hin⟩
  | _ =>
    refine Triple.pure ?_
    rintro w - e ⟨⟩

theorem returningMitraErrors_holding {s : AgentSession} {p : Proc Response}
    (h : Safe (spec d P x) (Holding P x s) p) : Safe (spec d P x) (Holding P x s) (returningMitraErrors p) := by
  refine Triple.catching rises lasting_holding h fun e => ?_
  cases e with
  | mitra e => exact Triple.done _
  | _ => exact Triple.throw _

theorem finalizeSession_own (hP : P user.owner) (sessionId : UuidField) :
    Safe (spec d P x) (Own P x) (finalizeSession d sessionId user) := by
  refine (resolve_own hP sessionId).bind ?_
  rintro (_ | ⟨sid,dto⟩)
  · exact Triple.done _
  intro w hw
  obtain ⟨hid,hholding⟩ := hw _ rfl
  refine returningMitraErrors_holding ?_ w hholding
  refine Triple.seq rises lasting_holding (finalizeNow_holding user hid) ?_
  rintro (_ | s)
  · exact Triple.done _
  · exact Triple.done _

theorem resumeSession_own (hP : P user.owner) (sessionId : UuidField) :
    Safe (spec d P x) (Own P x) (resumeSession d sessionId user) := by
  refine (resolve_own hP sessionId).bind ?_
  rintro (_ | ⟨sid,dto⟩)
  · exact Triple.done _
  intro w hw
  obtain ⟨hid,hholding⟩ := hw _ rfl
  refine returningMitraErrors_holding ?_ w hholding
  refine Triple.seq rises lasting_holding (resumeTurn_holding hid) ?_
  rintro (_ | result)
  · exact Triple.done _
  · exact Triple.done _

theorem abandonSession_own (hP : P user.owner) (sessionId : UuidField) :
    Safe (spec d P x) (Own P x) (abandonSession d sessionId user) := by
  refine (resolve_own hP sessionId).bind ?_
  rintro (_ | ⟨sid,dto⟩)
  · exact Triple.done _
  intro w hw
  obtain ⟨-,hholding⟩ := hw _ rfl
  refine Triple.seq rises lasting_found (abandon_found _ _) (fun updated => ?_) w hholding.1
  refine Triple.seq rises lasting_found (safe_of_found ?_) fun _ => Triple.done _
  exact Concerns.branch OrchestrationService.closeRemoteChannel_concerns (.pure _)

theorem findCurrent_own (hP : P user.owner) (c : UuidField) :
    Triple (spec d P x) (Own P x) (findCurrent c user) fun r w => ∀ v, r = some v → Found P x v.id w := by
  have hnewest : Triple (spec d P x) (Own P x) (ConversationRepository.newestListed user)
      fun r w => ∀ v, r = some v → Found P x v.id w := by
    refine (newestListed_rows hP).bind fun rows => Triple.pure ?_
    intro w hw v hv
    exact (hw v (List.mem_of_head? hv)).1
  cases c with
  | id c => exact (getScoped_own hP c).mono (fun _ h => h) fun r w h v hv => (h v hv).1
  | _ => exact hnewest

theorem leave_own (hP : P user.owner) (c : UuidField) : Safe (spec d P x) (Own P x) (leave d c user) := by
  refine (findCurrent_own hP c).bind ?_
  rintro (_ | conv)
  · exact Triple.done _
  refine Triple.from_facts (F := Found P x conv.id) ?_ fun w h => h conv rfl
  refine Triple.seq rises lasting_found (abandon_found _ _) fun updated => safe_of_found ?_
  exact Concerns.branch OrchestrationService.closeRemoteChannel_concerns (.pure _)

theorem startNew_own (hP : P user.owner) : Safe (spec d P x) (Own P x) (startNew user) := by
  have hempty : Safe (spec d P x) (Own P x) (ConversationRepository.findEmptyForUser user) := by
    refine (findEmptyForUser_rows hP).andThen rises lasting_own fun rows => one ?_ ?_
    · exact fun _ _ => trivial
    · exact fun _ _ _ _ => trivial
  refine Triple.seq rises lasting_own hempty ?_
  rintro (_ | existing)
  · exact (createNew_own hP).safe
  · exact Triple.done _

theorem reset_own (hP : P user.owner) (c : UuidField) : Safe (spec d P x) (Own P x) (reset d c user) := by
  have hstart : Safe (spec d P x) (Own P x) (startNew user >>= fun _ => pure { status := 200 } : Proc Response) :=
    Triple.seq rises lasting_own (startNew_own hP) fun _ => Triple.done _
  cases c with
  | malformed => exact Triple.done _
  | _ => exact Triple.seq rises lasting_own (leave_own hP _) fun _ => hstart

theorem chat_own (hP : P user.owner) (body : Option ChatBody) :
    Safe (spec d P x) (Own P x) (chat d body user) := by
  have hturn : ∀ (body : ChatBody) (text : Json), Safe (spec d P x) (Own P x) (do
      let res ← OrchestrationService.handleTurn d (body.turnInput user text)
      let _ ← stmt (.flowPayload res.conversation.id)
      pure { status := 200 } : Proc Response) := by
    intro body text
    have howner : P (body.turnInput user text).user.owner := hP
    refine (handleTurn_own howner).bind fun res => safe_of_found ?_
    exact Concerns.bind (.named rfl rfl rfl rfl rfl) fun _ => .pure _
  unfold chat
  split
  · exact Triple.done _
  · split
    · exact Triple.done _
    · exact Triple.done _
    · exact Triple.catching rises lasting_own (hturn _ _) fun e => Triple.done _

theorem wp_withDb {route : Proc Response} (h : Safe (spec d P x) (Own P x) route) (hw : Own P x w) :
    wp (spec d P x) (Routes.withDb route) (fun _ w' => Own P x w') w := by
  have hplain : ∀ o : Op, o.names = none → o.ofSession = none → o.onBehalf = none → o.sweeps = false →
      o.sendsOn = none → Keeps.Call (spec d P x) (Own P x) o := by
    intro o hn hk hb hs hc w hw w₁ h₁
    have hw₁ : Own P x w₁ := lasting_own w w₁ hw h₁.toUp
    refine ⟨⟨⟨?_,?_,?_,hs,?_⟩,hw₁⟩,fun r w₂ h₂ => h₂.writes⟩
    · rw [hn]
      rintro c ⟨⟩
    · rw [hk]
      rintro k ⟨⟩
    · rw [hb]
      rintro u ⟨⟩
    · rw [hc]
      rintro i ⟨⟩
  have hroute : ∀ w, Own P x w → wp (spec d P x) route (fun _ w' => Own P x w') w := fun w hw =>
    wp_mono (wp_lasting rises lasting_own (h w hw) hw) fun _ _ h => h.2
  refine Routes.wp_withDb (A := Own P x) (B := Own P x) ?_ hroute ?_ (hplain _ rfl rfl rfl rfl rfl)
    (hplain _ rfl rfl rfl rfl rfl) ?_ hw
  · exact fun o w r w' ho hp => hp.sure ho
  · rintro o (rfl | rfl)
    · exact hplain _ rfl rfl rfl rfl rfl
    · exact hplain _ rfl rfl rfl rfl rfl
  · exact fun w hw => Keeps.perform (hplain _ rfl rfl rfl rfl rfl) w hw

/-- Whatever a request does, it names only what is its caller's. -/
theorem wp_prog {req : Req} {user : UserContext} (hu : req.user = some user) (hP : P user.owner) (hw : Own P x w) :
    wp (spec d P x) (req.prog d) (fun _ w' => Own P x w') w := by
  cases req with
  | chat body u =>
    obtain rfl := Option.some.inj hu
    exact wp_withDb (chat_own hP body) hw
  | finalize sid u =>
    obtain rfl := Option.some.inj hu
    exact wp_withDb (finalizeSession_own hP sid) hw
  | resume sid u =>
    obtain rfl := Option.some.inj hu
    exact wp_withDb (resumeSession_own hP sid) hw
  | abandon sid u =>
    obtain rfl := Option.some.inj hu
    exact wp_withDb (abandonSession_own hP sid) hw
  | reset c u =>
    obtain rfl := Option.some.inj hu
    exact wp_withDb (reset_own hP c) hw
  | sweep olderThan => cases hu

end Routes

end Confinement

end Saarathi
