import Saarathi.Interviews
import Saarathi.Turns

/-!
# The flow of the end-story call

A turn that ends its interview finalises it with the configuration that it ran
with; `POST /finalize` takes the agent of the registry's snapshot.
-/

namespace Saarathi

open Machine Program Program.Prog Interleaving ReadCommitted

/-- The configurations end an interview alike. -/
def RemoteSpec.EndsLike (a b : RemoteSpec) : Prop :=
  a.flowName = b.flowName ∧ a.finalizePath = b.finalizePath ∧ a.finalizeAsGuest = b.finalizeAsGuest

instance (a b : RemoteSpec) : Decidable (a.EndsLike b) :=
  inferInstanceAs (Decidable (a.flowName = b.flowName ∧ a.finalizePath = b.finalizePath ∧
    a.finalizeAsGuest = b.finalizeAsGuest))

/-- The call sends the flow that the session's row holds, and the rest of the configuration that
the turn had which stored it. -/
def EndStory.EndsAsRan (story : EndStory) (w : World × Interviews) (x : Conn) : Prop :=
  ∃ u ∈ w.1.db.sessions.view x story.session, ∃ ran ∈ noted w x story.session,
    u.remoteFlow = some story.flow ∧ story.flow = ran.flowName ∧ story.path = ran.finalizePath ∧
      story.asGuest = ran.finalizeAsGuest

instance (story : EndStory) (w : World × Interviews) (x : Conn) : Decidable (story.EndsAsRan w x) :=
  inferInstanceAs (Decidable (∃ u ∈ w.1.db.sessions.view x story.session,
    ∃ ran ∈ noted w x story.session, _))

/-- Where `POST /finalize` claims the session, the agent of the snapshot that it has read ends
interviews as this one was run. -/
def ClaimAgrees (d : Deployment) (w : World × Interviews) (x : Conn) (id : SessionId) : Prop :=
  w.1.serving x = some .finalize → d.mitraEnabled = true →
    ∀ u ∈ w.1.db.sessions.view x id, u.state.claimable = true →
      ∀ registry ∈ w.1.lastRead x Op.registry, ∀ remote ∈ (registry.getById u.agentId).bind (·.spec.remote),
        ∀ ran ∈ noted w x id, remote.EndsLike ran

instance (d : Deployment) (w : World × Interviews) (x : Conn) (id : SessionId) :
    Decidable (ClaimAgrees d w x id) :=
  inferInstanceAs (Decidable (_ → _))

/-- The session that a call claims. -/
def Op.claims : Op → Option SessionId
  | .stmt (.claimFinalizing id) => some id
  | _ => none

/-- The end-story call that is the next call of `x`. -/
def nextStory (c : Noted) (x : Conn) : Option EndStory :=
  match c.nextCall x with
  | some (.finalize story) => some story
  | _ => none

theorem nextCall_of_nextStory {c : Noted} {x : Conn} {story : EndStory} (h : nextStory c x = some story) :
    c.nextCall x = some (.finalize story) := by
  unfold nextStory at h
  split at h
  · rename_i story' hx
    obtain rfl := Option.some.inj h
    exact hx
  · cases h

/-- Every claim of a `POST /finalize` meets an agent that ends the interview as it was run. -/
def SnapshotAgrees (d : Deployment) (c : Noted) : Action → Prop
  | .call x _ => ∀ o ∈ c.nextCall x, ∀ id ∈ o.claims, ClaimAgrees d c.world x id
  | _ => True

instance (d : Deployment) (c : Noted) : (a : Action) → Decidable (SnapshotAgrees d c a)
  | .call x _ => inferInstanceAs (Decidable (∀ o ∈ c.nextCall x, ∀ id ∈ o.claims,
      ClaimAgrees d c.world x id))
  | .start .. => isTrue trivial
  | .finish _ => isTrue trivial
  | .env _ => isTrue trivial

namespace FinalFlow

variable {d : Deployment} {x : Conn} {w w' : World × Interviews} {α : Type}

/-- The end-story call ends the interview as it was run, and flows are stored as the notes say. -/
def spec (d : Deployment) (x : Conn) : Spec Op Op.Ans Exn (World × Interviews) where
  pre o w := o.Lawful ∧ o.Told ((w.1.run x).bind fun run => run.agent.spec.remote) ∧
    ∀ story, o = .finalize story → Interviews.Fit w.1 w.2 → story.EndsAsRan w x
  post o w r w' := NotedCalled d x o w r w' ∧ ∀ id, o = .stmt (.claimFinalizing id) → ClaimAgrees d w x id
  rely := NotedUnmoved x

/-- The roles of the calls that need no proof. -/
def freeRoles : List Role :=
  [.read,.query,.count,.record,.newConversation,.create,.claim,.abandon,.pin,.unpin,.lock,.unlock,.commit,
    .rollback,.pop,.channel,.report,.mark]

theorem pre_of_role {o : Op} (h : freeRoles.contains o.role = true) : (spec d x).pre o w := by
  have ho : o.role ∈ freeRoles := List.contains_iff_mem.mp h
  refine ⟨fun e => absurd (e ▸ ho) (by decide),Op.told_of_role ?_ ?_,?_⟩
  · exact fun e => absurd (e ▸ ho) (by decide)
  · exact fun e => absurd (e ▸ ho) (by decide)
  · rintro story rfl
    exact absurd ho (show Role.story ∉ freeRoles by decide)

theorem keeps_of_within {rs : List Role} {p : Proc α} {A : World × Interviews → Prop}
    (h : Within rs p) (hs : rs ⊆ freeRoles) (hA : ∀ w w', A w → NotedUnmoved x w w' → A w')
    (hcall : ∀ o w r w', o.role ∈ rs → A w → NotedCalled d x o w r w' → A w') : Keeps (spec d x) A p := by
  apply Keeps.of_all h
  intro o ho w hw w₁ hr
  exact ⟨pre_of_role (List.contains_iff_mem.mpr (hs ho)),fun r w₂ h₂ => hcall o w₁ r w₂ ho (hA w w₁ hw hr) h₂.1⟩

/-- Nothing is asserted. -/
theorem keeps_true {rs : List Role} {p : Proc α} (h : Within rs p) (hs : rs ⊆ freeRoles) :
    Keeps (spec d x) (fun _ => True) p :=
  keeps_of_within h hs (fun _ _ _ _ => trivial) fun _ _ _ _ _ _ _ => trivial

/-- No handler runs. -/
theorem keeps_run {rs : List Role} {p : Proc α} (h : Within rs p) (hs : rs ⊆ freeRoles)
    (hm : Role.mark ∉ rs) : Keeps (spec d x) (fun w => w.1.run x = none) p := by
  apply keeps_of_within h hs
  · intro w w' hw hr
    rw [hr.world.run,hw]
  · intro o w r w' ho hw hc
    have hrun : o.run = none := World.run_of_role fun e => hm (e ▸ ho)
    rw [hc.world.run,hw,hrun]
    rfl

/-- The handler that has run stays the one of the request. -/
theorem keeps_ran {rs : List Role} {p : Proc α} {run : HandlerRun} (h : Within rs p)
    (hs : rs ⊆ freeRoles) : Keeps (spec d x) (fun w => w.1.run x = some run) p := by
  apply keeps_of_within h hs
  · intro w w' hw hr
    rw [hr.world.run,hw]
  · intro o w r w' ho hw hc
    rw [hc.world.run,hw]
    rfl

/-- A session change whose statement stores what the notes say. -/
theorem wp_apply {session : AgentSession} {delta : SessionDelta}
    {Q : Except Exn AgentSession → World × Interviews → Prop}
    (ht : (Stmt.updateStateAndFields session.id [session.state] delta.state delta.fields).Told
      ((w.1.run x).bind fun run => run.agent.spec.remote))
    (hraise : ∀ e w', Q (.error e) w')
    (hok : ∀ w' v, v.id = session.id → (∃ u, (w'.1.db.sessions.row v.id).dirty = some (x,u)) →
      (∀ remote, delta.remoteFlow.isSome = true →
        ((w.1.run x).bind fun run => run.agent.spec.remote) = some remote →
          noted w' x v.id = some remote) → Q (.ok v) w') :
    wp (spec d x) (SessionService.apply session delta) Q w := by
  unfold SessionService.apply SessionService.checkTransition
  apply wp_bind.mpr
  split
  · rename_i hallowed
    apply wp_bind.mpr
    apply wp_bind.mpr
    apply wp_perform.mpr
    intro w₁ h₁
    refine ⟨⟨?_,?_,nofun⟩,fun r w₂ h₂ => ?_⟩
    · simp [Op.Lawful,Op.role,Stmt.role,hallowed]
    · rw [h₁.world.run]
      exact ht
    · rcases r with e | rows
      · exact hraise e w₂
      · rcases h₂.1.world.of_update with ⟨rfl,-,-⟩ | ⟨u,now,-,rfl,hchange⟩
        · exact hraise _ w₂
        · refine hok w₂ (delta.fields.assign delta.state now u) hchange.key ⟨_,hchange.own⟩ ?_
          intro remote hflow hrun
          have hnoted := h₂.1.noted_of_update hflow (by rwa [h₁.world.run])
          change noted w₂ x u.id = some remote
          rwa [hchange.key]
  · exact hraise _ w

/-- A session change that stores no flow. -/
theorem keeps_apply (session : AgentSession) {delta : SessionDelta} (hf : delta.remoteFlow = none)
    (hs : delta.remoteSessionId = none) :
    Keeps (spec d x) (fun _ => True) (SessionService.apply session delta) := by
  intro w hw
  apply wp_apply
  · refine ⟨fun flow hflow => ?_,fun hsid => ?_⟩
    · simp [SessionDelta.fields,hf] at hflow
    · simp [SessionDelta.fields,hs] at hsid
  · exact fun _ _ => trivial
  · exact fun _ _ _ _ _ => trivial

/-- The session is claimed, and the agent ends the interview as it was run. -/
structure Ready (d : Deployment) (x : Conn) (claimed : AgentSession) (agent : Option RegisteredAgent)
    (w : World × Interviews) : Prop where
  own : ∃ v, (w.1.db.sessions.row claimed.id).dirty = some (x,v)
  agrees : d.mitraEnabled = true → ∀ remote, (agent.bind fun a => a.spec.remote) = some remote →
    ∃ ran, noted w x claimed.id = some ran ∧ remote.EndsLike ran

namespace Ready

variable {claimed : AgentSession} {agent : Option RegisteredAgent}

theorem of_eq (h : Ready d x claimed agent w) (hr : w'.1.db.sessions.row claimed.id = w.1.db.sessions.row claimed.id)
    (hn : noted w' x claimed.id = noted w x claimed.id) : Ready d x claimed agent w' :=
  ⟨hr ▸ h.own,hn ▸ h.agrees⟩

theorem unmoved (h : Ready d x claimed agent w) (hu : NotedUnmoved x w w') : Ready d x claimed agent w' := by
  obtain ⟨v,hv⟩ := h.own
  exact h.of_eq (hu.world.own _ v hv) (hu.own _ v hv)

theorem of_role {o : Op} {r : Except Exn o.Ans} (h : Ready d x claimed agent w)
    (hc : NotedCalled d x o w r w') (ho : o.role.isDb = false) : Ready d x claimed agent w' := by
  have hdb := hc.world.db_of_role ho
  have hran := hc.ran_of_role ho
  exact h.of_eq (by rw [hdb]) (by simp only [noted,hran])

theorem of_stmt {s : Stmt} {a : s.Ans} (h : Ready d x claimed agent w)
    (hc : NotedCalled d x (.stmt s) w (.ok a) w')
    (hs : s.role ∉ [Role.create,.apply,.forced,.claim,.abandon])
    (hw : s.role ∉ [Role.apply,.forced]) : Ready d x claimed agent w' := by
  have hrow := hc.world.row_of_stmt hs
  have hran := hc.ran_of_stmt hw
  exact h.of_eq (by rw [hrow]) (by simp only [noted,hran])

/-- The end-story call of a claimed session. -/
theorem endsAsRan {remote : RemoteSpec} {story : EndStory} (h : Ready d x claimed agent w) (hw : Interviews.Fit w.1 w.2)
    (he : d.mitraEnabled = true) (hr : (agent.bind fun a => a.spec.remote) = some remote) (hs : story.session = claimed.id)
    (hf : story.flow = remote.flowName) (hp : story.path = remote.finalizePath)
    (hg : story.asGuest = remote.finalizeAsGuest) : story.EndsAsRan w x := by
  obtain ⟨u,hu⟩ := h.own
  obtain ⟨ran,hran,hflow,hpath,hguest⟩ := h.agrees he remote hr
  have hview : w.1.db.sessions.view x claimed.id = some u := Row.view_of_dirty hu
  have hfits := (hw claimed.id).view x
  refine ⟨u,hs ▸ hview,ran,hs ▸ hran,?_,by rw [hf,hflow],by rw [hp,hpath],by rw [hg,hguest]⟩
  have hfit : u.remoteFlow = (noted w x claimed.id).map (·.flowName) := by
    have := hfits.flow
    rwa [show (w.1.db.sessions.row claimed.id).view x = some u from hview] at this
  rw [hfit,hran,hf,hflow]
  rfl

end Ready

open OrchestrationService

theorem wp_endStory {claimed : AgentSession} {agent : Option RegisteredAgent} {user : UserContext}
    (hw : Ready d x claimed agent w) :
    wp (spec d x) (endStory d claimed agent user) (fun _ _ => True) w := by
  unfold endStory
  split
  · rename_i remote henabled hremote
    apply wp_bind.mpr
    apply wp_perform.mpr
    intro w₁ h₁
    refine ⟨⟨nofun,trivial,?_⟩,fun r w₂ h₂ => ?_⟩
    · intro story hs hgood
      obtain rfl := Op.finalize.inj hs
      exact (hw.unmoved h₁).endsAsRan hgood henabled hremote rfl rfl rfl rfl
    · rcases r with e | ⟨storyId,content⟩
      · trivial
      · trivial
  · trivial

theorem wp_finalizeClaimed {claimed : AgentSession} {agent : Option RegisteredAgent} {user : UserContext}
    (hw : Ready d x claimed agent w) :
    wp (spec d x) (finalizeClaimed d claimed agent user) (fun _ _ => True) w := by
  have hclose : Keeps (spec d x) (Ready d x claimed agent) (closeRemoteChannel d claimed.conversationId) := by
    apply keeps_of_within (closeRemoteChannel_calls ..).within (by decide)
    · exact fun w w' h hu => h.unmoved hu
    · intro o w r w' ho h hc
      apply h.of_role hc
      simp only [List.mem_singleton] at ho
      rw [ho]
      rfl
  apply wp_bind.mpr
  apply wp_mono (hclose w hw)
  rintro (e | u) w₁ h₁
  · trivial
  apply wp_bind.mpr
  apply wp_attempt.mpr
  apply wp_mono (wp_endStory h₁)
  rintro (e | ⟨remote,storyId,content⟩) w₂ -
  · exact Keeps.bind (keeps_apply claimed rfl rfl) (fun _ => Keeps.throw _) w₂ trivial
  · have hreport : Keeps (spec d x) (fun _ => True) (fetchReport claimed remote) :=
      keeps_true (fetchReport_calls claimed remote).within (by decide)
    have hunpin : Within [.unpin] (ConversationRepository.unpin claimed.conversationId) := Within.stmt rfl
    refine Keeps.bind hreport (fun url => ?_) w₂ trivial
    refine Keeps.bind (keeps_apply claimed rfl rfl) fun completed => ?_
    exact Keeps.bind (keeps_true hunpin (by decide)) fun _ => Keeps.pure _

/-- The claim decides with what the interview is finalised. -/
theorem wp_finalize {session : AgentSession} {agent : Option RegisteredAgent} {user : UserContext}
    (hready : ∀ w₁ w₂ u, NotedUnmoved x w w₁ →
      NotedCalled d x (.stmt (.claimFinalizing session.id)) w₁ (.ok [{ u with state := .finalizing }]) w₂ →
      ClaimAgrees d w₁ x session.id → u.state.claimable = true →
      Database.Changes x session.id u { u with state := .finalizing } w₁.1.db w₂.1.db →
      Ready d x { u with state := .finalizing } agent w₂) :
    wp (spec d x) (finalize d session agent user) (fun _ _ => True) w := by
  apply wp_bind.mpr
  apply wp_bind.mpr
  apply wp_perform.mpr
  intro w₁ h₁
  refine ⟨pre_of_role rfl,fun r w₂ h₂ => ?_⟩
  rcases r with e | rows
  · trivial
  rcases h₂.1.world.of_claim with ⟨rfl,-,-⟩ | ⟨u,hu,rfl,hchange⟩
  · have hget := keeps_true (d := d) (x := x) (SessionService.get_calls session.id).within (by decide)
    exact Keeps.bind hget (fun _ => Keeps.pure _) w₂ trivial
  · have hr₂ := hready w₁ w₂ u h₁ h₂.1 (h₂.2 _ rfl) hu hchange
    apply wp_bind.mpr
    apply wp_perform.mpr
    intro w₃ h₃
    refine ⟨pre_of_role rfl,fun r w₄ h₄ => ?_⟩
    rcases r with e | a
    · trivial
    · exact wp_finalizeClaimed ((hr₂.unmoved h₃).of_stmt h₄.1 (by simp [Stmt.role]) (by simp [Stmt.role]))

/-- Once the handler has run, it is the one of the request. -/
theorem wp_runHandler {inp : TurnInput} {conv : Conversation} {agent : RegisteredAgent}
    {session : Option AgentSession} {history : List Message} (hw : w.1.run x = none) :
    wp (spec d x) (runHandler d inp conv agent session history) (fun r w' =>
      w'.1.run x = some ⟨agent,session.map (·.id),inp.text,history⟩ ∧ ∀ turn, r = .ok turn → TurnOf agent turn) w := by
  apply (returns_runHandler inp conv agent session history).wp
  apply wp_bind.mpr
  apply wp_attempt.mpr
  apply wp_bind.mpr
  apply wp_perform.mpr
  intro w₁ h₁
  refine ⟨pre_of_role rfl,fun r w₂ h₂ => ?_⟩
  obtain ⟨u,rfl⟩ := h₂.1.world.sure rfl
  have hran : w₂.1.run x = some ⟨agent,session.map (·.id),inp.text,history⟩ := by
    rw [h₂.1.world.run,h₁.world.run,hw]
    rfl
  have hhandle := (handle_calls d conv.id agent inp.user (session.map (·.toSessionView)) inp.text).within
  have hend : Within [.mark] (do let _ ← perform (Op.handleEnd conv.id); pure () : Proc Unit) :=
    Within.bind (Within.perform rfl) fun _ => trivial
  refine wp_mono (Keeps.ensuring (keeps_ran hhandle (by decide)) (keeps_ran hend (by decide)) w₂ hran) ?_
  intro r w₃ h₃
  have hrecover := (recoverTimedOutTurn_calls d agent session inp.text).within
  dsimp only
  split
  · exact Keeps.pure _ w₃ h₃
  · refine Keeps.bind (keeps_ran hrecover (by decide)) ?_ w₃ h₃
    rintro (_ | turn)
    · exact Keeps.throw _
    · exact Keeps.pure _
  · exact Keeps.throw _ w₃ h₃

/-- A turn that ends its interview finalises it with the configuration that it ran with. -/
theorem wp_settleTurn {inp : TurnInput} {agent : RegisteredAgent} {turn : AgentTurn}
    {session : Option AgentSession} {run : HandlerRun} (hrun : w.1.run x = some run)
    (hagent : run.agent = agent) (ht : TurnOf agent turn) :
    wp (spec d x) (settleTurn d inp agent turn session) (fun _ _ => True) w := by
  unfold settleTurn
  split
  · trivial
  · rename_i session
    rcases hdelta : turn.sessionDelta with _ | delta
    · have hterminal : turn.terminal = false := by
        rw [← Bool.not_eq_true]
        intro h
        simpa [hdelta] using ht.terminal h
      simp only [hterminal]
      trivial
    · obtain ⟨remote,hremote,hflow⟩ := ht.flow delta hdelta
      have hran : ((w.1.run x).bind fun run => run.agent.spec.remote) = some remote := by
        rw [hrun]
        simpa [hagent] using hremote
      apply wp_bind.mpr
      apply wp_apply
      · refine ⟨fun flow hf => ⟨remote,hran,?_⟩,fun _ => by simp [SessionDelta.fields,hflow]⟩
        simpa [SessionDelta.fields,hflow] using hf.symm
      · exact fun _ _ => trivial
      · intro w₁ v hid hown hnoted
        have hnoted₁ : noted w₁ x v.id = some remote := hnoted remote (by simp [hflow]) hran
        simp only
        split
        · apply wp_bind.mpr
          apply wp_mono (wp_finalize ?_)
          · rintro (e | s) w₂ - <;> trivial
          · intro w₂ w₃ u h₂ hcalled _ _ hchange
            obtain ⟨v',hv'⟩ := hown
            have hkeep := h₂.own _ v' hv'
            refine ⟨⟨_,hchange.own⟩,fun _ r hr => ?_⟩
            obtain rfl : remote = r := Option.some.inj (hremote.symm.trans hr)
            refine ⟨remote,?_,rfl,rfl,rfl⟩
            change noted w₃ x u.id = some remote
            rw [hchange.key]
            simp only [noted,hcalled.ran_of_stmt (show Role.claim ∉ [Role.apply,.forced] by decide)]
            exact hkeep.trans hnoted₁
        · trivial

theorem wp_handleTurnLocked {inp : TurnInput} {conv : Conversation} (hw : w.1.run x = none) :
    wp (spec d x) (handleTurnLocked d inp conv) (fun _ _ => True) w := by
  have hrecord := (recordUserMessage_calls inp conv).within
  apply wp_bind.mpr
  apply wp_mono (keeps_run hrecord (by decide) (by decide) w hw)
  rintro (e | u) w₁ h₁
  · trivial
  apply wp_bind.mpr
  apply wp_mono (keeps_run (routeTurn_within d inp conv) (by decide) (by decide) w₁ h₁)
  rintro (e | ⟨decision,agent⟩) w₂ h₂
  · trivial
  have hadmit := (admitTurn_calls d conv agent).within
  apply wp_bind.mpr
  apply wp_mono (keeps_run hadmit (by decide) (by decide) w₂ h₂)
  rintro (e | ⟨session,history⟩) w₃ h₃
  · trivial
  have hcommit : Within [.commit] (perform Op.commit : Proc Unit) := Within.perform rfl
  apply wp_bind.mpr
  apply wp_mono (keeps_run hcommit (by decide) (by decide) w₃ h₃)
  rintro (e | u) w₄ h₄
  · trivial
  apply wp_bind.mpr
  apply wp_mono (wp_runHandler h₄)
  rintro (e | turn) w₅ ⟨h₅,hturn⟩
  · trivial
  apply wp_bind.mpr
  apply wp_mono (wp_settleTurn h₅ rfl (hturn turn rfl))
  rintro (e | session') w₆ -
  · trivial
  have hstore := (storeReply_calls inp conv decision agent turn session').within
  refine Keeps.bind (keeps_true hstore (by decide)) (fun _ => ?_) w₆ trivial
  exact Keeps.bind (keeps_true hcommit (by decide)) fun _ => Keeps.pure _

theorem wp_handleTurn {inp : TurnInput} (hw : w.1.run x = none) :
    wp (spec d x) (handleTurn d inp) (fun _ _ => True) w := by
  have hconv := (ConversationRepository.getOrCreate_calls inp.conversationId inp.user).within
  apply wp_bind.mpr
  apply wp_mono (keeps_run hconv (by decide) (by decide) w hw)
  rintro (e | conv) w₁ h₁
  · trivial
  have hlock : Within [.lock] (tryLockConversation d conv.id) := Within.stmt rfl
  apply wp_bind.mpr
  apply wp_mono (keeps_run hlock (by decide) (by decide) w₁ h₁)
  rintro (e | _ | _) w₂ h₂
  · trivial
  · trivial
  · apply wp_ensuring.mpr
    apply wp_mono (wp_handleTurnLocked h₂)
    intro r w₃ _
    apply wp_mono (keeps_true (unlockConversation_within d conv.id) (by decide) w₃ trivial)
    rintro (e | u) w₄ _ <;> trivial

/-- A query of a session yields it, or nothing. -/
theorem wp_get {id : SessionId} {Q : Except Exn (Option AgentSession) → World × Interviews → Prop}
    (hraise : ∀ e w', Q (.error e) w') (hnone : ∀ w', Q (.ok none) w')
    (hsome : ∀ w' s, w'.1.serving x = w.1.serving x → s.id = id →
      w'.1.db.sessions.view x id = some s → Q (.ok (some s)) w') :
    wp (spec d x) (SessionService.get id) Q w := by
  apply wp_bind.mpr
  apply wp_perform.mpr
  intro w₁ h₁
  refine ⟨pre_of_role rfl,fun r w₂ h₂ => ?_⟩
  rcases r with e | rows
  · exact hraise e w₂
  · rcases rows with _ | ⟨s,_ | ⟨s',ss⟩⟩
    · exact hnone w₂
    · obtain ⟨hid,hview⟩ := h₂.1.world.of_getSession List.mem_cons_self
      exact hsome w₂ s (by rw [h₂.1.world.serving,h₁.world.serving]) hid hview
    · exact hraise _ w₂

/-- `POST /finalize` on a session: the agent is the snapshot's. -/
theorem wp_finalizeNow {id : SessionId} {user : UserContext} (hw : w.1.serving x = some .finalize) :
    wp (spec d x) (finalizeNow d id user) (fun _ _ => True) w := by
  apply wp_bind.mpr
  apply wp_get
  · exact fun _ _ => trivial
  · exact fun _ => trivial
  intro w₂ session hserving hid hview
  apply wp_bind.mpr
  apply wp_perform.mpr
  intro w₃ h₃
  refine ⟨pre_of_role rfl,fun r w₄ h₄ => ?_⟩
  obtain ⟨registry,rfl⟩ := h₄.1.world.sure rfl
  have hread : w₄.1.lastRead x Op.registry = some registry := by
    rw [h₄.1.world.lastRead]
    rfl
  obtain ⟨v₃,hv₃,hs₃⟩ := h₃.world.same id session hview
  have hv₄ : w₄.1.db.sessions.view x id = some v₃ := by rw [h₄.1.world.db_of_role rfl,hv₃]
  apply wp_bind.mpr
  apply wp_mono (wp_finalize ?_)
  · rintro (e | s) w₅ - <;> trivial
  intro w₅ w₆ u h₅ hcalled hagrees hu hchange
  refine ⟨⟨_,hchange.own⟩,fun henabled remote hremote => ?_⟩
  have hview₅ : w₅.1.db.sessions.view x id = some u := hid ▸ hchange.view
  have hagent : u.agentId = session.agentId := by
    obtain ⟨v₅,hv₅,hs₅⟩ := h₅.world.same id v₃ hv₄
    obtain rfl := Option.some.inj (hview₅.symm.trans hv₅)
    exact (hs₃.trans hs₅).agentId
  have hserving₅ : w₅.1.serving x = some .finalize := by
    rw [h₅.world.serving,h₄.1.world.serving,h₃.world.serving,hserving,hw]
  have hread₅ : w₅.1.lastRead x Op.registry = some registry := by rw [h₅.world.lastRead,hread]
  have hfind : ((registry.getById u.agentId).bind (·.spec.remote)) = some remote := by
    rw [hagent]
    exact hremote
  obtain ⟨ran,hran⟩ := noted_of_claimable hcalled.world.before hcalled.fit hchange.view hu
  refine ⟨ran,?_,hagrees hserving₅ henabled u hchange.view hu registry hread₅ remote hfind ran hran⟩
  change noted w₆ x u.id = some ran
  rw [hchange.key]
  simp only [noted,hcalled.ran_of_stmt (show Role.claim ∉ [Role.apply,.forced] by decide)]
  exact hran

/-- What the request is does not change. -/
theorem keeps_serving {rs : List Role} {p : Proc α} {route : Route} (h : Within rs p)
    (hs : rs ⊆ freeRoles) : Keeps (spec d x) (fun w => w.1.serving x = some route) p := by
  apply keeps_of_within h hs
  · intro w w' hw hr
    rw [hr.world.serving,hw]
  · intro o w r w' ho hw hc
    rw [hc.world.serving,hw]

theorem keeps_storeRecovered (session : AgentSession) (agent : RegisteredAgent)
    (result : Reconciliation) :
    Keeps (spec d x) (fun _ => True) (storeRecovered session agent result) := by
  have hseq := (ConversationRepository.nextSeqForUpdate_calls session.conversationId).within
  have hinsert : ∀ m, Within [.record] (MessageRepository.insert m) := fun m => Within.stmt rfl
  have htouch : Within [.record] (ConversationRepository.touch session.conversationId none) :=
    Within.stmt rfl
  have hcommit : Within [.commit] (perform Op.commit : Proc Unit) := Within.perform rfl
  refine Keeps.bind (keeps_true hseq (by decide)) fun seq => ?_
  refine Keeps.bind (keeps_true (hinsert _) (by decide)) fun id => ?_
  refine Keeps.bind (keeps_apply session rfl rfl) fun updated => ?_
  refine Keeps.bind (keeps_true htouch (by decide)) fun _ => ?_
  exact Keeps.bind (keeps_true hcommit (by decide)) fun _ => Keeps.pure _

theorem keeps_resumeTurn (id : SessionId) :
    Keeps (spec d x) (fun _ => True) (resumeTurn d id) := by
  unfold resumeTurn
  refine Keeps.bind (keeps_true (SessionService.get_calls id).within (by decide)) ?_
  rintro (_ | session)
  · exact Keeps.pure _
  have hsnapshot : Within [.read] snapshot := Within.perform rfl
  have hlast : Within [.query] (MessageRepository.lastUserContent session.conversationId) :=
    (Straight.one rfl).within
  refine Keeps.bind (keeps_true hsnapshot (by decide)) fun registry => ?_
  refine Keeps.bind (keeps_true hlast (by decide)) fun lastUserText => ?_
  split
  · split
    · exact Keeps.pure _
    · have hreconcile := (reconcileTurn_calls d ‹_› (some session) (.str ‹_›)).within
      refine Keeps.bind (keeps_true hreconcile (by decide)) ?_
      rintro (_ | result)
      · exact Keeps.pure _
      · simp only
        split
        · exact Keeps.bind (keeps_storeRecovered session _ result) fun _ => Keeps.pure _
        · exact Keeps.pure _
  · exact Keeps.pure _

theorem sure : Routes.Sure (spec d x) := fun _ _ _ _ ho h => h.1.world.sure ho

theorem keeps_call {A : World × Interviews → Prop} {o : Op} (ho : freeRoles.contains o.role = true)
    (hA : ∀ w w', A w → NotedUnmoved x w w' → A w')
    (hcall : ∀ w r w', A w → NotedCalled d x o w r w' → A w') : Keeps.Call (spec d x) A o :=
  fun w hw w₁ hr => ⟨pre_of_role ho,fun r w₂ h₂ => hcall w₁ r w₂ (hA w w₁ hw hr) h₂.1⟩

/-- The request's database session around a route. -/
theorem wp_withDb {A : World × Interviews → Prop} {route : Proc Response}
    (hroute : ∀ w, A w → wp (spec d x) route (fun _ _ => True) w)
    (hA : ∀ w w', A w → NotedUnmoved x w w' → A w')
    (hcall : ∀ o w r w', o = .reloadDue ∨ o = .stmt .registryQuery → A w → NotedCalled d x o w r w' → A w')
    (hw : A w) : wp (spec d x) (Routes.withDb route) (fun _ _ => True) w := by
  have htrue : ∀ o : Op, freeRoles.contains o.role = true →
      Keeps.Call (spec d x) (fun _ => True) o := fun o ho =>
    keeps_call ho (fun _ _ _ _ => trivial) fun _ _ _ _ _ => trivial
  refine Routes.wp_withDb (D := fun _ => True) sure hroute ?_ (htrue _ rfl) (htrue _ rfl) ?_ hw
  · intro o ho
    apply keeps_call ?_ hA fun w r w' => hcall o w r w' ho
    rcases ho with rfl | rfl <;> rfl
  · exact fun w hw => Keeps.perform (htrue _ rfl) w hw

/-- A route that ends no interview and stores no flow. -/
theorem wp_plain {route : Proc Response} (h : Keeps (spec d x) (fun _ => True) route) :
    wp (spec d x) (Routes.withDb route) (fun _ _ => True) w :=
  wp_withDb h (fun _ _ _ _ => trivial) (fun _ _ _ _ _ _ _ => trivial) trivial

theorem wp_chat (body : Option ChatBody) (user : UserContext) (hw : w.1.run x = none) :
    wp (spec d x) (Routes.withDb (Routes.chat d body user)) (fun _ _ => True) w := by
  apply wp_withDb (A := fun w => w.1.run x = none) ?_ ?_ ?_ hw
  · intro w hw
    refine Routes.wp_chat (A := fun w => w.1.run x = none) (B := fun _ => True) ?_ ?_ ?_ hw
    · exact fun inp w hw => wp_handleTurn hw
    · exact fun _ _ => trivial
    · intro o ho
      exact keeps_call (by rw [ho]; rfl) (fun _ _ _ _ => trivial) fun _ _ _ _ _ => trivial
  · intro w w' hw hr
    rw [hr.world.run,hw]
  · intro o w r w' ho hw hc
    have hrun : o.run = none := by rcases ho with rfl | rfl <;> rfl
    rw [hc.world.run,hw,hrun]
    rfl

theorem wp_finalizeSession (sid : UuidField) (user : UserContext)
    (hw : w.1.serving x = some .finalize) :
    wp (spec d x) (Routes.withDb (Routes.finalizeSession d sid user)) (fun _ _ => True) w := by
  apply wp_withDb (A := fun w => w.1.serving x = some .finalize) ?_ ?_ ?_ hw
  · intro w hw
    apply wp_bind.mpr
    have hresolve := (Routes.resolve_calls sid user).within
    apply wp_mono (keeps_serving hresolve (by decide) w hw)
    rintro (e | _ | ⟨id,dto⟩) w₁ h₁
    · trivial
    · trivial
    · apply wp_catching.mpr
      apply wp_bind.mpr
      apply wp_mono (wp_finalizeNow h₁)
      rintro (e | _ | s) w₂ -
      · cases e <;> trivial
      · trivial
      · trivial
  · intro w w' hw hr
    rw [hr.world.serving,hw]
  · intro o w r w' _ hw hc
    rw [hc.world.serving,hw]

theorem wp_prog {req : Req} (hs : w.1.serving x = some req.route) (hr : w.1.run x = none) :
    wp (spec d x) (req.prog d) (fun _ _ => True) w := by
  cases req with
  | chat body user => exact wp_chat body user hr
  | finalize sid user => exact wp_finalizeSession sid user hs
  | resume sid user =>
    have hresolve := keeps_true (d := d) (x := x) (Routes.resolve_calls sid user).within (by decide)
    apply wp_plain
    refine Keeps.bind hresolve ?_
    rintro (_ | ⟨id,dto⟩)
    · exact Keeps.pure _
    · refine Keeps.catching (Keeps.bind (keeps_resumeTurn id) ?_) fun e => ?_
      · rintro (_ | result) <;> exact Keeps.pure _
      · cases e with
        | mitra e => exact Keeps.pure _
        | _ => exact Keeps.throw _
  | abandon sid user => exact wp_plain (keeps_true (Routes.abandonSession_calls d sid user).within (by decide))
  | reset c user => exact wp_plain (keeps_true (Routes.reset_calls d c user).within (by decide))
  | sweep olderThan => exact wp_plain (keeps_true (Routes.sweep_calls olderThan).within (by decide))

/-- Every request is verified against every other. -/
def outline (d : Deployment) : Outline (interviews d) (SnapshotAgrees d) (World × Interviews) where
  loc w _ := w
  spec := spec d
  G w := AgentSession.Consistent w.1.db.sessions ∧ Interviews.Fit w.1 w.2
  Free _ _ := True
  Q _ _ _ := True
  rely_refl _ w := .refl w
  rely_trans _ _ _ _ h₁ h₂ := h₁.trans h₂
  free_rely _ _ _ _ _ := trivial
  free_end _ _ _ _ := trivial
  begin_ok c x req hG _ _ := by
    refine ⟨hG,wp_prog ?_ ?_,fun y hy => .of_begin hy.symm⟩
    · simp [interviews,Interp.noting,system]
    · simp [World.run,interviews,Interp.noting,system]
  exec_ok c x o k ch r w hG hx hok hpre he := by
    obtain ⟨hlawful,htold,-⟩ := hpre
    have hcalled := NotedCalled.of_exec hG.1 hG.2 hlawful he
    have hfit := hcalled.fit_after htold
    refine ⟨⟨hcalled.world.after,hfit⟩,⟨hcalled,?_⟩,fun y hy => .of_exec hy.symm hG.1 hG.2 hfit he⟩
    rintro id rfl
    exact hok _ (Config.nextCall_eq hx) id rfl
  env_ok c e w hG _ he := by
    have hw := env_noting he
    have hf := World.envFrame hw.1
    refine ⟨?_,fun y => .of_env he⟩
    simp only [Interviews.Fit,hf.db,hw.2]
    exact hG

/-- Each request answers its calls as in `smooth`, and the tenant "acme" has its own flow on record. -/
def answer (w : World × Interviews) : Op → Choice
  | .stmt (.scopedConfig _ tenant _) =>
    let spec : AgentSpec := { Sample.interviewer.spec with
      kind := .remoteFlow { flowName := "acme-story", botRouteEnv := "BOT_ROUTE" } }
    .db (.go { config := if tenant = "acme" then some ("acme",some spec) else none })
  | o => Sample.smooth w.1 o

/-- A turn with the interviewer, and `POST /finalize` up to its end-story call. -/
def cues (user : UserContext) : List (Cue (World × Interviews) Conn Req Choice World.EnvAct Op) :=
  [.act (.start 0 (.chat (some { message := some (.str "hello"), agentKey := .str "story" }) user)),
    .serve 0 answer 60,.act (.start 1 (.finalize (.id 2) user)),.serve 1 answer 8]

end FinalFlow

end Saarathi
