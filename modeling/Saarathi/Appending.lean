import Saarathi.Footprints

/-!
# Programs that append no message

A message is numbered and inserted, and its conversation touched and titled, in
three places only: at the start and at the end of a turn, and where a reply is
recovered. Everything else that a request runs is calm: it does none of this,
nor does it take or give back a turn lock.
-/

namespace Saarathi

open Program Program.Prog

/-- The calls that neither append a message, touch or title a conversation, nor move a turn lock. -/
def Op.calm : Op → Bool
  | .stmt (.nextSeqForUpdate _) => false
  | .stmt (.insertMessage _) => false
  | .stmt (.touch ..) => false
  | .stmt (.setPlaceholderTitle ..) => false
  | .stmt (.replacePlaceholderTitle ..) => false
  | .stmt (.tryAdvisoryLock _) => false
  | .stmt (.advisoryUnlock _) => false
  | _ => true

theorem Op.calm_of_role {o : Op} (h : o.role ∉ [Role.record,.lock,.unlock]) : o.calm = true := by
  cases o with
  | stmt s =>
    cases s with
    | nextSeqForUpdate c => exact absurd (List.mem_cons_self ..) h
    | insertMessage m => exact absurd (List.mem_cons_self ..) h
    | touch c title => exact absurd (List.mem_cons_self ..) h
    | setPlaceholderTitle c title => exact absurd (List.mem_cons_self ..) h
    | replacePlaceholderTitle c title => exact absurd (List.mem_cons_self ..) h
    | tryAdvisoryLock key => exact absurd (show Role.lock ∈ _ by decide) h
    | advisoryUnlock key => exact absurd (show Role.unlock ∈ _ by decide) h
    | _ => rfl
  | _ => rfl

/-- Every call of the program is calm. -/
def Calm {α : Type} (p : Proc α) : Prop := All (fun o => o.calm = true) p

namespace Calm

variable {α β : Type} {d : Deployment}

theorem bind {p : Proc α} {f : α → Proc β} (hp : Calm p) (hf : ∀ a, Calm (f a)) : Calm (p >>= f) :=
  All.bind hp hf

theorem pure (a : α) : Calm (Pure.pure a : Proc α) := trivial

theorem throw (e : Exn) : Calm (MonadExcept.throw e : Proc α) := trivial

theorem branch {b : Prop} [Decidable b] {p q : Proc α} (hp : Calm p) (hq : Calm q) :
    Calm (if b then p else q) := by
  split
  · exact hp
  · exact hq

theorem perform {o : Op} (h : o.calm = true) : Calm (Prog.perform o) := (all_perform o).mpr h

theorem of_within {R : List Role} {p : Proc α} (h : Within R p)
    (hR : ∀ r ∈ R, r ∉ [Role.record,.lock,.unlock]) : Calm p :=
  All.mono h fun _ ho => Op.calm_of_role (hR _ ho)

end Calm

section Programs

variable {α : Type} {d : Deployment}

theorem SessionService.abandon_calm (c : ConversationId) (reason actor : String) :
    Calm (abandon c reason actor) := by
  refine Calm.bind (.of_within (R := [.query]) (Within.one rfl) (by decide)) ?_
  rintro (_ | session)
  · exact .pure _
  refine Calm.bind (.of_within (R := [.abandon]) (Within.one rfl) (by decide)) ?_
  rintro (_ | updated)
  · exact .throw _
  refine Calm.bind (.perform rfl) fun _ => ?_
  exact Calm.bind (.perform rfl) fun _ => .pure _

theorem SessionService.openFor_calm {c : ConversationId} {agent : RegisteredAgent} {onDisplace : Proc Unit}
    (h : Calm onDisplace) : Calm (openFor c agent onDisplace) := by
  have hcreate : Calm (if agent.spec.routing.pinSession then do
      pure (some (← AgentSessionRepository.createPending c agent.id (language agent)))
    else pure none : Proc (Option AgentSession)) :=
    Calm.branch (Calm.bind (.perform rfl) fun _ => .pure _) (.pure _)
  refine Calm.bind (.of_within (R := [.query]) (Within.one rfl) (by decide)) ?_
  rintro (_ | existing)
  · exact hcreate
  · refine Calm.branch (.pure _) ?_
    exact Calm.bind (abandon_calm ..) fun _ => Calm.bind h fun _ => hcreate

theorem SessionService.sweepRows_calm (ss : List AgentSession) : Calm (sweepRows ss) := by
  induction ss with
  | nil => exact .pure _
  | cons s ss ih => exact Calm.bind (.perform rfl) fun _ => Calm.bind (.perform rfl) fun _ => ih

namespace RouterService

theorem exitToDefault_calm (c : ConversationId) : Calm (exitToDefault c) := by
  refine Calm.bind (SessionService.abandon_calm ..) fun _ => ?_
  refine Calm.bind (.perform rfl) fun _ => ?_
  exact Calm.bind (.of_within (R := [.read]) (Within.perform rfl) (by decide)) fun _ => .pure _

theorem selectExplicit_calm (conv : Conversation) (inp : TurnInput) (key : Json) :
    Calm (selectExplicit d conv inp key) := by
  have hplain : ∀ {β : Type} {p : Proc β}, Within [.read] p → Calm p := fun h => .of_within h (by decide)
  unfold selectExplicit
  refine Calm.bind (hplain (Within.perform rfl)) fun r => ?_
  refine Calm.bind (hplain (registryGet_calls _ _).within) ?_
  rintro (_ | a)
  · exact .throw _
  refine Calm.branch (.throw _) ?_
  refine Calm.bind (hplain (textOr_calls _).within) fun text => ?_
  exact Calm.branch (exitToDefault_calm _) (.pure _)

theorem selectPinned_calm (conv : Conversation) (inp : TurnInput) : Calm (selectPinned d conv inp) := by
  have hplain : ∀ {β : Type} {p : Proc β}, Within [.read,.query] p → Calm p := fun h => .of_within h (by decide)
  unfold selectPinned
  refine Calm.bind (hplain (pinFor_calls _).within) ?_
  rintro (_ | a)
  · exact hplain ((selectFree_calls ..).within.mono (by decide))
  refine Calm.bind (hplain (textOr_calls _).within) fun text => ?_
  exact Calm.branch (exitToDefault_calm _) (.pure _)

theorem select_calm (conv : Conversation) (inp : TurnInput) : Calm (select d conv inp) := by
  unfold select
  split
  · exact Calm.branch (selectExplicit_calm ..) (selectPinned_calm ..)
  · exact selectPinned_calm ..

end RouterService

namespace OrchestrationService

theorem conversationTitle_calm (j : Json) : Calm (conversationTitle j) :=
  .of_within (R := []) (conversationTitle_calls j).within (by decide)

theorem agentFallbackTitle_calm (agent : RegisteredAgent) : Calm (agentFallbackTitle agent) :=
  .of_within (agentFallbackTitle_calls agent).within (by decide)

theorem bulkInsert_calm (id : ℕ) (agent : AgentId) (ts : List ToolTrace) :
    Calm (ToolExecutionRepository.bulkInsert id agent ts) := by
  have hcheck : Calm (ToolExecutionRepository.checkTraces ts) := by
    induction ts with
    | nil => exact .pure _
    | cons t ts ih => exact Calm.branch (.throw _) ih
  exact Calm.branch (.pure _) (Calm.bind hcheck fun _ => .perform rfl)

theorem routeTurn_calm (inp : TurnInput) (conv : Conversation) : Calm (routeTurn d inp conv) := by
  refine Calm.bind (.of_within (routerHistory_calls conv).within (by decide)) fun _ => ?_
  refine Calm.bind (RouterService.select_calm ..) fun decision => ?_
  split
  · exact .throw _
  · exact Calm.bind (.of_within (AgentRegistry.resolveForScope_within ..) (by decide)) fun _ => .pure _

theorem admitTurn_calm (conv : Conversation) (agent : RegisteredAgent) : Calm (admitTurn d conv agent) := by
  have hclose : Calm (closeRemoteChannel d conv.id) := .of_within (closeRemoteChannel_calls d conv.id).within (by decide)
  refine Calm.bind (.of_within (checkRateLimits_calls conv.id agent.spec.limits).within (by decide)) fun _ => ?_
  refine Calm.bind (SessionService.openFor_calm hclose) fun session => ?_
  refine Calm.bind (Calm.branch (.perform rfl) (.pure _)) fun _ => ?_
  exact Calm.bind (.of_within (MessageRepository.recent_calls ..).within (by decide)) fun _ => .pure _

theorem runHandler_calm (inp : TurnInput) (conv : Conversation) (agent : RegisteredAgent)
    (session : Option AgentSession) (history : List Message) : Calm (runHandler d inp conv agent session history) :=
  .of_within (runHandler_calls ..).within (by decide)

theorem finalize_calm (session : AgentSession) (agent : Option RegisteredAgent) (user : UserContext) :
    Calm (finalize d session agent user) := by
  refine Calm.bind (.of_within (SessionService.claimFinalizing_calls _).within (by decide)) ?_
  rintro (_ | claimed)
  · exact Calm.bind (.of_within (SessionService.get_calls _).within (by decide)) fun _ => .pure _
  · refine Calm.bind (.perform rfl) fun _ => ?_
    exact .of_within (finalizeClaimed_calls ..).within (by decide)

theorem settleTurn_calm (inp : TurnInput) (agent : RegisteredAgent) (turn : AgentTurn)
    (session : Option AgentSession) : Calm (settleTurn d inp agent turn session) := by
  unfold settleTurn
  split
  · exact .pure _
  refine Calm.bind ?_ fun session => ?_
  · split
    · exact .of_within (SessionService.apply_calls ..).within (by decide)
    · exact .pure _
  · split
    · exact Calm.bind (finalize_calm ..) fun _ => .pure _
    · exact .pure _

theorem closeRemoteChannel_calm (c : ConversationId) : Calm (closeRemoteChannel d c) :=
  .of_within (closeRemoteChannel_calls d c).within (by decide)

end OrchestrationService

namespace Routes

open OrchestrationService

variable (d)

theorem abandonSession_calm (sid : UuidField) (user : UserContext) : Calm (abandonSession d sid user) := by
  refine Calm.bind (.of_within (resolve_calls sid user).within (by decide)) ?_
  rintro (_ | ⟨id,dto⟩)
  · exact .pure _
  · refine Calm.bind (SessionService.abandon_calm ..) fun updated => ?_
    exact Calm.bind (Calm.branch (closeRemoteChannel_calm _) (.pure _)) fun _ => .pure _

theorem leave_calm (c : UuidField) (user : UserContext) : Calm (leave d c user) := by
  refine Calm.bind (.of_within (findCurrent_calls c user).within (by decide)) ?_
  rintro (_ | conv)
  · exact .pure _
  · refine Calm.bind (SessionService.abandon_calm ..) fun abandoned => ?_
    exact Calm.branch (closeRemoteChannel_calm _) (.pure _)

theorem reset_calm (c : UuidField) (user : UserContext) : Calm (reset d c user) := by
  unfold reset
  split
  · exact .pure _
  · refine Calm.bind (leave_calm d _ user) fun _ => ?_
    exact Calm.bind (.of_within (startNew_calls user).within (by decide)) fun _ => .pure _

theorem sweep_calm (olderThan : ℕ) : Calm (sweep olderThan) := by
  refine Calm.bind (Calm.bind (.of_within (R := [.abandon]) (Within.stmt rfl) (by decide)) fun swept => ?_)
    fun _ => .pure _
  exact Calm.bind (SessionService.sweepRows_calm swept) fun _ => .pure _

theorem finalizeSession_calm (sid : UuidField) (user : UserContext) : Calm (finalizeSession d sid user) := by
  refine Calm.bind (.of_within (resolve_calls sid user).within (by decide)) ?_
  rintro (_ | ⟨id,dto⟩)
  · exact .pure _
  refine All.catching (Calm.bind ?_ ?_) fun e => ?_
  · refine Calm.bind (.of_within (SessionService.get_calls id).within (by decide)) ?_
    rintro (_ | session)
    · exact .pure _
    refine Calm.bind (.perform rfl) fun registry => ?_
    exact Calm.bind (finalize_calm ..) fun _ => .pure _
  · rintro (_ | s) <;> exact .pure _
  · split <;> trivial

end Routes

end Programs

section Keeps

variable {L α : Type} {S : Spec Op Op.Ans Exn L} {A : L → Prop} {d : Deployment}

theorem Calm.keeps {p : Proc α} (h : Calm p) (hcalm : ∀ o : Op, o.calm = true → Keeps.Call S A o) : Keeps S A p :=
  Keeps.of_all h hcalm

/-- The roles of the calm calls that only a turn makes: it counts its user's messages, and it runs a handler. -/
abbrev Role.ofTurn (r : Role) : Prop := r ∈ [Role.count,.mark]

/-- A calm program of these roles, of which none is a turn's. -/
theorem Calm.keeps_within {R : List Role} {p : Proc α} (h : Calm p) (hw : Within R p) (hR : ∀ r ∈ R, ¬ r.ofTurn)
    (hcalm : ∀ o : Op, o.calm = true → ¬ o.role.ofTurn → Keeps.Call S A o) : Keeps S A p :=
  Keeps.of_all (h.and hw) fun o ho => hcalm o ho.1 (hR _ ho.2)

/-- A recovery keeps what its calm calls and its storing keep. -/
theorem OrchestrationService.keeps_resumeTurn
    (hcalm : ∀ o : Op, o.calm = true → ¬ o.role.ofTurn → Keeps.Call S A o)
    (hstore : ∀ session agent result, Keeps S A (storeRecovered session agent result)) (id : SessionId) :
    Keeps S A (resumeTurn d id) := by
  have hplain : ∀ {β : Type} {p : Proc β}, Within [.read,.query] p → Keeps S A p := fun h =>
    (Calm.of_within h (by decide)).keeps_within h (by decide) hcalm
  unfold resumeTurn
  refine Keeps.bind (hplain ((SessionService.get_calls id).within.mono (by decide))) ?_
  rintro (_ | session)
  · exact Keeps.pure _
  refine Keeps.bind (hplain (Within.perform rfl)) fun registry => ?_
  refine Keeps.bind (hplain (Within.one rfl)) fun lastUserText => ?_
  split
  · rename_i agent text _
    split
    · exact Keeps.pure _
    · have hreconcile := (reconcileTurn_calls d agent (some session) (.str text)).within
      refine Keeps.bind (hplain (hreconcile.mono (by decide))) ?_
      rintro (_ | result)
      · exact Keeps.pure _
      · simp only
        split
        · exact Keeps.bind (hstore session agent result) fun _ => Keeps.pure _
        · exact Keeps.pure _
  · exact Keeps.pure _

theorem keepsCall_of_role (hcalm : ∀ o : Op, o.calm = true → ¬ o.role.ofTurn → Keeps.Call S A o) (o : Op)
    (ho : o.role ∈ [Role.read,.query,.commit,.rollback]) : Keeps.Call S A o := by
  refine hcalm o (Op.calm_of_role fun hr => ?_) fun hr => ?_
  · exact (by decide : ∀ r ∈ [Role.record,.lock,.unlock], r ∉ [Role.read,.query,.commit,.rollback]) _ hr ho
  · exact (by decide : ∀ r, r.ofTurn → r ∉ [Role.read,.query,.commit,.rollback]) _ hr ho

/-- A request that is no turn keeps what its calm calls and its recoveries keep. -/
theorem Req.keeps_prog_of_ne_chat (hS : Routes.Sure S)
    (hcalm : ∀ o : Op, o.calm = true → ¬ o.role.ofTurn → Keeps.Call S A o)
    (hstore : ∀ session agent result, Keeps S A (OrchestrationService.storeRecovered session agent result))
    (req : Req) (hreq : ∀ body user, req ≠ .chat body user) : Keeps S A (req.prog d) := by
  have hdb : ∀ {route : Proc Response}, Keeps S A route → Keeps S A (Routes.withDb route) := fun h =>
    Routes.keeps_withDb hS h (keepsCall_of_role hcalm)
  have hroute : ∀ {R : List Role} {route : Proc Response}, Straight R route → Calm route →
      (∀ r ∈ R, ¬ r.ofTurn) → Keeps S A (Routes.withDb route) := fun hw hc hR =>
    hdb (hc.keeps_within hw.within hR hcalm)
  cases req with
  | chat body user => exact absurd rfl (hreq body user)
  | resume sid user =>
    have hresolve := (Routes.resolve_calls sid user).within
    refine hdb (Keeps.bind ((Calm.of_within hresolve (by decide)).keeps_within hresolve (by decide) hcalm) ?_)
    rintro (_ | ⟨id,dto⟩)
    · exact Keeps.pure _
    refine Keeps.catching (Keeps.bind (OrchestrationService.keeps_resumeTurn hcalm hstore id) ?_) fun e => ?_
    · rintro (_ | result) <;> exact Keeps.pure _
    · split
      · exact Keeps.pure _
      · exact Keeps.throw _
  | finalize sid user => exact hroute (Routes.finalizeSession_calls d sid user) (Routes.finalizeSession_calm d sid user) (by decide)
  | abandon sid user => exact hroute (Routes.abandonSession_calls d sid user) (Routes.abandonSession_calm d sid user) (by decide)
  | reset c user => exact hroute (Routes.reset_calls d c user) (Routes.reset_calm d c user) (by decide)
  | sweep olderThan => exact hroute (Routes.sweep_calls olderThan) (Routes.sweep_calm olderThan) (by decide)

/-- A request keeps what its calm calls, its turns and its recoveries keep. -/
theorem Req.keeps_prog (hS : Routes.Sure S) (hcalm : ∀ o : Op, o.calm = true → Keeps.Call S A o)
    (hturn : ∀ inp, Keeps S A (OrchestrationService.handleTurn d inp))
    (hstore : ∀ session agent result, Keeps S A (OrchestrationService.storeRecovered session agent result))
    (req : Req) : Keeps S A (req.prog d) := by
  cases req with
  | chat body user =>
    have hrole := keepsCall_of_role fun o ho _ => hcalm o ho
    exact Routes.keeps_withDb hS (Routes.keeps_chat hturn fun o ho => hrole o (by rw [ho]; decide)) hrole
  | _ => exact keeps_prog_of_ne_chat hS (fun o ho _ => hcalm o ho) hstore _ nofun

end Keeps

end Saarathi
