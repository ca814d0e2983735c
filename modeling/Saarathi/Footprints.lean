import Saarathi.Routes

/-!
# Which calls a program makes

Each operation plays one role. One lemma for each function of the services lists
the roles of the calls that it can make, whatever they answer.
-/

namespace Saarathi

open Program Program.Prog

inductive Role where
  | read
  | query
  | count
  | record
  | newConversation
  | create
  | apply
  | forced
  | claim
  | abandon
  | pin
  | unpin
  | lock
  | unlock
  | commit
  | rollback
  | pop
  | channel
  | story
  | report
  | mark
  deriving DecidableEq

/-- The roles that the database plays a part in. -/
def Role.isDb : Role → Bool
  | .read => false
  | .pop => false
  | .channel => false
  | .story => false
  | .report => false
  | .mark => false
  | _ => true

/-- An update from states that `ALLOWED` all lets change to the new one is `apply`; any other is
`forced`. -/
def Stmt.role : Stmt → Role
  | .createPending .. => .create
  | .updateStateAndFields _ expected new _ => if ∀ s ∈ expected, new ∈ s.allowed then .apply else .forced
  | .claimFinalizing _ => .claim
  | .abandonOpenSession .. => .abandon
  | .sweepAbandonedOlderThan .. => .abandon
  | .createConversation _ => .newConversation
  | .nextSeqForUpdate _ => .record
  | .touch .. => .record
  | .setPlaceholderTitle .. => .record
  | .replacePlaceholderTitle .. => .record
  | .insertMessage _ => .record
  | .auditInsert .. => .record
  | .bulkInsert .. => .record
  | .pin .. => .pin
  | .unpin _ => .unpin
  | .tryAdvisoryLock _ => .lock
  | .advisoryUnlock _ => .unlock
  | .countRecentUser _ => .count
  | _ => .query

theorem Stmt.role_updateStateAndFields (id : SessionId) (expected : List SessionState)
    (new : SessionState) (fields : FieldUpdates) :
    (Stmt.updateStateAndFields id expected new fields).role = .apply ∨
      (Stmt.updateStateAndFields id expected new fields).role = .forced := by
  simp only [Stmt.role]
  split
  · exact .inl rfl
  · exact .inr rfl

def Op.role : Op → Role
  | .stmt s => s.role
  | .commit => .commit
  | .rollback => .rollback
  | .popChannel _ => .pop
  | .acquire .. => .channel
  | .sendAndAwaitTurn .. => .channel
  | .finalize _ => .story
  | .getReport .. => .report
  | .handleBegin .. => .mark
  | .handleEnd _ => .mark
  | _ => .read

theorem Op.eq_rollback {o : Op} (h : o.role = .rollback) : o = .rollback := by
  cases o with
  | rollback => rfl
  | stmt s =>
    cases s with
    | updateStateAndFields id expected new fields =>
      rcases Stmt.role_updateStateAndFields id expected new fields with hr | hr
      all_goals
        rw [Op.role,hr] at h
        cases h
    | _ => cases h
  | _ => cases h

theorem Stmt.isDb_role (s : Stmt) : s.role.isDb = true := by
  cases s with
  | updateStateAndFields id expected new fields =>
    rcases Stmt.role_updateStateAndFields id expected new fields with hr | hr
    all_goals
      rw [hr]
      rfl
  | _ => rfl

theorem Op.isDb_role_eq_false {o : Op} (hs : ∀ s, o ≠ .stmt s) (hc : o ≠ .commit)
    (hr : o ≠ .rollback) : o.role.isDb = false := by
  cases o with
  | stmt s => exact absurd rfl (hs s)
  | commit => exact absurd rfl hc
  | rollback => exact absurd rfl hr
  | _ => rfl

theorem Op.eq_popChannel {o : Op} (h : o.role = .pop) : ∃ c, o = .popChannel c := by
  cases o with
  | popChannel c => exact ⟨c,rfl⟩
  | stmt s =>
    have hdb := s.isDb_role
    rw [show s.role = .pop from h] at hdb
    cases hdb
  | _ => cases h

/-- The database rejected the statement or the commit. -/
def Op.rejects (o : Op) : Except Exn o.Ans → Bool
  | .error .rejected => o.role.isDb
  | _ => false

theorem Op.eq_of_rejects {o : Op} {r : Except Exn o.Ans} (h : o.rejects r = true) :
    o.role.isDb = true ∧ r = .error .rejected := by
  unfold Op.rejects at h
  split at h
  · exact ⟨h,rfl⟩
  · cases h

/-- The calls that cannot raise. -/
def Op.sure : Op → Bool
  | .rollback => true
  | .snapshot => true
  | .scopeLookup .. => true
  | .scopeStore .. => true
  | .popChannel _ => true
  | .getenv _ => true
  | .today => true
  | .reloadDue => true
  | .handleBegin .. => true
  | .handleEnd _ => true
  | _ => false

/-- Every call of the program plays one of these roles. -/
def Within {α : Type} (rs : List Role) (p : Proc α) : Prop := All (fun o => o.role ∈ rs) p

namespace Within

variable {α β : Type} {rs rs' : List Role} {p : Proc α}

theorem mono (h : Within rs p) (hs : rs ⊆ rs') : Within rs' p := All.mono h fun _ ho => hs ho

theorem bind {f : α → Proc β} (hp : Within rs p) (hf : ∀ a, Within rs (f a)) :
    Within rs (p >>= f) := All.bind hp hf

theorem branch {c : Prop} [Decidable c] {q : Proc α} (hp : Within rs p) (hq : Within rs q) :
    Within rs (if c then p else q) := by
  split
  · exact hp
  · exact hq

theorem attempt (h : Within rs p) : Within rs p.attempt := All.attempt h

theorem perform {o : Op} (h : rs.contains o.role = true) :
    Within rs (Prog.perform o : Proc o.Ans) := (all_perform o).mpr (List.contains_iff_mem.mp h)

theorem stmt {s : Stmt} (h : rs.contains s.role = true) :
    Within rs (Saarathi.stmt s) := perform h

theorem scalarOneOrNone (l : List α) : Within rs (Saarathi.scalarOneOrNone l) := by
  unfold Saarathi.scalarOneOrNone
  split <;> trivial

theorem scalarOne (l : List α) : Within rs (Saarathi.scalarOne l) := by
  unfold Saarathi.scalarOne
  split <;> trivial

/-- A query or an update of which at most one row comes back. -/
theorem one {s : Stmt} {f : s.Ans → List α} (h : rs.contains s.role = true) :
    Within rs (do Saarathi.scalarOneOrNone (f (← Saarathi.stmt s))) :=
  (stmt h).bind fun _ => scalarOneOrNone _

end Within

/-- A program that catches no exception of the database. -/
structure Straight {α : Type} (rs : List Role) (p : Proc α) : Prop where
  within : Within rs p
  propagates : Propagates (fun o : Op => o.role.isDb = true) (fun e => e.dbFailure = true) p

namespace Straight

variable {α β : Type} {rs rs' : List Role} {p : Proc α}

theorem mono (h : Straight rs p) (hs : rs ⊆ rs') : Straight rs' p := ⟨h.1.mono hs,h.2⟩

theorem bind {f : α → Proc β} (hp : Straight rs p) (hf : ∀ a, Straight rs (f a)) :
    Straight rs (p >>= f) := ⟨hp.1.bind fun a => (hf a).1,hp.2.bind fun a => (hf a).2⟩

theorem pure (a : α) : Straight rs (Pure.pure a : Proc α) := ⟨trivial,trivial⟩

theorem throw (e : Exn) : Straight rs (MonadExcept.throw e : Proc α) := ⟨trivial,trivial⟩

theorem branch {c : Prop} [Decidable c] {q : Proc α} (hp : Straight rs p) (hq : Straight rs q) :
    Straight rs (if c then p else q) := by
  split
  · exact hp
  · exact hq

/-- What is caught has nothing to do with the database. -/
theorem of_within (h : Within rs p) (hs : ∀ r ∈ rs, r.isDb = false) : Straight rs p :=
  ⟨h,Propagates.of_all (All.mono h fun o ho => by simp [hs _ ho])⟩

theorem attempt (h : Within rs p) (hs : ∀ r ∈ rs, r.isDb = false) : Straight rs p.attempt :=
  of_within h.attempt hs

theorem perform {o : Op} (h : rs.contains o.role = true) :
    Straight rs (Prog.perform o : Proc o.Ans) := ⟨Within.perform h,Propagates.perform o⟩

theorem stmt {s : Stmt} (h : rs.contains s.role = true) : Straight rs (Saarathi.stmt s) := perform h

theorem scalarOneOrNone (l : List α) : Straight rs (Saarathi.scalarOneOrNone l) := by
  unfold Saarathi.scalarOneOrNone
  split
  · exact pure _
  · exact pure _
  · exact throw _

theorem scalarOne (l : List α) : Straight rs (Saarathi.scalarOne l) := by
  unfold Saarathi.scalarOne
  split
  · exact throw _
  · exact pure _
  · exact throw _

/-- A query or an update of which at most one row comes back. -/
theorem one {s : Stmt} {f : s.Ans → List α} (h : rs.contains s.role = true) :
    Straight rs (do Saarathi.scalarOneOrNone (f (← Saarathi.stmt s))) :=
  (stmt h).bind fun _ => scalarOneOrNone _

end Straight

namespace SessionService

theorem abandon_calls (c : ConversationId) (reason actor : String) :
    Straight [.query,.abandon,.unpin,.record] (abandon c reason actor) := by
  refine Straight.bind (Straight.one rfl) ?_
  rintro (_ | s)
  · exact ⟨trivial,trivial⟩
  refine Straight.bind (Straight.one rfl) ?_
  rintro (_ | u)
  · exact ⟨trivial,trivial⟩
  refine Straight.bind (Straight.stmt rfl) fun _ => ?_
  exact Straight.bind (Straight.stmt rfl) fun _ => ⟨trivial,trivial⟩

theorem openFor_calls {c : ConversationId} {agent : RegisteredAgent} {onDisplace : Proc Unit}
    (h : Straight [.pop] onDisplace) :
    Straight [.query,.abandon,.unpin,.record,.pop,.create] (openFor c agent onDisplace) := by
  have hcreate : Straight [.query,.abandon,.unpin,.record,.pop,.create]
      (if agent.spec.routing.pinSession then do
        Pure.pure (some (← AgentSessionRepository.createPending c agent.id (language agent)))
      else Pure.pure none : Proc (Option AgentSession)) := by
    split
    · exact Straight.bind (Straight.stmt rfl) fun _ => ⟨trivial,trivial⟩
    · exact ⟨trivial,trivial⟩
  refine Straight.bind (Straight.one rfl) ?_
  rintro (_ | existing)
  · exact hcreate
  simp only
  split
  · exact ⟨trivial,trivial⟩
  refine Straight.bind ((abandon_calls ..).mono (by decide)) fun _ => ?_
  exact Straight.bind (h.mono (by decide)) fun _ => hcreate

theorem apply_calls (session : AgentSession) (delta : SessionDelta) :
    Straight [.apply] (apply session delta) := by
  unfold apply checkTransition
  split
  · rename_i ht
    refine Straight.bind (Straight.pure _) fun _ => ?_
    refine Straight.bind (Straight.one ?_) ?_
    · simp [Stmt.role,ht]
    · rintro (_ | u) <;> exact ⟨trivial,trivial⟩
  · exact ⟨trivial,trivial⟩

theorem claimFinalizing_calls (id : SessionId) : Straight [.claim] (claimFinalizing id) :=
  Straight.one rfl

theorem get_calls (id : SessionId) : Straight [.query] (get id) := Straight.one rfl

theorem sweepRows_calls (ss : List AgentSession) : Straight [.unpin,.record] (sweepRows ss) := by
  induction ss with
  | nil => exact ⟨trivial,trivial⟩
  | cons s ss ih =>
    refine Straight.bind (Straight.stmt rfl) fun _ => ?_
    exact Straight.bind (Straight.stmt rfl) fun _ => ih

theorem sweepAbandoned_calls (olderThan : ℕ) :
    Straight [.abandon,.unpin,.record] (sweepAbandoned olderThan) := by
  refine Straight.bind (Straight.stmt rfl) fun swept => ?_
  exact Straight.bind ((sweepRows_calls swept).mono (by decide)) fun _ => ⟨trivial,trivial⟩

end SessionService

namespace ConversationRepository

theorem foundOrNew_calls (user : UserContext) (rows : List Conversation) :
    Straight [.query,.newConversation] (do
      match ← scalarOneOrNone rows with
      | some c => pure c
      | none => createNew user) := by
  refine Straight.bind (Straight.scalarOneOrNone rows) ?_
  rintro (_ | c)
  · exact Straight.stmt rfl
  · exact ⟨trivial,trivial⟩

theorem getOrCreate_calls (id : Option ConversationId) (user : UserContext) :
    Straight [.query,.newConversation] (getOrCreate id user) := by
  cases id with
  | none => exact Straight.bind (Straight.stmt rfl) (foundOrNew_calls user)
  | some id => exact Straight.bind (Straight.stmt rfl) (foundOrNew_calls user)

theorem nextSeqForUpdate_calls (c : ConversationId) : Straight [.record] (nextSeqForUpdate c) :=
  Straight.bind (Straight.stmt rfl) fun _ => Straight.scalarOne _

end ConversationRepository

theorem MessageRepository.recent_calls (c : ConversationId) (n : ℕ) :
    Straight [.query] (MessageRepository.recent c n) := by
  exact Straight.branch ⟨trivial,trivial⟩ (Straight.stmt rfl)

theorem ToolExecutionRepository.bulkInsert_calls (id : ℕ) (agent : AgentId) (ts : List ToolTrace) :
    Straight [.record] (ToolExecutionRepository.bulkInsert id agent ts) := by
  have hcheck : Straight [.record] (checkTraces ts) := by
    induction ts with
    | nil => exact ⟨trivial,trivial⟩
    | cons t ts ih =>
      unfold checkTraces
      split
      · exact ⟨trivial,trivial⟩
      · exact ih
  exact Straight.branch ⟨trivial,trivial⟩ (hcheck.bind fun _ => Straight.stmt rfl)

namespace RouterService

variable (d : Deployment)

theorem textOr_calls {rs : List Role} (j : Json) : Straight rs (textOr j) := by
  unfold textOr
  split
  · exact ⟨trivial,trivial⟩
  · split <;> exact ⟨trivial,trivial⟩

theorem textOnly_calls {rs : List Role} (j : Json) : Straight rs (textOnly j) := by
  unfold textOnly
  split <;> exact ⟨trivial,trivial⟩

theorem registryGet_calls {rs : List Role} (r : AgentRegistry) (j : Json) :
    Straight rs (registryGet r j) := by
  unfold registryGet
  split <;> exact ⟨trivial,trivial⟩

theorem exitToDefault_calls (c : ConversationId) :
    Straight [.read,.query,.abandon,.unpin,.record] (exitToDefault c) := by
  refine Straight.bind ((SessionService.abandon_calls ..).mono (by decide)) fun _ => ?_
  refine Straight.bind (Straight.stmt rfl) fun _ => ?_
  exact Straight.bind (Straight.perform rfl) fun _ => ⟨trivial,trivial⟩

theorem pinFor_calls (conv : Conversation) : Straight [.read,.query] (pinFor conv) := by
  unfold pinFor
  refine Straight.bind ?_ ?_
  · split
    · exact Straight.bind (Straight.perform rfl) fun _ => ⟨trivial,trivial⟩
    · exact ⟨trivial,trivial⟩
  · rintro (_ | agent)
    · refine Straight.bind (Straight.one rfl) ?_
      rintro (_ | session)
      · exact ⟨trivial,trivial⟩
      · exact Straight.bind (Straight.perform rfl) fun _ => ⟨trivial,trivial⟩
    · exact ⟨trivial,trivial⟩

theorem modelRoute_calls (c : ConversationId) : Straight [.read] (modelRoute d c) := by
  unfold modelRoute
  refine Straight.bind (Straight.attempt (Within.perform rfl) (by decide)) ?_
  rintro (_ | _ | ⟨key,confidence⟩)
  · exact ⟨trivial,trivial⟩
  · exact ⟨trivial,trivial⟩
  · refine Straight.bind (Straight.perform rfl) fun r => ?_
    split
    · exact ⟨trivial,trivial⟩
    · split <;> exact ⟨trivial,trivial⟩

theorem selectFree_calls (conv : Conversation) (inp : TurnInput) :
    Straight [.read] (selectFree d conv inp) := by
  unfold selectFree
  refine Straight.bind (Straight.perform rfl) fun r => ?_
  refine Straight.bind ?_ fun hits => ?_
  · split
    · exact ⟨trivial,trivial⟩
    · exact Straight.bind (textOnly_calls _) fun _ => ⟨trivial,trivial⟩
  · split
    · exact ⟨trivial,trivial⟩
    · refine Straight.bind (modelRoute_calls ..) ?_
      rintro (_ | decision)
      · exact Straight.bind (Straight.perform rfl) fun _ => ⟨trivial,trivial⟩
      · exact ⟨trivial,trivial⟩

theorem selectExplicit_calls (conv : Conversation) (inp : TurnInput) (key : Json) :
    Straight [.read,.query,.abandon,.unpin,.record] (selectExplicit d conv inp key) := by
  unfold selectExplicit
  refine Straight.bind (Straight.perform rfl) fun r => ?_
  refine Straight.bind (registryGet_calls _ _) ?_
  rintro (_ | a)
  · exact ⟨trivial,trivial⟩
  · simp only
    split
    · exact ⟨trivial,trivial⟩
    · refine Straight.bind (textOr_calls _) fun text => ?_
      split
      · exact exitToDefault_calls _
      · exact ⟨trivial,trivial⟩

theorem selectPinned_calls (conv : Conversation) (inp : TurnInput) :
    Straight [.read,.query,.abandon,.unpin,.record] (selectPinned d conv inp) := by
  unfold selectPinned
  refine Straight.bind ((pinFor_calls _).mono (by decide)) ?_
  rintro (_ | a)
  · exact (selectFree_calls ..).mono (by decide)
  · refine Straight.bind (textOr_calls _) fun text => ?_
    split
    · exact exitToDefault_calls _
    · exact ⟨trivial,trivial⟩

theorem select_calls (conv : Conversation) (inp : TurnInput) :
    Straight [.read,.query,.abandon,.unpin,.record] (select d conv inp) := by
  unfold select
  split
  · split
    · exact selectExplicit_calls ..
    · exact selectPinned_calls ..
  · exact selectPinned_calls ..

end RouterService

theorem AgentRegistry.resolveForScope_within (agent : RegisteredAgent) (tenant organization : String) :
    Within [.read,.query] (AgentRegistry.resolveForScope agent tenant organization) := by
  have hscoped : Within [.read,.query] (scopedAgent agent tenant organization) := by
    unfold scopedAgent
    refine Within.bind (Within.stmt rfl) fun r => ?_
    split <;> trivial
  unfold resolveForScope
  split
  · trivial
  · refine Within.bind (Within.perform rfl) ?_
    rintro ⟨version,_ | resolved⟩
    · refine Within.bind hscoped.attempt ?_
      rintro (_ | resolved)
      · trivial
      · exact Within.bind (Within.perform rfl) fun _ => trivial
    · trivial

namespace RemoteFlowAgentHandler

theorem resolveEnv_calls (name : String) : Straight [.read] (resolveEnv name) := by
  unfold resolveEnv
  refine Straight.bind (Straight.perform rfl) ?_
  rintro (_ | value)
  · exact ⟨trivial,trivial⟩
  · simp only
    split <;> exact ⟨trivial,trivial⟩

theorem remoteSession_calls (remote : RemoteSpec) (user : UserContext) (session : AgentSessionView) :
    Straight [.read] (remoteSession remote user session) := by
  unfold remoteSession
  refine Straight.bind (resolveEnv_calls _) fun botRoute => ?_
  split
  · refine Straight.bind (resolveEnv_calls _) fun company => ?_
    refine Straight.bind (Straight.perform rfl) fun profileId => ?_
    exact Straight.bind (Straight.perform rfl) fun remoteSid => ⟨trivial,trivial⟩
  · exact ⟨trivial,trivial⟩

theorem converse_calls (c : ConversationId) (auth : Auth) (text : Json) (timeout gap : ℕ) :
    Straight [.channel,.pop] (converse c auth text timeout gap) := by
  unfold converse
  refine Straight.bind (Straight.perform rfl) fun ch => ?_
  refine Straight.bind (Straight.attempt (Within.perform rfl) (by decide)) fun r => ?_
  split
  · exact ⟨trivial,trivial⟩
  · refine Straight.bind (Straight.bind (Straight.perform rfl) fun _ => Straight.perform rfl) fun ch => ?_
    exact Straight.perform rfl
  · exact ⟨trivial,trivial⟩

theorem handle_calls (key : String) (remote : RemoteSpec) (user : UserContext)
    (session : Option AgentSessionView) (text : Json) :
    Straight [.read,.channel,.pop] (handle key remote user session text) := by
  unfold handle
  split
  · exact ⟨trivial,trivial⟩
  · refine Straight.bind ((remoteSession_calls ..).mono (by decide)) fun sess => ?_
    refine Straight.bind ((converse_calls ..).mono (by decide)) fun bot => ?_
    refine Straight.bind ?_ fun finished => ⟨trivial,trivial⟩
    split
    · exact Straight.perform rfl
    · exact ⟨trivial,trivial⟩

end RemoteFlowAgentHandler

theorem handle_calls (d : Deployment) (c : ConversationId) (agent : RegisteredAgent)
    (user : UserContext) (session : Option AgentSessionView) (text : Json) :
    Straight [.read,.channel,.pop] (handle d c agent user session text) := by
  unfold handle
  split
  · exact Straight.bind (Straight.perform rfl) fun _ => ⟨trivial,trivial⟩
  · split
    · exact RemoteFlowAgentHandler.handle_calls ..
    · exact ⟨trivial,trivial⟩

theorem marked_calls {α : Type} {rs : List Role} (c : ConversationId) (run : HandlerRun) {p : Proc α}
    (h : Within rs p) (hm : .mark ∈ rs) (hs : ∀ r ∈ rs, r.isDb = false) :
    Straight rs (marked c run p) := by
  have hmark : ∀ o : Op, o.role = .mark → Within rs (Prog.perform o : Proc o.Ans) := fun o ho =>
    (all_perform o).mpr (ho ▸ hm)
  refine Straight.of_within (Within.bind (hmark _ rfl) fun _ => ?_) hs
  exact All.ensuring h (Within.bind (hmark _ rfl) fun _ => trivial)

namespace OrchestrationService

variable (d : Deployment)

theorem conversationTitle_calls {rs : List Role} (j : Json) : Straight rs (conversationTitle j) := by
  unfold conversationTitle
  split
  · exact Straight.branch ⟨trivial,trivial⟩ ⟨trivial,trivial⟩
  · exact Straight.branch ⟨trivial,trivial⟩ ⟨trivial,trivial⟩
  · exact Straight.branch ⟨trivial,trivial⟩ ⟨trivial,trivial⟩
  · exact ⟨trivial,trivial⟩

theorem agentFallbackTitle_calls (agent : RegisteredAgent) :
    Straight [.read] (agentFallbackTitle agent) := by
  refine Straight.bind (Straight.perform rfl) fun today => ?_
  refine Straight.bind (conversationTitle_calls _) fun title => ?_
  split <;> exact ⟨trivial,trivial⟩

theorem checkMaxTurns_calls (c : ConversationId) (maxTurns : Option ℤ) :
    Straight [.query] (checkMaxTurns c maxTurns) := by
  unfold checkMaxTurns
  split
  · exact ⟨trivial,trivial⟩
  · refine Straight.branch ⟨trivial,trivial⟩ (Straight.bind (Straight.one rfl) ?_)
    rintro (_ | session)
    · exact ⟨trivial,trivial⟩
    · exact Straight.branch ⟨trivial,trivial⟩ ⟨trivial,trivial⟩

theorem checkRate_calls (c : ConversationId) (perMinute : ℕ) : Straight [.count] (checkRate c perMinute) := by
  refine Straight.branch ⟨trivial,trivial⟩ (Straight.bind (Straight.stmt rfl) fun _ => ?_)
  exact Straight.branch ⟨trivial,trivial⟩ ⟨trivial,trivial⟩

theorem checkRateLimits_calls (c : ConversationId) (limits : LimitsSpec) :
    Straight [.query,.count] (checkRateLimits c limits) :=
  Straight.bind ((checkMaxTurns_calls ..).mono (by decide)) fun _ => (checkRate_calls ..).mono (by decide)

theorem closeRemoteChannel_calls (c : ConversationId) : Straight [.pop] (closeRemoteChannel d c) :=
  Straight.branch (Straight.bind (Straight.perform rfl) fun _ => ⟨trivial,trivial⟩) ⟨trivial,trivial⟩

theorem reconcileTurn_calls (agent : RegisteredAgent) (session : Option AgentSession) (text : Json) :
    Straight [.read] (reconcileTurn d agent session text) := by
  unfold reconcileTurn
  split
  · split
    · refine Straight.branch ⟨trivial,trivial⟩ (Straight.bind (Straight.perform rfl) fun rows => ?_)
      exact Straight.bind (RouterService.textOr_calls _) fun _ => ⟨trivial,trivial⟩
    · exact ⟨trivial,trivial⟩
  · exact ⟨trivial,trivial⟩

theorem recoverTimedOutTurn_calls (agent : RegisteredAgent) (session : Option AgentSession)
    (text : Json) : Straight [.read] (recoverTimedOutTurn d agent session text) := by
  unfold recoverTimedOutTurn
  refine Straight.bind (Straight.attempt (reconcileTurn_calls ..).within (by decide)) ?_
  rintro (_ | _ | result)
  · exact ⟨trivial,trivial⟩
  · exact ⟨trivial,trivial⟩
  · simp only
    split
    · refine Straight.bind (Straight.branch ?_ ⟨trivial,trivial⟩) fun finished => ⟨trivial,trivial⟩
      refine Straight.bind (Straight.attempt (Within.perform rfl) (by decide)) ?_
      rintro (_ | finished) <;> exact ⟨trivial,trivial⟩
    · exact ⟨trivial,trivial⟩

theorem endStory_calls (claimed : AgentSession) (agent : Option RegisteredAgent)
    (user : UserContext) : Straight [.story] (endStory d claimed agent user) := by
  unfold endStory
  split
  · exact Straight.bind (Straight.perform rfl) fun _ => ⟨trivial,trivial⟩
  · exact ⟨trivial,trivial⟩

theorem fetchReport_calls (claimed : AgentSession) (remote : RemoteSpec) :
    Straight [.report] (fetchReport claimed remote) := by
  refine Straight.bind (Straight.attempt (Within.perform rfl) (by decide)) ?_
  rintro (e | url)
  · exact Straight.branch ⟨trivial,trivial⟩ ⟨trivial,trivial⟩
  · exact ⟨trivial,trivial⟩

theorem finalizeClaimed_calls (claimed : AgentSession) (agent : Option RegisteredAgent)
    (user : UserContext) :
    Straight [.pop,.story,.report,.apply,.unpin] (finalizeClaimed d claimed agent user) := by
  refine Straight.bind ((closeRemoteChannel_calls ..).mono (by decide)) fun _ => ?_
  refine Straight.bind ((Straight.attempt (endStory_calls ..).within (by decide)).mono (by decide)) ?_
  rintro (e | ⟨remote,storyId,content⟩)
  · exact Straight.bind ((SessionService.apply_calls ..).mono (by decide)) fun _ => ⟨trivial,trivial⟩
  · refine Straight.bind ((fetchReport_calls ..).mono (by decide)) fun reportUrl => ?_
    refine Straight.bind ((SessionService.apply_calls ..).mono (by decide)) fun completed => ?_
    exact Straight.bind (Straight.stmt rfl) fun _ => ⟨trivial,trivial⟩

theorem finalize_calls (session : AgentSession) (agent : Option RegisteredAgent)
    (user : UserContext) :
    Straight [.claim,.query,.record,.pop,.story,.report,.apply,.unpin]
      (finalize d session agent user) := by
  refine Straight.bind ((SessionService.claimFinalizing_calls _).mono (by decide)) ?_
  rintro (_ | claimed)
  · exact Straight.bind ((SessionService.get_calls _).mono (by decide)) fun _ => ⟨trivial,trivial⟩
  · refine Straight.bind (Straight.stmt rfl) fun _ => ?_
    exact (finalizeClaimed_calls ..).mono (by decide)

theorem finalizeNow_calls (id : SessionId) (user : UserContext) :
    Straight [.claim,.read,.query,.record,.pop,.story,.report,.apply,.unpin] (finalizeNow d id user) := by
  refine Straight.bind ((SessionService.get_calls _).mono (by decide)) ?_
  rintro (_ | session)
  · exact ⟨trivial,trivial⟩
  · refine Straight.bind (Straight.perform rfl) fun r => ?_
    exact Straight.bind ((finalize_calls ..).mono (by decide)) fun _ => ⟨trivial,trivial⟩

theorem recordUserMessage_calls (inp : TurnInput) (conv : Conversation) :
    Straight [.record] (recordUserMessage inp conv) := by
  refine Straight.bind (ConversationRepository.nextSeqForUpdate_calls _) fun seq => ?_
  refine Straight.bind (Straight.stmt rfl) fun _ => ?_
  refine Straight.branch (Straight.stmt rfl) ?_
  refine Straight.bind (conversationTitle_calls _) fun title => ?_
  refine Straight.bind (Straight.stmt rfl) fun _ => ?_
  exact Straight.bind (conversationTitle_calls _) fun _ => Straight.stmt rfl

theorem routerHistory_calls (conv : Conversation) : Straight [.read,.query] (routerHistory conv) := by
  refine Straight.bind (Straight.perform rfl) fun r => ?_
  split
  · exact (MessageRepository.recent_calls ..).mono (by decide)
  · exact ⟨trivial,trivial⟩

theorem routeTurn_within (inp : TurnInput) (conv : Conversation) :
    Within [.read,.query,.abandon,.unpin,.record] (routeTurn d inp conv) := by
  refine Within.bind ((routerHistory_calls _).within.mono (by decide)) fun _ => ?_
  refine Within.bind (RouterService.select_calls ..).within fun decision => ?_
  split
  · trivial
  · exact Within.bind ((AgentRegistry.resolveForScope_within ..).mono (by decide)) fun _ => trivial

theorem admitTurn_calls (conv : Conversation) (agent : RegisteredAgent) :
    Straight [.query,.count,.abandon,.unpin,.record,.pop,.create,.pin] (admitTurn d conv agent) := by
  refine Straight.bind ((checkRateLimits_calls ..).mono (by decide)) fun _ => ?_
  refine Straight.bind ((SessionService.openFor_calls (closeRemoteChannel_calls ..)).mono
    (by decide)) fun session => ?_
  refine Straight.bind (Straight.branch (Straight.stmt rfl) ⟨trivial,trivial⟩) fun _ => ?_
  exact Straight.bind ((MessageRepository.recent_calls ..).mono (by decide)) fun _ => ⟨trivial,trivial⟩

theorem runHandler_calls (inp : TurnInput) (conv : Conversation) (agent : RegisteredAgent)
    (session : Option AgentSession) (history : List Message) :
    Straight [.read,.channel,.pop,.mark] (runHandler d inp conv agent session history) := by
  refine Straight.bind (Straight.attempt (marked_calls _ _ ((handle_calls ..).within.mono (by decide))
    (by decide) (by decide)).within (by decide)) fun r => ?_
  split
  · exact ⟨trivial,trivial⟩
  · refine Straight.bind ((recoverTimedOutTurn_calls ..).mono (by decide)) ?_
    rintro (_ | turn) <;> exact ⟨trivial,trivial⟩
  · exact ⟨trivial,trivial⟩

theorem settleTurn_calls (inp : TurnInput) (agent : RegisteredAgent) (turn : AgentTurn)
    (session : Option AgentSession) :
    Straight [.claim,.query,.record,.pop,.story,.report,.apply,.unpin]
      (settleTurn d inp agent turn session) := by
  unfold settleTurn
  split
  · exact ⟨trivial,trivial⟩
  · refine Straight.bind ?_ fun session => ?_
    · split
      · exact (SessionService.apply_calls ..).mono (by decide)
      · exact ⟨trivial,trivial⟩
    · exact Straight.branch (Straight.bind (finalize_calls ..) fun _ => ⟨trivial,trivial⟩) ⟨trivial,trivial⟩

theorem storeReply_calls (inp : TurnInput) (conv : Conversation) (decision : RouteDecision)
    (agent : RegisteredAgent) (turn : AgentTurn) (session : Option AgentSession) :
    Straight [.record,.read] (storeReply inp conv decision agent turn session) := by
  refine Straight.bind ((ConversationRepository.nextSeqForUpdate_calls _).mono (by decide))
    fun seq => ?_
  refine Straight.bind (Straight.stmt rfl) fun id => ?_
  refine Straight.bind (Straight.branch
    ((ToolExecutionRepository.bulkInsert_calls ..).mono (by decide)) ⟨trivial,trivial⟩) fun _ => ?_
  refine Straight.branch ?_ ?_
  · refine Straight.bind (Straight.stmt rfl) fun _ => ?_
    refine Straight.bind ((agentFallbackTitle_calls _).mono (by decide)) fun title => ?_
    exact Straight.stmt rfl
  · refine Straight.bind (conversationTitle_calls _) fun title => ?_
    exact Straight.stmt rfl

/-- The roles of the calls of a turn that holds the lock. -/
def turnRoles : List Role :=
  [.read,.query,.count,.record,.create,.apply,.claim,.abandon,.pin,.unpin,.commit,.pop,.channel,.story,
    .report,.mark]

theorem handleTurnLocked_within (inp : TurnInput) (conv : Conversation) :
    Within turnRoles (handleTurnLocked d inp conv) := by
  refine Within.bind ((recordUserMessage_calls ..).within.mono (by decide)) fun _ => ?_
  refine Within.bind ((routeTurn_within ..).mono (by decide)) ?_
  rintro ⟨decision,agent⟩
  refine Within.bind ((admitTurn_calls ..).within.mono (by decide)) ?_
  rintro ⟨session,history⟩
  refine Within.bind (Within.perform rfl) fun _ => ?_
  refine Within.bind ((runHandler_calls ..).within.mono (by decide)) fun turn => ?_
  refine Within.bind ((settleTurn_calls ..).within.mono (by decide)) fun session => ?_
  refine Within.bind ((storeReply_calls ..).within.mono (by decide)) fun _ => ?_
  exact Within.bind (Within.perform rfl) fun _ => trivial

/-- The roles of the calls of the services: no update is forced. -/
def serviceRoles : List Role :=
  [.read,.query,.count,.record,.newConversation,.create,.apply,.claim,.abandon,.pin,.unpin,.lock,.unlock,
    .commit,.rollback,.pop,.channel,.story,.report,.mark]

theorem unlockConversation_within (c : ConversationId) :
    Within [.unlock] (unlockConversation d c) :=
  Within.bind (Within.stmt rfl).attempt fun _ => trivial

theorem handleTurn_within (inp : TurnInput) : Within serviceRoles (handleTurn d inp) := by
  refine Within.bind ((ConversationRepository.getOrCreate_calls ..).within.mono (by decide))
    fun conv => ?_
  refine Within.bind (Within.stmt rfl) fun locked => ?_
  refine Within.branch ?_ trivial
  exact All.ensuring ((handleTurnLocked_within ..).mono (by decide))
    ((unlockConversation_within ..).mono (by decide))

theorem storeRecovered_calls (session : AgentSession) (agent : RegisteredAgent)
    (result : Reconciliation) :
    Straight [.record,.apply,.commit] (storeRecovered session agent result) := by
  refine Straight.bind ((ConversationRepository.nextSeqForUpdate_calls _).mono (by decide))
    fun seq => ?_
  refine Straight.bind (Straight.stmt rfl) fun id => ?_
  refine Straight.bind ((SessionService.apply_calls ..).mono (by decide)) fun updated => ?_
  refine Straight.bind (Straight.stmt rfl) fun _ => ?_
  exact Straight.bind (Straight.perform rfl) fun _ => ⟨trivial,trivial⟩

theorem resumeTurn_calls (id : SessionId) :
    Straight [.read,.query,.record,.apply,.commit] (resumeTurn d id) := by
  unfold resumeTurn
  refine Straight.bind ((SessionService.get_calls _).mono (by decide)) ?_
  rintro (_ | session)
  · exact ⟨trivial,trivial⟩
  refine Straight.bind (Straight.perform rfl) fun r => ?_
  refine Straight.bind (Straight.one rfl) fun lastUserText => ?_
  split
  · refine Straight.branch ⟨trivial,trivial⟩ ?_
    refine Straight.bind ((reconcileTurn_calls ..).mono (by decide)) ?_
    rintro (_ | result)
    · exact ⟨trivial,trivial⟩
    · exact Straight.branch (Straight.bind ((storeRecovered_calls ..).mono (by decide)) fun _ => ⟨trivial,trivial⟩)
        ⟨trivial,trivial⟩
  · exact ⟨trivial,trivial⟩

end OrchestrationService

namespace Routes

open OrchestrationService

variable (d : Deployment)

theorem chat_within (body : Option ChatBody) (user : UserContext) :
    Within serviceRoles (chat d body user) := by
  unfold chat
  split
  · trivial
  · split
    · trivial
    · trivial
    · refine All.catching ?_ fun e => trivial
      refine Within.bind (handleTurn_within ..) fun res => ?_
      exact Within.bind (Within.stmt rfl) fun _ => trivial

theorem resolve_calls (sid : UuidField) (user : UserContext) :
    Straight [.query] (resolve sid user) := by
  unfold resolve
  split
  · refine Straight.bind (SessionService.get_calls _) ?_
    rintro (_ | dto)
    · exact ⟨trivial,trivial⟩
    · refine Straight.bind (Straight.one rfl) ?_
      rintro (_ | c) <;> exact ⟨trivial,trivial⟩
  · exact ⟨trivial,trivial⟩

theorem returningMitraErrors_calls {rs : List Role} {p : Proc Response} (h : Straight rs p) :
    Straight rs (returningMitraErrors p) := by
  refine ⟨All.catching h.within fun e => ?_,h.propagates.catching (fun e => ?_) fun e he => ?_⟩
  · split <;> trivial
  · split <;> trivial
  · cases e with
    | mitra e => cases he
    | _ => rfl

theorem finalizeSession_calls (sid : UuidField) (user : UserContext) :
    Straight [.claim,.read,.query,.record,.pop,.story,.report,.apply,.unpin]
      (finalizeSession d sid user) := by
  refine Straight.bind ((resolve_calls ..).mono (by decide)) ?_
  rintro (_ | ⟨id,dto⟩)
  · exact ⟨trivial,trivial⟩
  · refine returningMitraErrors_calls (Straight.bind (finalizeNow_calls ..) ?_)
    rintro (_ | s) <;> exact ⟨trivial,trivial⟩

theorem resumeSession_calls (sid : UuidField) (user : UserContext) :
    Straight [.read,.query,.record,.apply,.commit] (resumeSession d sid user) := by
  refine Straight.bind ((resolve_calls ..).mono (by decide)) ?_
  rintro (_ | ⟨id,dto⟩)
  · exact ⟨trivial,trivial⟩
  · refine returningMitraErrors_calls (Straight.bind (resumeTurn_calls ..) ?_)
    rintro (_ | s) <;> exact ⟨trivial,trivial⟩

theorem abandonSession_calls (sid : UuidField) (user : UserContext) :
    Straight [.query,.abandon,.unpin,.record,.pop] (abandonSession d sid user) := by
  refine Straight.bind ((resolve_calls ..).mono (by decide)) ?_
  rintro (_ | ⟨id,dto⟩)
  · exact ⟨trivial,trivial⟩
  · refine Straight.bind ((SessionService.abandon_calls ..).mono (by decide)) fun updated => ?_
    exact Straight.bind (Straight.branch ((closeRemoteChannel_calls ..).mono (by decide)) ⟨trivial,trivial⟩)
      fun _ => ⟨trivial,trivial⟩

theorem startNew_calls (user : UserContext) : Straight [.query,.newConversation] (startNew user) := by
  refine Straight.bind (Straight.one rfl) ?_
  rintro (_ | existing)
  · exact Straight.stmt rfl
  · exact ⟨trivial,trivial⟩

theorem findCurrent_calls (c : UuidField) (user : UserContext) :
    Straight [.query] (findCurrent c user) := by
  unfold findCurrent
  split
  · exact Straight.one rfl
  · exact Straight.bind (Straight.stmt rfl) fun _ => ⟨trivial,trivial⟩

theorem sweep_calls (olderThan : ℕ) : Straight [.abandon,.unpin,.record] (sweep olderThan) :=
  Straight.bind (SessionService.sweepAbandoned_calls _) fun _ => ⟨trivial,trivial⟩

theorem leave_calls (c : UuidField) (user : UserContext) :
    Straight [.query,.abandon,.unpin,.record,.pop] (leave d c user) := by
  refine Straight.bind ((findCurrent_calls ..).mono (by decide)) ?_
  rintro (_ | conv)
  · exact ⟨trivial,trivial⟩
  · refine Straight.bind ((SessionService.abandon_calls ..).mono (by decide)) fun abandoned => ?_
    exact Straight.branch ((closeRemoteChannel_calls ..).mono (by decide)) ⟨trivial,trivial⟩

theorem reset_calls (c : UuidField) (user : UserContext) :
    Straight [.query,.newConversation,.abandon,.unpin,.record,.pop] (reset d c user) := by
  unfold reset
  split
  · exact ⟨trivial,trivial⟩
  · refine Straight.bind ((leave_calls ..).mono (by decide)) fun _ => ?_
    exact Straight.bind ((startNew_calls _).mono (by decide)) fun _ => ⟨trivial,trivial⟩

theorem maybeReload_within : Within [.read,.query] maybeReload := by
  refine Within.bind (Within.perform rfl) fun due => ?_
  exact Within.branch (Within.bind (Within.stmt rfl).attempt fun _ => trivial) trivial

theorem withDb_within {rs : List Role} {route : Proc Response} (h : Within rs route)
    (hs : [.read,.query,.commit,.rollback] ⊆ rs) : Within rs (withDb route) := by
  have hcommit : Within rs (Prog.perform Op.commit : Proc Unit) := (Within.perform rfl).mono hs
  have hrollback : Within rs (Prog.perform Op.rollback : Proc Unit) := (Within.perform rfl).mono hs
  refine Within.bind (maybeReload_within.mono (List.Subset.trans (by decide) hs)) fun _ => ?_
  refine All.ensuring ?_ (Within.bind hrollback fun _ => trivial)
  refine Within.bind h.attempt ?_
  rintro (e | r)
  · exact Within.bind hrollback fun _ => trivial
  · exact Within.bind hcommit fun _ => trivial

section Keeps

variable {d} {L : Type} {S : Spec Op Op.Ans Exn L} {A B D : L → Prop}

/-- The specification says that the calls which cannot raise do not. -/
def Sure (S : Spec Op Op.Ans Exn L) : Prop :=
  ∀ (o : Op) l r l', o.sure = true → S.post o l r l' → ∃ a, r = .ok a

/-- What the route returns is committed, what escapes is rolled back, and a rollback comes last. -/
theorem wp_session {C : Except Exn Response → L → Prop} {route : Proc Response}
    (hcommit : ∀ a l, C (.ok a) l → wp S (perform Op.commit : Proc Unit) (fun _ l' => B l') l)
    (hrollback : ∀ e l, C (.error e) l → wp S (perform Op.rollback : Proc Unit) (fun _ l' => B l') l)
    (hend : ∀ l, B l → wp S (perform Op.rollback : Proc Unit) (fun _ l' => D l') l)
    {l : L} (hroute : wp S route C l) : wp S (Prog.ensuring (do
      match ← route.attempt with
      | .ok r =>
        let _ ← perform Op.commit
        pure r
      | .error e =>
        let _ ← perform Op.rollback
        throw e : Proc Response) (do let _ ← (perform Op.rollback : Proc Unit); pure ()))
      (fun _ l' => D l') l := by
  have hfin : ∀ l, B l → wp S (do let _ ← (perform Op.rollback : Proc Unit); pure ())
      (fun _ l' => D l') l := by
    intro l hl
    apply wp_bind.mpr
    apply wp_mono (hend l hl)
    rintro (e | u) l' hl' <;> exact hl'
  refine wp_ensuring.mpr (wp_mono (Q := fun _ l' => B l') ?_ fun r l' hl' => wp_mono (hfin l' hl') ?_)
  rotate_left
  · rintro (e | u) l'' hl'' <;> exact hl''
  refine wp_bind.mpr (wp_attempt.mpr (wp_mono hroute ?_))
  rintro (e | a) l' hl'
  · refine wp_bind.mpr (wp_mono (hrollback e l' hl') ?_)
    rintro (e | u) l'' hl'' <;> exact hl''
  · refine wp_bind.mpr (wp_mono (hcommit a l' hl') ?_)
    rintro (e | u) l'' hl'' <;> exact hl''

/-- The database session around a route. -/
theorem wp_withDb_of {C : Except Exn Response → L → Prop} {route : Proc Response} (hS : Sure S)
    (hroute : ∀ l, A l → wp S route C l)
    (hA : ∀ o : Op, o = .reloadDue ∨ o = .stmt .registryQuery → Keeps.Call S A o)
    (hcommit : ∀ a l, C (.ok a) l → wp S (perform Op.commit : Proc Unit) (fun _ l' => B l') l)
    (hrollback : ∀ e l, C (.error e) l → wp S (perform Op.rollback : Proc Unit) (fun _ l' => B l') l)
    (hend : ∀ l, B l → wp S (perform Op.rollback : Proc Unit) (fun _ l' => D l') l) {l : L} (hl : A l) :
    wp S (withDb route) (fun _ l' => D l') l := by
  refine wp_bind.mpr (wp_bind.mpr (wp_perform.mpr fun l₁ h₁ => ?_))
  obtain ⟨hpre,hpost⟩ := hA .reloadDue (.inl rfl) l hl l₁ h₁
  refine ⟨hpre,fun r l₂ h₂ => ?_⟩
  obtain ⟨due,rfl⟩ := hS _ _ _ _ rfl h₂
  have hl₂ := hpost _ _ h₂
  by_cases hdue : (due : Bool) = true
  · simp only [hdue,if_true]
    refine wp_bind.mpr (wp_attempt.mpr (wp_mono (Keeps.perform (hA _ (.inr rfl)) l₂ hl₂) ?_))
    exact fun r l₃ hl₃ => wp_session hcommit hrollback hend (hroute l₃ hl₃)
  · simp only [hdue]
    exact wp_session hcommit hrollback hend (hroute l₂ hl₂)

/-- A route that leaves the same behind whether it returns or raises. -/
theorem wp_withDb {route : Proc Response} (hS : Sure S)
    (hroute : ∀ l, A l → wp S route (fun _ l' => B l') l)
    (hA : ∀ o : Op, o = .reloadDue ∨ o = .stmt .registryQuery → Keeps.Call S A o)
    (hcommit : Keeps.Call S B .commit)
    (hrollback : Keeps.Call S B .rollback)
    (hend : ∀ l, B l → wp S (perform Op.rollback : Proc Unit) (fun _ l' => D l') l) {l : L} (hl : A l) :
    wp S (withDb route) (fun _ l' => D l') l :=
  wp_withDb_of hS hroute hA (fun _ => Keeps.perform hcommit) (fun _ => Keeps.perform hrollback) hend hl

/-- The request's database session keeps what the route keeps. -/
theorem keeps_withDb {route : Proc Response} (hS : Sure S) (h : Keeps S A route)
    (hK : ∀ o : Op, o.role ∈ [Role.read,.query,.commit,.rollback] → Keeps.Call S A o) :
    Keeps S A (withDb route) := fun _ hl =>
  wp_withDb hS h (fun o ho => hK o (by rcases ho with rfl | rfl <;> decide)) (hK _ (by decide)) (hK _ (by decide))
    (Keeps.perform (hK _ (by decide))) hl

/-- Every outcome of a turn becomes a response. -/
theorem wp_chat {body : Option ChatBody} {user : UserContext}
    (h : ∀ inp l, A l → wp S (handleTurn d inp) (fun _ l' => B l') l) (hAB : ∀ l, A l → B l)
    (hB : ∀ o : Op, o.role = .query → Keeps.Call S B o) {l : L} (hl : A l) :
    wp S (chat d body user) (fun _ l' => B l') l := by
  unfold chat
  split
  · exact hAB l hl
  · split
    · exact hAB l hl
    · exact hAB l hl
    · refine wp_catching.mpr (wp_bind.mpr (wp_mono (h _ l hl) ?_))
      rintro (e | res) l₁ hl₁
      · exact hl₁
      · refine wp_bind.mpr (wp_mono (Keeps.perform (hB _ rfl) l₁ hl₁) ?_)
        rintro (e | u) l₂ hl₂
        · exact hl₂
        · exact hl₂

theorem keeps_chat {body : Option ChatBody} {user : UserContext}
    (h : ∀ inp, Keeps S A (handleTurn d inp))
    (hK : ∀ o : Op, o.role = .query → Keeps.Call S A o) : Keeps S A (chat d body user) :=
  fun _ hl => wp_chat h (fun _ hl => hl) hK hl

/-- A recovery keeps what its update and its plain calls keep. -/
theorem keeps_storeRecovered {session : AgentSession} {agent : RegisteredAgent} {result : Reconciliation}
    (hK : ∀ o : Op, o.role ∈ [Role.record,.commit] → Keeps.Call S A o)
    (happly : Keeps S A (SessionService.apply session { state := .awaitingUser })) :
    Keeps S A (storeRecovered session agent result) := by
  have hplain : ∀ {α : Type} {p : Proc α}, Within [.record,.commit] p → Keeps S A p :=
    fun h => Keeps.of_all h hK
  have hseq := (ConversationRepository.nextSeqForUpdate_calls session.conversationId).within
  refine Keeps.bind (hplain (hseq.mono (by decide))) fun seq => ?_
  refine Keeps.bind (hplain (Within.stmt rfl)) fun id => ?_
  refine Keeps.bind happly fun updated => ?_
  refine Keeps.bind (hplain (Within.stmt rfl)) fun _ => ?_
  exact Keeps.bind (hplain (Within.perform rfl)) fun _ => Keeps.pure _

theorem keeps_resumeSession {sid : UuidField} {user : UserContext}
    (hK : ∀ o : Op, o.role ∈ [Role.read,.query,.record,.commit] → Keeps.Call S A o)
    (happly : ∀ session, Keeps S A (SessionService.apply session { state := .awaitingUser })) :
    Keeps S A (resumeSession d sid user) := by
  have hplain : ∀ {α : Type} {p : Proc α}, Within [.read,.query] p → Keeps S A p := fun h =>
    Keeps.of_all h fun o ho => hK o ((by decide : [Role.read,.query] ⊆ [.read,.query,.record,.commit]) ho)
  have hresume : ∀ id, Keeps S A (resumeTurn d id) := by
    intro id
    unfold resumeTurn
    refine Keeps.bind (hplain ((SessionService.get_calls id).within.mono (by decide))) ?_
    rintro (_ | session)
    · exact Keeps.pure _
    refine Keeps.bind (hplain (Within.perform rfl)) fun registry => ?_
    refine Keeps.bind (hplain (Within.one rfl)) fun lastUserText => ?_
    split
    · rename_i agent text _
      split
      · exact Keeps.pure _
      · have hreconcile := (reconcileTurn_calls d agent (some session) (.str text)).within
        refine Keeps.bind (hplain (hreconcile.mono (by decide))) ?_
        rintro (_ | result)
        · exact Keeps.pure _
        · simp only
          split
          · have hstore : Keeps S A (storeRecovered session agent result) := keeps_storeRecovered
              (fun o ho => hK o ((by decide : [Role.record,.commit] ⊆ [.read,.query,.record,.commit]) ho))
              (happly session)
            exact Keeps.bind hstore fun _ => Keeps.pure _
          · exact Keeps.pure _
    · exact Keeps.pure _
  refine Keeps.bind (hplain ((resolve_calls sid user).within.mono (by decide))) ?_
  rintro (_ | ⟨id,dto⟩)
  · exact Keeps.pure _
  · refine Keeps.catching (Keeps.bind (hresume id) ?_) fun e => ?_
    · rintro (_ | result) <;> exact Keeps.pure _
    · cases e with
      | mitra e => exact Keeps.pure _
      | _ => exact Keeps.throw _

end Keeps

end Routes

/-- No request forces a session update. -/
theorem Req.prog_within (d : Deployment) (req : Req) :
    Within OrchestrationService.serviceRoles (req.prog d) := by
  cases req with
  | chat body user => exact Routes.withDb_within (Routes.chat_within ..) (by decide)
  | finalize sid user =>
    exact Routes.withDb_within ((Routes.finalizeSession_calls ..).within.mono (by decide)) (by decide)
  | resume sid user =>
    exact Routes.withDb_within ((Routes.resumeSession_calls ..).within.mono (by decide)) (by decide)
  | abandon sid user =>
    exact Routes.withDb_within ((Routes.abandonSession_calls ..).within.mono (by decide)) (by decide)
  | reset c user =>
    exact Routes.withDb_within ((Routes.reset_calls ..).within.mono (by decide)) (by decide)
  | sweep olderThan =>
    exact Routes.withDb_within ((Routes.sweep_calls _).within.mono (by decide)) (by decide)

end Saarathi
