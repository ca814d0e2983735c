import Saarathi.Errors
import Saarathi.ReadCommitted
import Saarathi.Text

/-!
# Agent sessions

The `agent_sessions` row, the lifecycle table `ALLOWED` and the constraints of
`AgentSession.__table_args__` and of the column types.
-/

namespace Saarathi

/-- The value fits an `Integer` column, of four bytes. -/
def fitsInteger (n : ℤ) : Bool := decide (-2147483648 ≤ n) && decide (n ≤ 2147483647)

inductive SessionState where
  | pending
  | authenticating
  | inProgress
  | awaitingUser
  | finalizing
  | completed
  | failed
  | abandoned
  deriving DecidableEq, Repr, Inhabited

namespace SessionState

def value : SessionState → String
  | pending => "pending"
  | authenticating => "authenticating"
  | inProgress => "in_progress"
  | awaitingUser => "awaiting_user"
  | finalizing => "finalizing"
  | completed => "completed"
  | failed => "failed"
  | abandoned => "abandoned"

/-- `ALLOWED`: the targets that `apply` accepts from each state. -/
def allowed : SessionState → List SessionState
  | pending => [pending,authenticating,awaitingUser,finalizing,failed]
  | authenticating => [authenticating,inProgress,failed]
  | inProgress => [inProgress,awaitingUser,finalizing,failed]
  | awaitingUser => [awaitingUser,inProgress,finalizing,abandoned]
  | finalizing => [finalizing,completed,failed]
  | completed => []
  | failed => []
  | abandoned => []

/-- `TERMINAL`. -/
def terminal : SessionState → Bool
  | completed => true
  | failed => true
  | abandoned => true
  | _ => false

/-- `_CLAIMABLE`. -/
def claimable : SessionState → Bool
  | inProgress => true
  | awaitingUser => true
  | _ => false

/-- The state changes that some statement can make. -/
def Edge (a b : SessionState) : Prop :=
  b ∈ a.allowed ∨ (a.terminal = false ∧ b = abandoned) ∨ (a.claimable = true ∧ b = finalizing)

theorem not_terminal_of_allowed {a b : SessionState} (h : b ∈ a.allowed) : a.terminal = false := by
  cases a <;> simp_all [allowed,terminal]

theorem not_terminal_of_claimable {a : SessionState} (h : a.claimable = true) :
    a.terminal = false := by
  cases a <;> simp_all [claimable,terminal]

theorem Edge.not_terminal {a b : SessionState} (h : Edge a b) : a.terminal = false := by
  rcases h with h | ⟨h,-⟩ | ⟨h,-⟩
  · exact not_terminal_of_allowed h
  · exact h
  · exact not_terminal_of_claimable h

end SessionState

/-- One row of `agent_sessions`. -/
structure AgentSession where
  id : SessionId
  conversationId : ConversationId
  agentId : AgentId
  state : SessionState := .pending
  remoteProvider : Option String := none
  remoteSessionId : Option String := none
  remoteProfileId : Option String := none
  remoteFlow : Option String := none
  remoteBotRoute : Option String := none
  language : String := "en"
  step : ℤ := 0
  turnCount : ℕ := 0
  resultRef : Option String := none
  reportUrl : Option String := none
  error : Option String := none
  errorCode : Option String := none
  stateData : Json := .obj []
  startedAt : ℕ
  lastActivityAt : ℕ
  finalizedAt : Option ℕ := none
  endedAt : Option ℕ := none

namespace AgentSession

def isOpen (s : AgentSession) : Bool := !s.state.terminal

/-- The values fit their columns. -/
def storable (s : AgentSession) : Bool :=
  fitsInteger s.step && fitsInteger s.turnCount &&
    [s.remoteProvider,s.remoteSessionId,s.remoteProfileId,s.remoteFlow,s.remoteBotRoute,s.resultRef,
      s.reportUrl,s.error,s.errorCode].all fun text => !(text.any Text.hasNul)

/-- The check constraints `sess_lang`, `sess_step`, `sess_terminal`, `sess_active_has_remote`
and `sess_completed_has_result`, on values that fit their columns. -/
def check (s : AgentSession) : Bool :=
  decide (s.language ∈ ["en","hi","kn","te"]) && decide (0 ≤ s.step) &&
    (s.state.terminal == s.endedAt.isSome) &&
    (decide (s.state ∈ [.pending,.failed,.abandoned]) || s.remoteSessionId.isSome) &&
    (decide (s.state ≠ .completed) || s.resultRef.isSome) && s.storable

/-- Two rows that `uq_sess_remote` or `uq_sess_one_open_per_conv` keeps apart. -/
def conflict (s s' : AgentSession) : Bool :=
  (s.remoteSessionId.isSome && decide (s.remoteSessionId = s'.remoteSessionId)) ||
    (s.isOpen && s'.isOpen && decide (s.conversationId = s'.conversationId))

theorem conflict_comm (s s' : AgentSession) : s.conflict s' = s'.conflict s := by
  unfold conflict
  congr 1
  · by_cases h : s.remoteSessionId = s'.remoteSessionId
    · rw [h]
    · simp [h,Ne.symm h]
  · rw [Bool.and_comm s.isOpen]
    congr 1
    exact decide_eq_decide.mpr eq_comm

def constraints : ReadCommitted.Constraints AgentSession := ⟨check,conflict,conflict_comm⟩

theorem ended_iff_terminal {s : AgentSession} (h : s.check = true) :
    s.endedAt.isSome = s.state.terminal := by
  simp only [check,Bool.and_eq_true,beq_iff_eq] at h
  exact h.1.1.1.2.symm

theorem resultRef_of_completed {s : AgentSession} (h : s.check = true) (hs : s.state = .completed) :
    s.resultRef.isSome = true := by
  simp only [check,Bool.and_eq_true] at h
  simpa [hs] using h.1.2

/-- `sess_active_has_remote`. -/
theorem remote_of_claimable {s : AgentSession} (h : s.check = true) (hs : s.state.claimable = true) :
    s.remoteSessionId.isSome = true := by
  simp only [check,Bool.and_eq_true,Bool.or_eq_true,decide_eq_true_eq] at h
  rcases h.1.1.2 with hmem | hsome
  · revert hmem hs
    cases s.state <;> simp [SessionState.claimable]
  · exact hsome

end AgentSession

/-- The column values that one `update_state_and_fields` call sets besides the state. The
flags stand for `turn_count + 1` and `now()`. -/
structure FieldUpdates where
  remoteSessionId : Option String := none
  remoteProfileId : Option String := none
  remoteFlow : Option String := none
  remoteBotRoute : Option String := none
  step : Option ℤ := none
  resultRef : Option String := none
  reportUrl : Option String := none
  error : Option String := none
  stateData : Option Json := none
  turnCount : Bool := false
  lastActivityAt : Bool := false
  endedAt : Bool := false
  finalizedAt : Bool := false

namespace FieldUpdates

/-- The row after the update. -/
def assign (u : FieldUpdates) (newState : SessionState) (now : ℕ) (s : AgentSession) :
    AgentSession := { s with
  state := newState
  remoteSessionId := u.remoteSessionId <|> s.remoteSessionId
  remoteProfileId := u.remoteProfileId <|> s.remoteProfileId
  remoteFlow := u.remoteFlow <|> s.remoteFlow
  remoteBotRoute := u.remoteBotRoute <|> s.remoteBotRoute
  step := u.step.getD s.step
  resultRef := u.resultRef <|> s.resultRef
  reportUrl := u.reportUrl <|> s.reportUrl
  error := u.error <|> s.error
  stateData := u.stateData.getD s.stateData
  turnCount := if u.turnCount then s.turnCount + 1 else s.turnCount
  lastActivityAt := if u.lastActivityAt then now else s.lastActivityAt
  endedAt := if u.endedAt then some now else s.endedAt
  finalizedAt := if u.finalizedAt then some now else s.finalizedAt }

variable (u : FieldUpdates) (newState : SessionState) (now : ℕ) (s : AgentSession)

@[simp] theorem assign_state : (u.assign newState now s).state = newState := rfl
@[simp] theorem assign_id : (u.assign newState now s).id = s.id := rfl
@[simp] theorem assign_conversationId :
    (u.assign newState now s).conversationId = s.conversationId := rfl
@[simp] theorem assign_agentId : (u.assign newState now s).agentId = s.agentId := rfl

end FieldUpdates

/-- The change that a handler reports for its session. -/
structure SessionDelta where
  state : SessionState
  remoteSessionId : Option String := none
  remoteProfileId : Option String := none
  remoteFlow : Option String := none
  remoteBotRoute : Option String := none
  step : Option ℤ := none
  resultRef : Option String := none
  reportUrl : Option String := none
  error : Option String := none
  stateData : Option Json := none

/-- The columns that `apply` writes for a delta. -/
def SessionDelta.fields (d : SessionDelta) : FieldUpdates where
  remoteSessionId := d.remoteSessionId
  remoteProfileId := d.remoteProfileId
  remoteFlow := d.remoteFlow
  remoteBotRoute := d.remoteBotRoute
  step := d.step
  resultRef := d.resultRef
  reportUrl := d.reportUrl
  error := d.error
  stateData := d.stateData
  turnCount := true
  lastActivityAt := true
  endedAt := d.state.terminal
  finalizedAt := decide (d.state = .completed)

end Saarathi
