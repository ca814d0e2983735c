import Saarathi.World

/-!
# Repositories and the session service

The repositories issue one statement each; `SessionService` keeps the lifecycle
of a session.
-/

namespace Saarathi

open Program Program.Prog

def stmt (s : Stmt) : Proc s.Ans := perform (Op.stmt s)

/-- `scalar_one_or_none()`. -/
def scalarOneOrNone {A : Type} : List A → Proc (Option A)
  | [] => pure none
  | [a] => pure (some a)
  | _ => throw .multipleResultsFound

/-- `scalar_one()`. -/
def scalarOne {A : Type} : List A → Proc A
  | [] => throw .noResultFound
  | [a] => pure a
  | _ => throw .multipleResultsFound

namespace AgentSessionRepository

def get (id : SessionId) : Proc (Option AgentSession) := do
  scalarOneOrNone (← stmt (.getSession id))

def getOpenForConversation (c : ConversationId) : Proc (Option AgentSession) := do
  scalarOneOrNone (← stmt (.getOpenForConversation c))

def createPending (c : ConversationId) (agent : AgentId) (language : String) : Proc AgentSession :=
  stmt (.createPending c agent language)

def updateStateAndFields (id : SessionId) (expected : List SessionState) (new : SessionState)
    (fields : FieldUpdates) : Proc (Option AgentSession) := do
  scalarOneOrNone (← stmt (.updateStateAndFields id expected new fields))

def claimFinalizing (id : SessionId) : Proc (Option AgentSession) := do
  scalarOneOrNone (← stmt (.claimFinalizing id))

def abandonOpenSession (c : ConversationId) (reason : String) : Proc (Option AgentSession) := do
  scalarOneOrNone (← stmt (.abandonOpenSession c reason))

def sweepAbandonedOlderThan (cutoff : ℕ) (reason : String) : Proc (List AgentSession) :=
  stmt (.sweepAbandonedOlderThan cutoff reason)

end AgentSessionRepository

namespace ConversationRepository

def createNew (user : UserContext) : Proc Conversation := stmt (.createConversation user)

/-- The named conversation of this user, or else their most recent active one; a new one where
there is none. -/
def getOrCreate (id : Option ConversationId) (user : UserContext) : Proc Conversation := do
  let rows ← (match id with
    | some id => stmt (.getScoped id user)
    | none => stmt (.latestActive user))
  match ← scalarOneOrNone rows with
  | some c => pure c
  | none => createNew user

def getScoped (id : ConversationId) (user : UserContext) : Proc (Option Conversation) := do
  scalarOneOrNone (← stmt (.getScoped id user))

def findEmptyForUser (user : UserContext) : Proc (Option Conversation) := do
  scalarOneOrNone (← stmt (.findEmptyForUser user))

/-- The first row of `list_for_user(limit=1)`. -/
def newestListed (user : UserContext) : Proc (Option Conversation) := do
  pure (← stmt (.newestListed user)).head?

def nextSeqForUpdate (c : ConversationId) : Proc ℕ := do
  scalarOne (← stmt (.nextSeqForUpdate c))

def touch (c : ConversationId) (titleFrom : Option Json) : Proc Unit :=
  stmt (.touch c (titleFrom.filter (·.truthy)))

def setPlaceholderTitle (c : ConversationId) (title : String) : Proc Unit :=
  stmt (.setPlaceholderTitle c title)

def replacePlaceholderTitle (c : ConversationId) (title : Json) : Proc Unit :=
  stmt (.replacePlaceholderTitle c title)

def pin (c : ConversationId) (agent : AgentId) : Proc Unit := stmt (.pin c agent)

def unpin (c : ConversationId) : Proc Unit := stmt (.unpin c)

end ConversationRepository

namespace MessageRepository

def insert (m : NewMessage) : Proc ℕ := stmt (.insertMessage m)

def recent (c : ConversationId) (historyTurns : ℕ) : Proc (List Message) :=
  if historyTurns = 0 then pure [] else stmt (.recent c historyTurns)

def lastUserContent (c : ConversationId) : Proc (Option String) := do
  scalarOneOrNone (← stmt (.lastUserContent c))

end MessageRepository

namespace ToolExecutionRepository

/-- Every trace that is not a success must carry an error. -/
def checkTraces : List ToolTrace → Proc Unit
  | [] => pure ()
  | t :: ts =>
    if t.status ≠ .success ∧ t.error.getD "" = "" then throw (.python "ValueError" "ck_tool_error")
    else checkTraces ts

def bulkInsert (messageId : ℕ) (agent : AgentId) (traces : List ToolTrace) : Proc Unit := do
  if traces.isEmpty then pure ()
  else
    checkTraces traces
    stmt (.bulkInsert messageId agent traces)

end ToolExecutionRepository

namespace SessionService

/-- Abandon the conversation's open session, unpin and audit. -/
def abandon (c : ConversationId) (reason : String) (actor : String := "system") :
    Proc (Option AgentSession) := do
  match ← AgentSessionRepository.getOpenForConversation c with
  | none => pure none
  | some session =>
    match ← AgentSessionRepository.abandonOpenSession c reason with
    | none => throw (.concurrentModification session.id)
    | some updated =>
      ConversationRepository.unpin c
      stmt (.auditInsert "session_abandon" updated.id actor reason)
      pure (some updated)

/-- `getattr(remote, "default_language", "en")`. -/
def language (agent : RegisteredAgent) : String :=
  match agent.spec.remote with
  | some remote => remote.defaultLanguage
  | none => "en"

/-- The conversation's open session if it is the agent's own; another agent's is abandoned and
`onDisplace` runs. A new one is created only for an agent that pins. -/
def openFor (c : ConversationId) (agent : RegisteredAgent) (onDisplace : Proc Unit) :
    Proc (Option AgentSession) := do
  let create : Proc (Option AgentSession) :=
    if agent.spec.routing.pinSession then do
      pure (some (← AgentSessionRepository.createPending c agent.id (language agent)))
    else pure none
  match ← AgentSessionRepository.getOpenForConversation c with
  | none => create
  | some existing =>
    if existing.agentId = agent.id then pure (some existing)
    else
      let _ ← abandon c "agent_switch"
      onDisplace
      create

def checkTransition (current target : SessionState) (id : SessionId) : Proc Unit :=
  if target ∈ current.allowed then pure ()
  else throw (.invalidTransition id current.value target.value)

def apply (session : AgentSession) (delta : SessionDelta) : Proc AgentSession := do
  checkTransition session.state delta.state session.id
  match ← AgentSessionRepository.updateStateAndFields session.id [session.state] delta.state
      delta.fields with
  | none => throw (.concurrentModification session.id)
  | some updated => pure updated

def claimFinalizing (id : SessionId) : Proc (Option AgentSession) :=
  AgentSessionRepository.claimFinalizing id

def get (id : SessionId) : Proc (Option AgentSession) := AgentSessionRepository.get id

/-- Unpin and audit each session that a sweep has abandoned. -/
def sweepRows : List AgentSession → Proc Unit
  | [] => pure ()
  | s :: ss => do
    ConversationRepository.unpin s.conversationId
    stmt (.auditInsert "session_abandon" s.id "system" "idle sweep")
    sweepRows ss

def sweepAbandoned (olderThan : ℕ) : Proc (List AgentSession) := do
  let swept ← AgentSessionRepository.sweepAbandonedOlderThan olderThan
    s!"idle sweep: no activity before {olderThan}"
  sweepRows swept
  pure swept

end SessionService

end Saarathi
