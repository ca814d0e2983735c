import Saarathi.Services

/-!
# Routing a turn

The five gates of `RouterService.select` and the tenant-scoped resolution of the
agent that they choose.
-/

namespace Saarathi

open Program Program.Prog

inductive RouteReason where
  | explicit
  | pinned
  | keyword
  | llm
  | default
  | exitToDefault
  deriving DecidableEq, Repr

def RouteReason.value : RouteReason → String
  | explicit => "explicit"
  | pinned => "pinned"
  | keyword => "keyword"
  | llm => "llm"
  | default => "default"
  | exitToDefault => "exit_to_default"

/-- The default agent is missing where no enabled agent is the default. -/
structure RouteDecision where
  agent : Option RegisteredAgent
  reason : RouteReason
  confidence : PyFloat
  unpinned : Bool := false

/-- One turn as `POST /api/chat` hands it on. The text is any JSON value. -/
structure TurnInput where
  conversationId : Option ConversationId
  user : UserContext
  text : Json
  agentKey : Option Json := none
  autostart : Bool := false

def snapshot : Proc AgentRegistry := perform Op.snapshot

namespace RouterService

/-- `_COMMAND_PUNCTUATION`. -/
def commandPunctuation : String := " \t\r\n'\"`.,!?;:…-–—()[]{}"

/-- Lowercase, collapse whitespace, drop surrounding punctuation. -/
def normaliseCommand (lower : String → String) (text : String) : String :=
  Text.collapse (lower (Text.stripChars commandPunctuation (Text.strip text)))

/-- The message is one of the exit commands. -/
def isExit (lower : String → String) (text : String) (exitKeywords : List String) : Bool :=
  let normalised := normaliseCommand lower text
  if normalised = "" then false
  else exitKeywords.any fun kw => Text.strip kw != "" && normalised == normaliseCommand lower kw

def kwMatch (lower : String → String) (text : String) (keywords : List String) : Bool :=
  keywords.any fun kw => Text.contains (lower text) (lower kw)

/-- `text or ""`, on which a value that is neither falsy nor a string has no `strip`. -/
def textOr : Json → Proc String
  | .str s => pure s
  | j => if j.truthy then throw (.python "AttributeError" "no attribute 'strip'") else pure ""

/-- A text that must be a string. -/
def textOnly : Json → Proc String
  | .str s => pure s
  | _ => throw (.python "AttributeError" "no attribute 'lower'")

/-- A key that cannot be hashed is a `TypeError`; any other value that is not a string has no
entry. -/
def registryGet (r : AgentRegistry) : Json → Proc (Option RegisteredAgent)
  | .str key => pure (r.get key)
  | .arr _ => throw (.python "TypeError" "unhashable type: 'list'")
  | .obj _ => throw (.python "TypeError" "unhashable type: 'dict'")
  | _ => pure none

def keyText : Json → String
  | .str key => key
  | .num literal => literal
  | _ => ""

/-- Abandon the open session, unpin, and hand the turn to the default agent. -/
def exitToDefault (c : ConversationId) : Proc RouteDecision := do
  let _ ← SessionService.abandon c "user_exit"
  ConversationRepository.unpin c
  pure { agent := (← snapshot).default, reason := .exitToDefault, confidence := 1, unpinned := true }

/-- The agent of the pin that was read with the conversation, or else of its open session. -/
def pinFor (conv : Conversation) : Proc (Option RegisteredAgent) := do
  let pinned ← (match conv.pinnedAgentId with
    | some id => do pure ((← snapshot).getById id)
    | none => pure none)
  match pinned with
  | some agent => pure (some agent)
  | none =>
    match ← AgentSessionRepository.getOpenForConversation conv.id with
    | some session => do pure ((← snapshot).getById session.agentId)
    | none => pure none

/-- The first agent of the highest priority. -/
def maxPriority : List RegisteredAgent → Option RegisteredAgent
  | [] => none
  | a :: as => match maxPriority as with
    | some b => if b.spec.routing.priority > a.spec.routing.priority then some b else some a
    | none => some a

/-- Gate 4: the model's answer, where it names a selectable agent confidently enough; an
exception of the model is an answer that names none. -/
def modelRoute (d : Deployment) (c : ConversationId) : Proc (Option RouteDecision) := do
  match ← (perform (Op.routerModel c)).attempt with
  | .error _ => pure none
  | .ok none => pure none
  | .ok (some (key,confidence)) =>
    match (← snapshot).getByKeyExact d.lower key with
    | none => pure none
    | some a =>
      if a.spec.routing.routerSelectable && a.spec.routing.confidenceThreshold ≤ confidence then
        pure (some { agent := some a, reason := .llm, confidence := confidence })
      else pure none

/-- The snapshot is global; visibility is per caller. -/
def visible (r : AgentRegistry) (user : Option UserContext) : List RegisteredAgent :=
  r.routable.filter fun a => a.spec.access.matches user

/-- Gates 3 to 5. -/
def selectFree (d : Deployment) (conv : Conversation) (inp : TurnInput) : Proc RouteDecision := do
  let agents := visible (← snapshot) (some inp.user)
  let hits ← (if agents.isEmpty then pure [] else do
    let text ← textOnly inp.text
    pure (agents.filter fun a => kwMatch d.lower text a.spec.routing.keywords))
  match maxPriority hits with
  | some a => pure { agent := some a, reason := .keyword, confidence := 1 }
  | none =>
    match ← modelRoute d conv.id with
    | some decision => pure decision
    | none => do
      pure { agent := (← snapshot).default, reason := .default, confidence := 0 }

/-- Gate 1: an agent that the client names. -/
def selectExplicit (d : Deployment) (conv : Conversation) (inp : TurnInput) (key : Json) :
    Proc RouteDecision := do
  match ← registryGet (← snapshot) key with
  | none => throw (.agentNotFound (keyText key))
  | some a =>
    if !a.spec.routing.directSelectable then throw (.agentNotFound (keyText key))
    else if isExit d.lower (← textOr inp.text) a.spec.routing.exitKeywords then exitToDefault conv.id
    else pure { agent := some a, reason := .explicit, confidence := 1 }

/-- Gate 2, and the gates after it where the conversation is not pinned. -/
def selectPinned (d : Deployment) (conv : Conversation) (inp : TurnInput) : Proc RouteDecision := do
  match ← pinFor conv with
  | none => selectFree d conv inp
  | some a =>
    if isExit d.lower (← textOr inp.text) a.spec.routing.exitKeywords then exitToDefault conv.id
    else pure { agent := some a, reason := .pinned, confidence := 1 }

def select (d : Deployment) (conv : Conversation) (inp : TurnInput) : Proc RouteDecision :=
  match inp.agentKey with
  | some key => if key.truthy then selectExplicit d conv inp key else selectPinned d conv inp
  | none => selectPinned d conv inp

end RouterService

namespace AgentRegistry

/-- The configuration on record for the scope, if any, in place of the agent's own. -/
def scopedAgent (agent : RegisteredAgent) (tenant organization : String) : Proc RegisteredAgent := do
  match ← stmt (.scopedConfig agent.id tenant organization) with
  | none => pure agent
  | some (_,none) => throw (.python "ValidationError" "")
  | some (checksum,some spec) => pure { agent with checksum := checksum, spec := spec }

/-- `agent` as this tenant and organization should see it. A failure answers with the agent
unchanged and caches nothing. -/
def resolveForScope (agent : RegisteredAgent) (tenant organization : String) :
    Proc RegisteredAgent := do
  if tenant = "" ∨ tenant = "default" then pure agent
  else
    let (version,cached) ← perform (Op.scopeLookup tenant organization agent.key)
    match cached with
    | some resolved => pure resolved
    | none =>
      match ← (scopedAgent agent tenant organization).attempt with
      | .error _ => pure agent
      | .ok resolved => do
        let _ ← perform (Op.scopeStore version tenant organization resolved)
        pure resolved

end AgentRegistry

end Saarathi
