import Saarathi.Sessions
import Saarathi.Text
import Mathlib.Data.Rat.Init

/-!
# Callers, agents and turns

The caller's identity, the agent specifications with their access rule, the
registry snapshot and the data that a handler receives and returns.
-/

namespace Saarathi

structure OrgMembership where
  orgId : String
  orgCode : String
  roles : List String

structure UserContext where
  userId : String
  email : String := ""
  tenantCode : String
  orgs : List OrgMembership := []
  activeOrgId : Option String := none
  locale : String := "en"
  token : Option String := none

/-- Roles in the active organization only. -/
def UserContext.roles (u : UserContext) : List String :=
  match u.orgs.find? fun o => some o.orgId == u.activeOrgId with
  | some m => m.roles
  | none => []

structure RoutingSpec where
  keywords : List String := []
  priority : ℕ := 50
  pinSession : Bool := false
  exitKeywords : List String := ["/exit","cancel","stop"]
  confidenceThreshold : ℚ := 1/2
  routerSelectable : Bool := true
  directSelectable : Bool := true
  deriving DecidableEq

structure LimitsSpec where
  maxToolIterations : ℕ := 3
  maxTurns : Option ℤ := none
  rateLimitPerConversationPerMin : ℕ := 20
  deriving DecidableEq

structure AccessSpec where
  tenantCodes : List String := []
  organizationCodes : List String := []
  requiredRoles : List String := []
  allowAnonymous : Bool := true
  deriving DecidableEq

/-- An empty list restricts nothing; the three restrictions are conjoined. -/
def AccessSpec.matches (a : AccessSpec) : Option UserContext → Bool
  | none => a.allowAnonymous
  | some u =>
  if !a.tenantCodes.isEmpty && !a.tenantCodes.contains u.tenantCode then false
  else if !a.organizationCodes.isEmpty &&
      ((u.activeOrgId.getD "" == "") ||
        !(a.organizationCodes.map some).contains
          ((u.orgs.find? fun o => some o.orgId == u.activeOrgId).map (·.orgCode))) then false
  else if !a.requiredRoles.isEmpty && !a.requiredRoles.any (u.roles.contains ·) then false
  else true

structure MitraTurnSpec where
  firstTurnTimeoutMs : ℕ := 60000
  turnTimeoutMs : ℕ := 45000
  idleGapMs : ℕ := 8000
  deriving DecidableEq

structure RemoteSpec where
  flowName : String
  botRouteEnv : String
  companyEnv : String := "MITRA_COMPANY"
  defaultLanguage : String := "en"
  turn : MitraTurnSpec := {}
  completionPollEveryTurn : Bool := true
  finalizePath : String := "/api/end-story/v2/"
  finalizeAsGuest : Bool := false
  reportMediaType : String := "application/pdf"
  deriving DecidableEq

inductive AgentStatus where
  | enabled
  | disabled
  deriving DecidableEq

inductive AgentType where
  | llm
  | remoteFlow
  deriving DecidableEq

/-- The discriminated part of an agent specification. -/
inductive AgentKind where
  | llm (modelName : String)
  | remoteFlow (remote : RemoteSpec)
  deriving DecidableEq

structure AgentSpec where
  key : String
  status : AgentStatus := .enabled
  sortOrder : ℤ := 100
  capabilities : List String := []
  routing : RoutingSpec := {}
  historyTurns : ℕ := 10
  limits : LimitsSpec := {}
  access : AccessSpec := {}
  emitOptions : Bool := false
  recordToolExecutions : Bool := true
  kind : AgentKind
  deriving DecidableEq

/-- `spec.remote`, which only a remote flow has. -/
def AgentSpec.remote (s : AgentSpec) : Option RemoteSpec :=
  match s.kind with
  | .llm _ => none
  | .remoteFlow r => some r

structure RegisteredAgent where
  id : AgentId
  key : String
  name : String
  description : String := ""
  agentType : AgentType := .llm
  isDefault : Bool := false
  checksum : String := ""
  spec : AgentSpec
  deriving DecidableEq

/-- The registry's snapshot: one agent for each key, in load order. -/
structure AgentRegistry where
  snapshot : List RegisteredAgent
  deriving DecidableEq

namespace AgentRegistry

variable (r : AgentRegistry)

def lookup (key : String) : Option RegisteredAgent := r.snapshot.find? (·.key = key)

/-- `_legacy_names`: the last loaded agent of a name wins. -/
def legacyKey (name : String) : Option String :=
  (r.snapshot.reverse.find? (·.name = name)).map (·.key)

/-- A key, or else a legacy display name. -/
def get (keyOrLegacyName : String) : Option RegisteredAgent :=
  match r.lookup keyOrLegacyName with
  | some a => some a
  | none => match r.legacyKey keyOrLegacyName with
    | some key => if key = "" then none else r.lookup key
    | none => none

def getById (id : AgentId) : Option RegisteredAgent := r.snapshot.find? (·.id = id)

def default : Option RegisteredAgent := r.snapshot.find? (·.isDefault)

def routable : List RegisteredAgent := r.snapshot.filter (·.spec.routing.routerSelectable)

/-- `_KEY_STRIP_CHARS`. -/
def keyStripChars : String := "'\" .,!?;:"

/-- Exact lookup of a key that a model returned, after normalisation. -/
def getByKeyExact (lower : String → String) : Option String → Option RegisteredAgent
  | none => none
  | some key =>
    if key = "" then none else r.lookup (Text.stripChars keyStripChars (lower (Text.strip key)))

theorem getById_id {r : AgentRegistry} {id : AgentId} {a : RegisteredAgent}
    (h : r.getById id = some a) : a.id = id := by
  simpa using List.find?_some h

end AgentRegistry

/-- `AgentSessionView`: what a handler sees of its session row. -/
structure AgentSessionView where
  id : SessionId
  conversationId : ConversationId
  agentId : AgentId
  remoteSessionId : Option String
  remoteProfileId : Option String
  remoteFlow : Option String
  remoteBotRoute : Option String
  language : String
  deriving DecidableEq

/-- `_to_session_view`. -/
def AgentSession.toSessionView (s : AgentSession) : AgentSessionView where
  id := s.id
  conversationId := s.conversationId
  agentId := s.agentId
  remoteSessionId := s.remoteSessionId
  remoteProfileId := s.remoteProfileId
  remoteFlow := s.remoteFlow
  remoteBotRoute := s.remoteBotRoute
  language := s.language

structure TurnOption where
  id : String
  label : String
  value : String
  deriving DecidableEq

inductive ToolStatus where
  | success
  | error
  | timeout
  deriving DecidableEq

structure ToolTrace where
  toolName : String
  iteration : ℕ
  arguments : Json
  resultExcerpt : String
  status : ToolStatus
  error : Option String
  durationMs : ℤ

/-- What a handler returns for one turn. -/
structure AgentTurn where
  text : String
  options : List TurnOption := []
  sessionDelta : Option SessionDelta := none
  toolTraces : List ToolTrace := []
  model : Option String := none
  promptTokens : Option ℤ := none
  completionTokens : Option ℤ := none
  latencyMs : ℤ := 0
  error : Option String := none
  terminal : Bool := false

end Saarathi
