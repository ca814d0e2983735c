import Saarathi.Agents
import Saarathi.ScopedSelection
import Mathlib.Data.List.Sort

/-!
# The agent catalogue

The tables of agents, their scoped configurations, the capabilities and their
members, and the queries that the registry and the capability document make.
-/

namespace Saarathi

open ScopedSelection

/-- The columns `tenant_id` and `organization_id`. -/
abbrev Scope := String × String

/-- `DEFAULT_SCOPE`, in both columns. -/
def defaultScope : Scope := ("default","default")

/-- `value or DEFAULT_SCOPE`. -/
def orDefault (s : String) : String := if s = "" then "default" else s

structure Agent where
  id : AgentId
  key : String
  name : String
  description : String := ""
  agentType : AgentType := .llm
  status : AgentStatus := .enabled
  isDefault : Bool := false
  sortOrder : ℤ := 100
  updatedAt : ℕ := 0

/-- `uq_agents_single_default`. -/
def Agent.SingleDefault (as : List Agent) : Prop := (as.filter (·.isDefault)).length ≤ 1

instance (as : List Agent) : Decidable (Agent.SingleDefault as) := inferInstanceAs (Decidable (_ ≤ 1))

inductive ConfigSource where
  | yaml
  | db
  deriving DecidableEq

/-- One row of `agent_configs`. -/
structure AgentConfig where
  agentId : AgentId
  scope : Scope := defaultScope
  version : ℤ
  source : ConfigSource
  checksum : String
  config : Json
  isActive : Bool := false
  activatedAt : Option ℕ := none

namespace AgentConfig

/-- `uq_agent_cfg_one_active`. -/
def OneActive (cs : List AgentConfig) : Prop :=
  ((cs.filter (·.isActive)).map fun c => (c.agentId,c.scope)).Nodup

/-- `uq_agent_cfg_scope_version`. -/
def ScopeVersion (cs : List AgentConfig) : Prop :=
  (cs.map fun c => (c.agentId,c.scope,c.version)).Nodup

instance (cs : List AgentConfig) : Decidable (OneActive cs) := inferInstanceAs (Decidable (List.Nodup _))

instance (cs : List AgentConfig) : Decidable (ScopeVersion cs) :=
  inferInstanceAs (Decidable (List.Nodup _))

end AgentConfig

inductive CapabilityStatus where
  | active
  | disabled
  | comingSoon
  deriving DecidableEq

structure Capability where
  id : ℕ
  key : String
  scope : Scope := defaultScope
  name : String
  status : CapabilityStatus := .active
  displayOrder : ℤ := 100
  metadata : Json := .obj []

/-- One row of `capability_agents`. -/
structure CapabilityAgent where
  capabilityId : ℕ
  agentId : AgentId
  displayOrder : ℤ := 100
  labelOverride : Option String := none
  isVisible : Bool := true
  metadata : Json := .obj []

/-- The content of the catalogue's tables, within their unique constraints. -/
structure Catalogue where
  agents : List Agent
  configs : List AgentConfig
  capabilities : List Capability := []
  members : List CapabilityAgent := []
  agent_id : (agents.map (·.id)).Nodup
  agent_key : (agents.map (·.key)).Nodup
  agent_name : (agents.map (·.name)).Nodup
  single_default : Agent.SingleDefault agents
  one_active : AgentConfig.OneActive configs
  scope_version : AgentConfig.ScopeVersion configs
  capability_id : (capabilities.map (·.id)).Nodup
  capability_scope_key : (capabilities.map fun c => (c.scope,c.key)).Nodup
  membership : (members.map fun m => (m.capabilityId,m.agentId)).Nodup

/-- What pydantic makes of a configuration: the specification, if it is valid, and the access block
on its own, if that is. -/
structure Validation where
  agentSpec : Json → Option AgentSpec
  accessSpec : Json → Option AccessSpec

/-- A loop that stops at the first failure has gone through when it has a value for each element. -/
theorem mapM_eq_some_iff {α β : Type} {f : α → Option β} {as : List α} {bs : List β} :
    as.mapM f = some bs ↔ as.map f = bs.map some := by
  induction as generalizing bs with
  | nil => cases bs <;> simp
  | cons a as ih =>
    rw [List.mapM_cons,List.map_cons]
    cases bs with
    | nil => simp [Option.bind_eq_some_iff]
    | cons b bs =>
      simp only [Option.bind_eq_bind,Option.pure_def,Option.bind_eq_some_iff,Option.some.injEq,
        List.cons.injEq,List.map_cons,ih]
      constructor
      · rintro ⟨b',hb,bs',hbs,rfl,rfl⟩
        exact ⟨hb,hbs⟩
      · rintro ⟨hb,hbs⟩
        exact ⟨b,hb,bs,hbs,rfl,rfl⟩

/-- A loop that raises nowhere goes through. -/
theorem mapM_eq_ok {α β ε : Type} {f : α → Except ε β} {g : α → β} {as : List α} (h : ∀ a ∈ as, f a = .ok (g a)) :
    as.mapM f = .ok (as.map g) := by
  induction as with
  | nil => rfl
  | cons a as ih =>
    have hrest : as.mapM f = .ok (as.map g) := ih fun b hb => h b (List.mem_cons_of_mem _ hb)
    rw [List.mapM_cons,h a List.mem_cons_self,hrest]
    rfl

/-- A loop that raises somewhere raises. -/
theorem mapM_raises {α β ε : Type} {f : α → Except ε β} {as : List α} {a : α} {e : ε} (ha : a ∈ as)
    (h : f a = .error e) : ∃ e', as.mapM f = .error e' := by
  induction as with
  | nil => cases ha
  | cons b as ih =>
    rw [List.mapM_cons]
    cases hb : f b with
    | error e' => exact ⟨e',rfl⟩
    | ok v =>
      rcases List.mem_cons.mp ha with rfl | ha
      · rw [h] at hb
        cases hb
      · obtain ⟨e',he'⟩ := ih ha
        rw [he']
        exact ⟨e',rfl⟩

namespace Catalogue

variable (c : Catalogue)

/-- The active configurations of an agent. -/
def activeConfigs (agent : AgentId) : List AgentConfig :=
  c.configs.filter fun cfg => cfg.agentId = agent && cfg.isActive

/-- The configuration that the snapshot is loaded from. -/
def defaultConfig (agent : AgentId) : Option AgentConfig :=
  (c.activeConfigs agent).find? (·.scope = defaultScope)

def registered (a : Agent) (cfg : AgentConfig) (spec : AgentSpec) : RegisteredAgent where
  id := a.id
  key := a.key
  name := a.name
  description := a.description
  agentType := a.agentType
  isDefault := a.isDefault
  checksum := cfg.checksum
  spec := spec

/-- The enabled agents with their active configuration at the default scope. -/
def reloadRows : List (Agent × AgentConfig) :=
  (c.agents.filter (·.status = .enabled)).flatMap fun a =>
    ((c.activeConfigs a.id).filter (·.scope = defaultScope)).map fun cfg => (a,cfg)

/-- `reload`: one configuration that is not valid keeps the snapshot as it was. -/
def reload (v : Validation) : Option AgentRegistry :=
  match c.reloadRows.mapM fun (a,cfg) => (v.agentSpec cfg.config).map (registered a cfg) with
  | some agents => some ⟨agents⟩
  | none => none

/-- The row that the query of `resolve_for_scope` selects. -/
def scopedConfig (agent : AgentId) (tenant organization : String) : Option AgentConfig :=
  resolve defaultScope (tenant,orDefault organization) (·.scope)
    ((c.activeConfigs agent).filter (·.scope ≠ defaultScope))

/-- The row that the subquery of `_AGENTS_SQL` selects. -/
def lateralConfig (s : Scope) (agent : AgentId) : Option AgentConfig :=
  resolve defaultScope s (·.scope) (c.activeConfigs agent)

/-- The rows that `DISTINCT ON` of `_CAPABILITIES_SQL` selects, one for each key. -/
def resolvedCapabilities (s : Scope) : List Capability :=
  distinctOn (·.key) (fun cap => rank s cap.scope)
    (c.capabilities.filter fun cap => admits defaultScope s cap.scope)

/-- `_CAPABILITIES_SQL`. -/
def capabilityRows (s : Scope) : List Capability :=
  ((c.resolvedCapabilities s).filter (·.status ≠ .disabled)).insertionSort fun a b =>
    a.displayOrder < b.displayOrder ∨ (a.displayOrder = b.displayOrder ∧ a.key ≤ b.key)

/-- `_AGENTS_SQL`, for the capabilities of these ids. -/
def agentRows (s : Scope) (capabilityIds : List ℕ) : List (CapabilityAgent × Agent × AgentConfig) :=
  (c.members.flatMap fun m =>
    if capabilityIds.contains m.capabilityId && m.isVisible then
      (c.agents.filter fun a => a.id = m.agentId && a.status = .enabled).filterMap fun a =>
        (c.lateralConfig s a.id).map fun cfg => (m,a,cfg)
    else []).insertionSort fun r r' =>
    r.1.displayOrder < r'.1.displayOrder ∨ (r.1.displayOrder = r'.1.displayOrder ∧ r.2.1.key ≤ r'.2.1.key)

/-- `_scope`. -/
def scopeOf (user : Option UserContext) : Scope :=
  match user with
  | none => defaultScope
  | some user => (orDefault user.tenantCode,orDefault (user.activeOrgId.getD ""))

/-- `_access_permits`: an access block that does not parse permits nobody. -/
def accessPermits (v : Validation) (config : Json) (user : Option UserContext) : Bool :=
  match config.orElse (.obj []) with
  | .obj fields => match v.accessSpec ((Json.get fields "access").orElse (.obj [])) with
    | some access => access.matches user
    | none => false
  | _ => false

/-- `_action_from`. Metadata that is neither falsy nor an object has no `get`. -/
def actionFrom (metadata : Json) (fallback : List (String × Json)) : Except Exn (List (String × Json)) :=
  match metadata.orElse (.obj []) with
  | .obj fields => .ok (match Json.get fields "action" with
    | .obj action => if (Json.get action "type").truthy then action else fallback
    | _ => fallback)
  | _ => .error (.python "AttributeError" "no attribute 'get'")

/-- `{**action, "agentKey": key}`. -/
def withAgentKey (key : String) (action : List (String × Json)) : List (String × Json) :=
  if action.any (·.1 = "agentKey") then
    action.map fun p => if p.1 = "agentKey" then ("agentKey",.str key) else p
  else action ++ [("agentKey",.str key)]

/-- An agent's button in the document. -/
structure AgentEntry where
  agentKey : String
  label : String
  description : String
  order : ℤ
  action : List (String × Json)

/-- A card of the document. -/
structure CapabilityEntry where
  key : String
  title : String
  status : CapabilityStatus
  order : ℤ
  action : List (String × Json)
  agents : List AgentEntry

/-- The rows of `_AGENTS_SQL` whose access block permits the user. -/
def permittedRows (v : Validation) (user : Option UserContext) :
    List (CapabilityAgent × Agent × AgentConfig) :=
  (c.agentRows (scopeOf user) ((c.capabilityRows (scopeOf user)).map (·.id))).filter
    fun (_,_,cfg) => accessPermits v cfg.config user

/-- The button of a row, under the id of its capability. -/
def agentEntry (m : CapabilityAgent) (a : Agent) : Except Exn (ℕ × AgentEntry) := do
  let action ← actionFrom m.metadata [("type",.str "start_agent")]
  pure (m.capabilityId,{
    agentKey := a.key
    label := m.labelOverride.getD a.name
    description := a.description
    order := m.displayOrder
    action := withAgentKey a.key action })

/-- `resolve_for_user`: the cards of the capability document. -/
def resolveForUser (v : Validation) (user : Option UserContext) : Except Exn (List CapabilityEntry) := do
  let byCapability ← (c.permittedRows v user).mapM fun (m,a,_) => agentEntry m a
  (c.capabilityRows (scopeOf user)).mapM fun cap => do
    let action ← actionFrom cap.metadata [("type",.str "display_card")]
    pure {
      key := cap.key
      title := cap.name
      status := cap.status
      order := cap.displayOrder
      action := action
      agents := (byCapability.filter fun (id,_) => id = cap.id).map (·.2) }

/-- Empty tables. -/
def blank : Catalogue where
  agents := []
  configs := []
  agent_id := by decide
  agent_key := by decide
  agent_name := by decide
  single_default := by decide
  one_active := by decide
  scope_version := by decide
  capability_id := by decide
  capability_scope_key := by decide
  membership := by decide

/-- One agent, and no configuration. -/
def single : Catalogue :=
  { blank with
    agents := [{ id := 1, key := "assistant", name := "Saarthi" }]
    agent_id := by decide
    agent_key := by decide
    agent_name := by decide
    single_default := by decide }

end Catalogue

end Saarathi
