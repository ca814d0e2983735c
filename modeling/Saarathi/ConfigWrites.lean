import Saarathi.Catalogue
import Saarathi.Sessions

/-!
# Writing configurations

The synchronisation with the YAML files and the admin routes that write agents and
configurations. A statement that breaks a unique constraint raises, and an
exception rolls the whole operation back.
-/

namespace Saarathi

/-- A validated specification, with what the checks before the first write find about it, and
whether JSONB takes its canonical text. -/
structure SpecFile where
  key : String
  name : String
  description : String
  agentType : AgentType
  status : AgentStatus := .enabled
  isDefault : Bool := false
  sortOrder : ℤ := 100
  canonical : Json
  checksum : String
  toolsKnown : Bool := true
  botRouteSet : Bool := true
  finalizeKnown : Bool := true
  jsonb : Bool := true

/-- The columns of `agents` take the values. -/
def SpecFile.fitsColumns (s : SpecFile) : Bool :=
  fitsInteger s.sortOrder && !Text.hasNul s.name && !Text.hasNul s.description

inductive SyncMode where
  | safe
  | force
  | off
  deriving DecidableEq

/-- `fetchone()`: one of the rows, where the query leaves their order open. -/
structure Fetch where
  one : List AgentConfig → Option AgentConfig
  mem : ∀ rows r, one rows = some r → r ∈ rows
  total : ∀ rows, rows ≠ [] → (one rows).isSome = true

/-- The first row. -/
def firstRow : Fetch where
  one := List.head?
  mem := fun _ _ h => List.mem_of_head? h
  total := by
    intro rows h
    cases rows with
    | nil => exact absurd rfl h
    | cons r rows => rfl

inductive UniqueIndex where
  | agentsPk
  | agentsKey
  | agentsName
  | agentsSingleDefault
  | agentCfgOneActive
  | agentCfgScopeVersion
  | capabilityAgentsMembership
  deriving DecidableEq

/-- What an operation raises: a statement breaks a unique constraint, or a value does not fit its
column, or the files do not pass the checks before the first write. -/
inductive WriteError where
  | unique (index : UniqueIndex)
  | unstorable
  | invalid
  deriving DecidableEq

section Results

variable {ε α β : Type}

theorem bind_eq_ok {x : Except ε α} {f : α → Except ε β} {b : β} :
    x >>= f = .ok b ↔ ∃ a, x = .ok a ∧ f a = .ok b := by
  cases x with
  | error e => exact ⟨fun h => (by cases h),fun ⟨a,h,_⟩ => (by cases h)⟩
  | ok a => exact ⟨fun h => ⟨a,rfl,h⟩,fun ⟨a',h,hf⟩ => (by cases h; exact hf)⟩

theorem pure_eq_ok {a b : α} : (pure a : Except ε α) = .ok b ↔ a = b := by
  constructor
  · intro h
    exact Except.ok.inj h
  · rintro rfl
    rfl

theorem map_eq_ok {x : Except ε α} {f : α → β} {b : β} :
    x.map f = .ok b ↔ ∃ a, x = .ok a ∧ f a = b := by
  cases x with
  | error e => exact ⟨fun h => (by cases h),fun ⟨a,h,_⟩ => (by cases h)⟩
  | ok a => exact ⟨fun h => ⟨a,rfl,Except.ok.inj h⟩,fun ⟨a',h,hf⟩ => (by cases h; exact congrArg _ hf)⟩

/-- What an operation returns meets `P`, and what it raises meets `E`. -/
def Outcome (P : α → Prop) (E : ε → Prop) : Except ε α → Prop
  | .ok a => P a
  | .error e => E e

variable {P : α → Prop} {Q : β → Prop} {E : ε → Prop}

theorem Outcome.bind {x : Except ε α} {f : α → Except ε β} (h : Outcome P E x)
    (hf : ∀ a, P a → Outcome Q E (f a)) : Outcome Q E (x >>= f) := by
  cases x with
  | error e => exact h
  | ok a => exact hf a h

theorem Outcome.mono {P' : α → Prop} {x : Except ε α} (h : Outcome P E x) (hP : ∀ a, P a → P' a) :
    Outcome P' E x := by
  cases x with
  | error e => exact h
  | ok a => exact hP a h

theorem Outcome.map {x : Except ε α} {f : α → β} (h : Outcome P E x) (hf : ∀ a, P a → Q (f a)) :
    Outcome Q E (x.map f) := by
  cases x with
  | error e => exact h
  | ok a => exact hf a h

theorem Outcome.of_eq {x : Except ε α} (hok : ∀ a, x = .ok a → P a) (herror : ∀ e, x = .error e → E e) :
    Outcome P E x := by
  cases x with
  | error e => exact herror e rfl
  | ok a => exact hok a rfl

end Results

namespace AgentConfig

def deactivated (r : AgentConfig) : AgentConfig := { r with isActive := false }

def activated (now : ℕ) (r : AgentConfig) : AgentConfig :=
  { r with isActive := true, activatedAt := some now }

/-- `COALESCE(MAX(version), 0) + 1`. -/
def nextVersion (rows : List AgentConfig) : ℤ := ((rows.map (·.version)).max?).getD 0 + 1

end AgentConfig

namespace Catalogue

variable (c : Catalogue)

/-- The agent's rows, at every scope. -/
def configsOf (agent : AgentId) : List AgentConfig := c.configs.filter (·.agentId = agent)

/-- A statement that would leave two active rows raises for that, whatever else is wrong. -/
def setConfigs (cs : List AgentConfig) : Except WriteError Catalogue :=
  if h₁ : AgentConfig.OneActive cs then
    if h₂ : AgentConfig.ScopeVersion cs then
      .ok { c with configs := cs, one_active := h₁, scope_version := h₂ }
    else .error (.unique .agentCfgScopeVersion)
  else .error (.unique .agentCfgOneActive)

def setAgents (as : List Agent) : Except WriteError Catalogue :=
  if h₁ : (as.map (·.id)).Nodup then
    if h₂ : (as.map (·.key)).Nodup then
      if h₃ : (as.map (·.name)).Nodup then
        if h₄ : Agent.SingleDefault as then
          .ok { c with agents := as, agent_id := h₁, agent_key := h₂, agent_name := h₃,
                       single_default := h₄ }
        else .error (.unique .agentsSingleDefault)
      else .error (.unique .agentsName)
    else .error (.unique .agentsKey)
  else .error (.unique .agentsPk)

/-- `UPDATE agent_configs SET … WHERE agent_id = … AND p`. -/
def updateConfigs (agent : AgentId) (p : AgentConfig → Bool) (f : AgentConfig → AgentConfig) :
    Except WriteError Catalogue :=
  c.setConfigs (c.configs.map fun r => if r.agentId = agent && p r then f r else r)

/-- `INSERT INTO agent_configs`, which leaves the scope columns at their default. -/
def insertConfig (jsonb : Bool) (r : AgentConfig) : Except WriteError Catalogue :=
  if jsonb && fitsInteger r.version then c.setConfigs (c.configs ++ [r]) else .error .unstorable

/-- `UPDATE agents SET … WHERE id = …`. -/
def updateAgent (agent : AgentId) (f : Agent → Agent) : Except WriteError Catalogue :=
  c.setAgents (c.agents.map fun a => if a.id = agent then f a else a)

/-- An id that no row refers to. -/
def freshAgent : AgentId :=
  ((c.agents.map (·.id)) ++ c.configs.map (·.agentId)).foldr max 0 + 1

/-- The row of a new version. -/
def versionRow (agent : AgentId) (version : ℤ) (source : ConfigSource) (spec : SpecFile)
    (active : Bool) (now : ℕ) : AgentConfig where
  agentId := agent
  version := version
  source := source
  checksum := spec.checksum
  config := spec.canonical
  isActive := active
  activatedAt := if active then some now else none

end Catalogue

structure SyncReport where
  created : List String := []
  updated : List String := []
  unchanged : List String := []
  drifted : List String := []
  orphaned : List String := []

/-- The entries of one report after those of another. -/
def SyncReport.append (r r' : SyncReport) : SyncReport where
  created := r.created ++ r'.created
  updated := r.updated ++ r'.updated
  unchanged := r.unchanged ++ r'.unchanged
  drifted := r.drifted ++ r'.drifted
  orphaned := r.orphaned ++ r'.orphaned

/-- An operation that commits: the tables after it, the version numbers that it gave out, and what it
reports. -/
structure Written where
  catalogue : Catalogue
  versions : List (AgentId × ℤ) := []
  report : SyncReport := {}

namespace ConfigSyncService

variable (mitraEnabled : Bool) (mode : SyncMode) (fetch : Fetch) (now : ℕ)

/-- The status of a remote-flow agent follows `MITRA_ENABLED`. -/
def effectiveStatus (spec : SpecFile) : AgentStatus :=
  if spec.agentType = .llm || mitraEnabled then spec.status else .disabled

/-- The row of an agent that is not there yet. -/
def agentRow (id : AgentId) (spec : SpecFile) : Agent where
  id := id
  key := spec.key
  name := spec.name
  description := spec.description
  agentType := spec.agentType
  status := effectiveStatus mitraEnabled spec
  isDefault := spec.isDefault
  sortOrder := spec.sortOrder
  updatedAt := now

/-- Case 1: an agent that is not there yet. -/
def createAgent (c : Catalogue) (spec : SpecFile) : Except WriteError Written :=
  if spec.fitsColumns then do
    let id := c.freshAgent
    let c ← c.setAgents (c.agents ++ [agentRow mitraEnabled now id spec])
    let c ← c.insertConfig spec.jsonb (Catalogue.versionRow id 1 .yaml spec true now)
    pure { catalogue := c, versions := [(id,1)], report := { created := [spec.key] } }
  else throw .unstorable

/-- The latest version that came from the YAML files. -/
def latestYaml (rows : List AgentConfig) : Option AgentConfig :=
  let yaml := rows.filter (·.source = .yaml)
  fetch.one (yaml.filter fun r => yaml.all fun r' => r'.version ≤ r.version)

def activeConfig (rows : List AgentConfig) : Option AgentConfig := fetch.one (rows.filter (·.isActive))

/-- The YAML file is what it was: in force mode an override is discarded. -/
def syncUnchanged (c : Catalogue) (agent : AgentId) (spec : SpecFile) (latest : AgentConfig)
    (active : Option AgentConfig) : Except WriteError Written :=
  if active.any (·.source = .db) then
    if mode = .force then do
      let c ← c.updateConfigs agent (·.version ≠ latest.version) AgentConfig.deactivated
      let c ← c.updateConfigs agent (·.version = latest.version) (AgentConfig.activated now)
      pure { catalogue := c, report := { updated := [spec.key] } }
    else pure { catalogue := c, report := { drifted := [spec.key] } }
  else pure { catalogue := c, report := { unchanged := [spec.key] } }

/-- A changed file becomes active in force mode and where no override is. -/
def adopts (active : Option AgentConfig) : Bool := mode = .force || active.all (·.source = .yaml)

/-- Deactivate before inserting: the index is checked for each statement. -/
def makeRoom (c : Catalogue) (agent : AgentId) (adopt : Bool) : Except WriteError Catalogue :=
  if adopt then c.updateConfigs agent (·.isActive) AgentConfig.deactivated else pure c

/-- Case 2: the YAML file has changed. -/
def syncChanged (c : Catalogue) (agent : AgentId) (spec : SpecFile) (active : Option AgentConfig) :
    Except WriteError Written := do
  let adopt := adopts mode active
  let version := AgentConfig.nextVersion (c.configsOf agent)
  let c ← makeRoom c agent adopt
  let c ← c.insertConfig spec.jsonb (Catalogue.versionRow agent version .yaml spec adopt now)
  pure {
    catalogue := c
    versions := [(agent,version)]
    report := if adopt then { updated := [spec.key] } else { drifted := [spec.key] } }

/-- The configurations of an agent that is there. -/
def syncConfigs (c : Catalogue) (agent : AgentId) (spec : SpecFile) : Except WriteError Written :=
  let active := activeConfig fetch (c.configsOf agent)
  match latestYaml fetch (c.configsOf agent) with
  | some latest =>
    if latest.checksum = spec.checksum then syncUnchanged mode now c agent spec latest active
    else syncChanged mode now c agent spec active
  | none => syncChanged mode now c agent spec active

/-- The identity columns follow the YAML file. -/
def identityOf (spec : SpecFile) (a : Agent) : Agent := { a with
  name := spec.name, description := spec.description, agentType := spec.agentType,
  sortOrder := spec.sortOrder, updatedAt := now }

def statusOf (spec : SpecFile) (a : Agent) : Agent := { a with
  status := if mitraEnabled then spec.status else .disabled, updatedAt := now }

/-- The status is touched for a remote flow only. -/
def syncStatus (c : Catalogue) (agent : AgentId) (spec : SpecFile) : Except WriteError Catalogue :=
  if spec.agentType = .remoteFlow then c.updateAgent agent (statusOf mitraEnabled now spec) else pure c

/-- One specification. -/
def syncSpec (c : Catalogue) (spec : SpecFile) : Except WriteError Written :=
  match c.agents.find? (·.key = spec.key) with
  | none => createAgent mitraEnabled now c spec
  | some a =>
    if spec.fitsColumns then do
      let c ← c.updateAgent a.id (identityOf now spec)
      let c ← syncStatus mitraEnabled now c a.id spec
      syncConfigs mode fetch now c a.id spec
    else throw .unstorable

/-- The loop over the specifications. -/
def syncSpecs : List SpecFile → Catalogue → Except WriteError Written
  | [],c => pure { catalogue := c }
  | spec :: specs,c => do
    let w ← syncSpec mitraEnabled mode fetch now c spec
    let w' ← syncSpecs specs w.catalogue
    pure {
      catalogue := w'.catalogue
      versions := w.versions ++ w'.versions
      report := w.report.append w'.report }

/-- The agent's active configuration came from a file that is gone. -/
def orphaned (c : Catalogue) (keys : List String) (a : Agent) : Bool :=
  (c.configsOf a.id).any (fun r => r.source = .yaml && r.isActive) && !keys.contains a.key

/-- Case 3: disable the orphans. -/
def disableOrphans (c : Catalogue) (keys : List String) : Except WriteError Catalogue :=
  c.setAgents (c.agents.map fun a =>
    if orphaned c keys a then { a with status := .disabled, updatedAt := now } else a)

/-- The checks before the first write. -/
def preflight (specs : List SpecFile) : Bool :=
  decide (specs.map (·.key)).Nodup && decide (specs.map (·.name)).Nodup &&
    decide ((specs.filter (·.isDefault)).length ≤ 1) &&
    specs.all fun s => match s.agentType with
      | .llm => s.toolsKnown
      | .remoteFlow => !mitraEnabled || (s.botRouteSet && s.finalizeKnown)

/-- `sync`. A file that does not validate raises. -/
def sync (files : List (Option SpecFile)) (c : Catalogue) : Except WriteError Written :=
  if mode = .off then pure { catalogue := c }
  else match files.mapM id with
    | none => throw .invalid
    | some specs =>
      if preflight mitraEnabled specs then do
        let w ← syncSpecs mitraEnabled mode fetch now specs c
        let keys := specs.map (·.key)
        let orphans := (w.catalogue.agents.filter (orphaned w.catalogue keys)).map (·.key)
        let c ← disableOrphans now w.catalogue keys
        pure { w with catalogue := c, report := w.report.append { orphaned := orphans } }
      else throw .invalid

end ConfigSyncService

/-- What an admin route answers. -/
structure AdminAnswer where
  status : ℕ := 200
  code : String := ""
  version : Option ℤ := none

namespace AdminRoutes

/-- `create_config_version`; the body is the validated specification, if it is valid. -/
def createConfigVersion (now : ℕ) (key : String) (body : Option SpecFile) (c : Catalogue) :
    Except WriteError (AdminAnswer × Written) :=
  match c.agents.find? (·.key = key) with
  | none => pure ({ status := 404, code := "AGENT_NOT_FOUND" },{ catalogue := c })
  | some a => match body with
    | none => pure ({ status := 422, code := "CONFIG_INVALID" },{ catalogue := c })
    | some spec =>
      if spec.agentType ≠ a.agentType ∨ (spec.agentType = .llm ∧ spec.toolsKnown = false) then
        pure ({ status := 422, code := "CONFIG_INVALID" },{ catalogue := c })
      else do
        let c ← c.updateConfigs a.id (fun _ => true) AgentConfig.deactivated
        let version := AgentConfig.nextVersion (c.configsOf a.id)
        let c ← c.insertConfig spec.jsonb (Catalogue.versionRow a.id version .db spec true now)
        pure ({ version := some version },{ catalogue := c, versions := [(a.id,version)] })

/-- `activate_config_version`; a version that is no integer is `none`. -/
def activateConfigVersion (now : ℕ) (key : String) (version : Option ℤ) (c : Catalogue) :
    Except WriteError (AdminAnswer × Written) :=
  match c.agents.find? (·.key = key) with
  | none => pure ({ status := 404, code := "AGENT_NOT_FOUND" },{ catalogue := c })
  | some a => match version with
    | none => pure ({ status := 400, code := "INVALID_REQUEST" },{ catalogue := c })
    | some version =>
      if (c.configsOf a.id).any (·.version = version) then do
        let c ← c.updateConfigs a.id (fun _ => true) AgentConfig.deactivated
        let c ← c.updateConfigs a.id (·.version = version) (AgentConfig.activated now)
        pure ({ version := some version },{ catalogue := c })
      else pure ({ status := 400, code := "INVALID_REQUEST" },{ catalogue := c })

/-- `update_agent_status`; a status that is neither of the two is `none`. -/
def updateAgentStatus (now : ℕ) (key : String) (status : Option AgentStatus) (c : Catalogue) :
    Except WriteError (AdminAnswer × Written) :=
  match c.agents.find? (·.key = key) with
  | none => pure ({ status := 404, code := "AGENT_NOT_FOUND" },{ catalogue := c })
  | some a => match status with
    | none => pure ({ status := 400, code := "INVALID_REQUEST" },{ catalogue := c })
    | some status => do
      let c ← c.updateAgent a.id fun a => { a with status := status, updatedAt := now }
      pure ({},{ catalogue := c })

end AdminRoutes

/-- The operations that write configurations. -/
inductive ConfigWrite where
  | sync (mitraEnabled : Bool) (mode : SyncMode) (files : List (Option SpecFile))
  | create (key : String) (body : Option SpecFile)
  | activate (key : String) (version : Option ℤ)

/-- Carry out an operation. -/
def ConfigWrite.perform (fetch : Fetch) (now : ℕ) (c : Catalogue) : ConfigWrite → Except WriteError Written
  | sync mitraEnabled mode files => ConfigSyncService.sync mitraEnabled mode fetch now files c
  | create key body => (AdminRoutes.createConfigVersion now key body c).map (·.2)
  | activate key version => (AdminRoutes.activateConfigVersion now key version c).map (·.2)

/-- Nothing is written where the operation raises. -/
def ConfigWrite.run (fetch : Fetch) (now : ℕ) (c : Catalogue) (op : ConfigWrite) : Option Written :=
  (op.perform fetch now c).toOption

/-- The operations that write agents and configurations. -/
inductive CatalogueWrite where
  | config (op : ConfigWrite)
  | status (key : String) (value : Option AgentStatus)

def CatalogueWrite.perform (fetch : Fetch) (now : ℕ) (c : Catalogue) :
    CatalogueWrite → Except WriteError Written
  | config op => op.perform fetch now c
  | status key value => (AdminRoutes.updateAgentStatus now key value c).map (·.2)

/-- An operation, the time of its transaction, and how `fetchone` chooses in it. -/
structure Applied where
  write : CatalogueWrite
  fetch : Fetch
  now : ℕ

/-- One operation after the others, rolled back where it raises. -/
def Catalogue.apply (c : Catalogue) (a : Applied) : Option Catalogue :=
  match a.write.perform a.fetch a.now c with
  | .ok w => some w.catalogue
  | .error _ => some c

/-- The tables before the first operation. -/
def Catalogue.Empty (c : Catalogue) : Prop := c.agents = [] ∧ c.configs = []

theorem Catalogue.blank_empty : Catalogue.blank.Empty := ⟨rfl,rfl⟩

theorem ConfigWrite.perform_of_run {fetch : Fetch} {now : ℕ} {c : Catalogue} {op : ConfigWrite}
    {w : Written} (h : op.run fetch now c = some w) : op.perform fetch now c = .ok w := by
  unfold run at h
  cases hp : op.perform fetch now c with
  | error e =>
    rw [hp] at h
    cases h
  | ok w' =>
    rw [hp] at h
    obtain rfl : w' = w := Option.some.inj h
    rfl

end Saarathi
