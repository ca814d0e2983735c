import Saarathi.ScopedRouting
import Saarathi.ScopePrecedence

/-!
# The sidebar

`GET /api/agents` lists the agents that a caller may use. This module says when
these are the agents that the router offers the caller.
-/

namespace Saarathi

open Program Program.Prog

/-- What the list says of an agent. -/
structure AgentListing where
  name : String
  description : String
  key : String
  agentType : AgentType
  capabilities : List String
  status : AgentStatus
  sortOrder : ℤ
  supportsOptions : Bool
  pinSession : Bool

/-- An entry of the list. The synthetic first one has no key. -/
inductive SidebarEntry where
  | auto (name description : String)
  | agent (listing : AgentListing)

/-- The key of an entry, if it has one. -/
def SidebarEntry.key : SidebarEntry → Option String
  | auto .. => none
  | agent listing => some listing.key

namespace AgentRoutes

/-- Resolve each agent for the caller's scope, then apply its access block. -/
def visibleIn (user : Option UserContext) : List RegisteredAgent → Proc (List RegisteredAgent)
  | [] => pure []
  | reg :: regs => do
    let seen ← AgentRegistry.resolveForScope reg (tenantOf user) (organizationOf user)
    let rest ← visibleIn user regs
    pure (if seen.spec.access.matches user then seen :: rest else rest)

def listing (reg : RegisteredAgent) : AgentListing where
  name := reg.name
  description := reg.description
  key := reg.key
  agentType := reg.agentType
  capabilities := reg.spec.capabilities
  status := reg.spec.status
  sortOrder := reg.spec.sortOrder
  supportsOptions := reg.spec.emitOptions
  pinSession := reg.spec.routing.pinSession

/-- `get_agents`. -/
def getAgents (user : Option UserContext) : Proc (List SidebarEntry) := do
  let registered := (← snapshot).routable.insertionSort fun a b => a.spec.sortOrder ≤ b.spec.sortOrder
  let visible ← visibleIn user registered
  pure (.auto "Saarthi" "Automatically routes your request to the best agent" ::
    visible.map fun reg => .agent (listing reg))

end AgentRoutes

namespace Catalogue

variable {c : Catalogue} {v : Validation} {r : AgentRegistry}

/-- At the default scope an agent has one active configuration at most. -/
theorem filter_default (c : Catalogue) (agent : AgentId) :
    (c.activeConfigs agent).filter (·.scope = defaultScope) = (c.defaultConfig agent).toList := by
  have hone := onePerScope_activeConfigs c agent
  have hnodup : (c.activeConfigs agent).Nodup := by
    have hactive : (c.configs.filter (·.isActive)).Nodup := List.Nodup.of_map _ c.one_active
    have hsub : c.activeConfigs agent = (c.configs.filter (·.isActive)).filter (·.agentId = agent) := by
      rw [activeConfigs,List.filter_filter]
    rw [hsub]
    exact hactive.filter _
  rw [defaultConfig,← List.head?_filter]
  have hrows := hnodup.filter (·.scope = defaultScope)
  have hsame : ∀ a ∈ (c.activeConfigs agent).filter (·.scope = defaultScope),
      ∀ b ∈ (c.activeConfigs agent).filter (·.scope = defaultScope), a = b := by
    intro a ha b hb
    simp only [List.mem_filter,decide_eq_true_eq] at ha hb
    exact hone a ha.1 b hb.1 (ha.2.trans hb.2.symm)
  revert hrows hsame
  generalize (c.activeConfigs agent).filter (·.scope = defaultScope) = rows
  intro hrows hsame
  rcases rows with - | ⟨a,- | ⟨b,rows⟩⟩
  · rfl
  · rfl
  · have hab := hsame a (by simp) b (by simp)
    simp [hab] at hrows

theorem reloadRows_eq (c : Catalogue) : c.reloadRows = (c.agents.filter (·.status = .enabled)).filterMap
    fun a => (c.defaultConfig a.id).map fun cfg => (a,cfg) := by
  rw [reloadRows,List.filterMap_eq_flatMap_toList]
  congr 1
  funext a
  rw [filter_default]
  cases c.defaultConfig a.id <;> rfl

theorem mem_reloadRows {a : Agent} {cfg : AgentConfig} : (a,cfg) ∈ c.reloadRows ↔
    a ∈ c.agents ∧ a.status = .enabled ∧ c.defaultConfig a.id = some cfg := by
  simp only [reloadRows_eq,List.mem_filterMap,List.mem_filter,decide_eq_true_eq,Option.map_eq_some_iff,
    Prod.mk.injEq]
  constructor
  · rintro ⟨b,⟨hb,hs⟩,cfg',hc,rfl,rfl⟩
    exact ⟨hb,hs,hc⟩
  · rintro ⟨ha,hs,hc⟩
    exact ⟨a,⟨ha,hs⟩,cfg,hc,rfl,rfl⟩

theorem reloadRows_sublist (c : Catalogue) : (c.reloadRows.map (·.1)).Sublist c.agents := by
  refine List.Sublist.trans ?_ (List.filter_sublist (p := (·.status = .enabled)))
  rw [reloadRows_eq]
  induction c.agents.filter (·.status = .enabled) with
  | nil => exact List.Sublist.refl []
  | cons a as ih =>
    rw [List.filterMap_cons]
    cases c.defaultConfig a.id with
    | none => exact ih.cons a
    | some cfg => exact ih.cons_cons a

/-- The rows of a snapshot that was loaded. -/
theorem reload_eq (h : c.reload v = some r) : (c.reloadRows.map fun row =>
    (v.agentSpec row.2.config).map (registered row.1 row.2)) = r.snapshot.map some := by
  unfold reload at h
  split at h
  · rename_i agents hmap
    obtain rfl := Option.some.inj h
    exact mapM_eq_some_iff.mp hmap
  · cases h

theorem mem_snapshot (h : c.reload v = some r) {reg : RegisteredAgent} : reg ∈ r.snapshot ↔
    ∃ a cfg spec, (a,cfg) ∈ c.reloadRows ∧ v.agentSpec cfg.config = some spec ∧
      reg = registered a cfg spec := by
  have hmem : reg ∈ r.snapshot ↔ some reg ∈ r.snapshot.map some := by simp
  rw [hmem,← reload_eq h]
  simp only [List.mem_map,Option.map_eq_some_iff,Prod.exists]
  constructor
  · rintro ⟨a,cfg,hrow,spec,hspec,rfl⟩
    exact ⟨a,cfg,spec,hrow,hspec,rfl⟩
  · rintro ⟨a,cfg,spec,hrow,hspec,rfl⟩
    exact ⟨a,cfg,hrow,spec,hspec,rfl⟩

/-- What the snapshot says of an agent that its row says too. -/
theorem snapshot_map {β : Type} (h : c.reload v = some r) {f : RegisteredAgent → β} {g : Agent → β}
    (hfg : ∀ a cfg spec, f (registered a cfg spec) = g a) :
    r.snapshot.map f = (c.reloadRows.map (·.1)).map g := by
  have hmap := congrArg (List.map (Option.map f)) (reload_eq h)
  simp only [List.map_map] at hmap
  have hsome : (r.snapshot.map f).map some = ((c.reloadRows.map (·.1)).map g).map some := by
    rw [List.map_map,List.map_map,List.map_map]
    refine Eq.trans hmap.symm ?_
    apply List.map_congr_left
    intro row hrow
    have hspec : (v.agentSpec row.2.config).isSome = true := by
      have hin : (v.agentSpec row.2.config).map (registered row.1 row.2) ∈ r.snapshot.map some := by
        rw [← reload_eq h]
        exact List.mem_map_of_mem (f := fun row => (v.agentSpec row.2.config).map _) hrow
      cases hs : v.agentSpec row.2.config with
      | none => simp [hs] at hin
      | some spec => rfl
    obtain ⟨spec,hs⟩ := Option.isSome_iff_exists.mp hspec
    simp [hs,hfg]
  exact List.map_injective_iff.mpr (Option.some_injective _) hsome

/-- What a request reads of a content of the tables, with the snapshot that was loaded from it. -/
def answers (c : Catalogue) (v : Validation) (r : AgentRegistry) (h : c.reload v = some r) : Answers where
  registry := r
  config agent tenant organization :=
    .ok ((c.scopedConfig agent tenant organization).map fun cfg => (cfg.checksum,v.agentSpec cfg.config))
  keys := by
    rw [snapshot_map h (g := Agent.key) fun _ _ _ => rfl]
    exact c.agent_key.sublist ((reloadRows_sublist c).map _)
  ids := by
    rw [snapshot_map h (g := Agent.id) fun _ _ _ => rfl]
    exact c.agent_id.sublist ((reloadRows_sublist c).map _)

end Catalogue

section Agreement

open AgentRoutes

variable {A : Answers} {user : Option UserContext}

theorem visibleIn_ends {regs : List RegisteredAgent} (hregs : ∀ a ∈ regs, a ∈ A.registry.snapshot) :
    Ends A.spec (fun visible => visible = (regs.map (A.inScope user)).filter (·.spec.access.matches user))
      (fun _ => False) (visibleIn user regs) := by
  induction regs with
  | nil => exact Ends.pure rfl
  | cons a regs ih =>
    apply (Answers.resolveForScope_ends (hregs a List.mem_cons_self) _ _).bind
    rintro seen rfl
    apply (ih fun b hb => hregs b (List.mem_cons_of_mem a hb)).bind
    rintro visible rfl
    apply Ends.pure
    rw [List.map_cons,List.filter_cons]
    rfl

theorem inScope_key (a : RegisteredAgent) : (A.inScope user a).key = a.key := by
  unfold Answers.inScope Answers.served Answers.resolved
  split
  · rfl
  · split <;> rfl

/-- The entries of the list. -/
def entriesFor (A : Answers) (user : Option UserContext) : List SidebarEntry :=
  .auto "Saarthi" "Automatically routes your request to the best agent" ::
    ((((A.registry.routable.insertionSort fun a b => a.spec.sortOrder ≤ b.spec.sortOrder).map
      (A.inScope user)).filter (·.spec.access.matches user)).map fun reg => .agent (listing reg))

theorem getAgents_ends : Ends A.spec (fun entries => entries = entriesFor A user) (fun _ => False)
    (getAgents user) := by
  unfold getAgents
  apply Answers.snapshot_ends.bind
  rintro r rfl
  have hregs : ∀ a ∈ A.registry.routable.insertionSort fun a b => a.spec.sortOrder ≤ b.spec.sortOrder,
      a ∈ A.registry.snapshot := by
    intro a ha
    rw [List.mem_insertionSort] at ha
    exact List.mem_of_mem_filter ha
  apply (visibleIn_ends hregs).bind
  rintro visible rfl
  exact Ends.pure rfl

/-- The keys that are listed are those of the routable agents that, as the caller's scope sees them,
admit the caller. -/
theorem mem_entriesFor {key : String} : some key ∈ (entriesFor A user).map (·.key) ↔
    ∃ a ∈ A.registry.routable, (A.inScope user a).spec.access.matches user = true ∧ a.key = key := by
  simp only [entriesFor,List.map_cons,List.map_map,List.mem_cons,List.mem_map,List.mem_filter,
    List.mem_insertionSort,Function.comp_apply,SidebarEntry.key,listing,reduceCtorEq,false_or,
    Option.some.injEq]
  constructor
  · rintro ⟨b,⟨⟨a,ha,rfl⟩,hb⟩,hkey⟩
    exact ⟨a,ha,hb,(inScope_key a).symm.trans hkey⟩
  · rintro ⟨a,ha,hb,hkey⟩
    exact ⟨A.inScope user a,⟨⟨a,ha,rfl⟩,hb⟩,(inScope_key a).trans hkey⟩

theorem mem_visible {key : String} : key ∈ (RouterService.visible A.registry user).map (·.key) ↔
    ∃ a ∈ A.registry.routable, a.spec.access.matches user = true ∧ a.key = key := by
  simp only [RouterService.visible,List.mem_map,List.mem_filter,and_assoc]

/-- For every content of the tables, every snapshot loaded from it and every caller: the list names
the agents that the router offers exactly when, of each routable agent, the configuration of the
caller's scope and the default one agree on whether the caller is admitted. -/
theorem sidebar_agrees_iff {c : Catalogue} {v : Validation} {r : AgentRegistry}
    (h : c.reload v = some r) (user : Option UserContext) :
    Ends (c.answers v r h).spec
      (fun entries => ∀ key, some key ∈ entries.map (·.key) ↔
        key ∈ (RouterService.visible r user).map (·.key)) (fun _ => False) (getAgents user) ↔
    ∀ a ∈ r.routable, ((c.answers v r h).inScope user a).spec.access.matches user =
      a.spec.access.matches user := by
  rw [Ends.iff_of_eq (fun _ => rfl) (fixed_spec none) getAgents_ends]
  have hvisible : ∀ key, key ∈ (RouterService.visible r user).map (·.key) ↔
      ∃ a ∈ r.routable, a.spec.access.matches user = true ∧ a.key = key :=
    fun key => mem_visible (A := c.answers v r h)
  have hlisted : ∀ key, some key ∈ (entriesFor (c.answers v r h) user).map (·.key) ↔ ∃ a ∈ r.routable,
      ((c.answers v r h).inScope user a).spec.access.matches user = true ∧ a.key = key :=
    fun key => mem_entriesFor
  simp only [hvisible,hlisted]
  have hinj : ∀ a ∈ r.routable, ∀ b ∈ r.routable, a.key = b.key → a = b := by
    intro a ha b hb
    exact List.inj_on_of_nodup_map (c.answers v r h).keys (List.mem_of_mem_filter ha)
      (List.mem_of_mem_filter hb)
  constructor
  · intro hsame a ha
    rw [Bool.eq_iff_iff]
    constructor
    · intro hlist
      obtain ⟨b,hb,hadmits,hkey⟩ := (hsame a.key).mp ⟨a,ha,hlist,rfl⟩
      rw [← hinj b hb a ha hkey]
      exact hadmits
    · intro hoffer
      obtain ⟨b,hb,hadmits,hkey⟩ := (hsame a.key).mpr ⟨a,ha,hoffer,rfl⟩
      rw [← hinj b hb a ha hkey]
      exact hadmits
  · intro hagree key
    constructor
    · rintro ⟨a,ha,hlist,hkey⟩
      exact ⟨a,ha,(hagree a ha).symm.trans hlist,hkey⟩
    · rintro ⟨a,ha,hoffer,hkey⟩
      exact ⟨a,ha,(hagree a ha).trans hoffer,hkey⟩

end Agreement

/-! A tenant with a configuration of its own, on which concrete lists are evaluated. -/

namespace Sample

def strings : Json → List String
  | .arr items => items.filterMap fun j => match j with
    | .str s => some s
    | _ => none
  | _ => []

def readAccess : Json → Option AccessSpec
  | .obj fields => some { tenantCodes := strings (Json.get fields "tenant_codes") }
  | _ => none

/-- What the configurations below amount to. -/
def readSpec : Json → Option AgentSpec
  | .obj fields =>
    match Json.get fields "key",Json.get fields "access",Json.get fields "routing" with
    | .str key,.obj access,.obj routing => some {
        key := key
        access := { tenantCodes := strings (Json.get access "tenant_codes") }
        routing := { directSelectable := (Json.get routing "direct_selectable").truthy }
        kind := .llm "model" }
    | _,_,_ => none
  | _ => none

def validation : Validation where
  agentSpec := readSpec
  accessSpec := readAccess

def config (tenantCodes : List String) (directSelectable : Bool) : Json := .obj [
  ("schema_version",.num "1"),
  ("key",.str "assistant"),
  ("name",.str "Saarthi"),
  ("description",.str "Answers questions"),
  ("agent_type",.str "llm"),
  ("prompt",.str "Answer."),
  ("model",.obj [("name",.str "model")]),
  ("access",.obj [("tenant_codes",.arr (tenantCodes.map .str))]),
  ("routing",.obj [("direct_selectable",.bool directSelectable)])]

/-- The tenant's configuration restricts the agent to these tenants. -/
def tables (tenantCodes : List String) : Catalogue :=
  { Catalogue.single with
    configs := [
      { agentId := 1, version := 1, source := .yaml, checksum := "a", config := config [] true,
        isActive := true },
      { agentId := 1, scope := ("acme","default"), version := 1, source := .db, checksum := "b",
        config := config tenantCodes true, isActive := true }]
    one_active := by simp [AgentConfig.OneActive,defaultScope]
    scope_version := by simp [AgentConfig.ScopeVersion,defaultScope] }

def registry : AgentRegistry where
  snapshot := [{
    id := 1
    key := "assistant"
    name := "Saarthi"
    checksum := "a"
    spec := { key := "assistant", kind := .llm "model" } }]

theorem tables_reload (tenantCodes : List String) :
    (tables tenantCodes).reload validation = some registry := rfl

def acmeUser : UserContext := { userId := "user", tenantCode := "acme" }

end Sample

/-- The tenant's configuration admits the tenant, as the default one does. -/
theorem sidebar_agrees_acme :
    Ends ((Sample.tables ["acme"]).answers Sample.validation Sample.registry (Sample.tables_reload _)).spec
      (fun entries => ∀ key, some key ∈ entries.map (·.key) ↔
        key ∈ (RouterService.visible Sample.registry (some Sample.acmeUser)).map (·.key))
      (fun _ => False) (AgentRoutes.getAgents (some Sample.acmeUser)) :=
  (sidebar_agrees_iff (Sample.tables_reload ["acme"]) (some Sample.acmeUser)).mpr (by decide)

/-- The tenant's configuration admits another tenant only: the router offers the agent, the list
leaves it out. -/
theorem sidebar_disagrees_acme :
    "assistant" ∈ (RouterService.visible Sample.registry (some Sample.acmeUser)).map (·.key) ∧
    ¬ Ends ((Sample.tables ["beta"]).answers Sample.validation Sample.registry (Sample.tables_reload _)).spec
      (fun entries => ∀ key, some key ∈ entries.map (·.key) ↔
        key ∈ (RouterService.visible Sample.registry (some Sample.acmeUser)).map (·.key))
      (fun _ => False) (AgentRoutes.getAgents (some Sample.acmeUser)) := by
  have hoffer : "assistant" ∈
      (RouterService.visible Sample.registry (some Sample.acmeUser)).map (·.key) := by decide
  refine ⟨hoffer,?_⟩
  rw [Ends.iff_of_eq (fun _ => rfl) (fixed_spec none) getAgents_ends]
  intro h
  have hlist := (h "assistant").mpr hoffer
  rw [mem_entriesFor] at hlist
  revert hlist
  decide

end Saarathi
