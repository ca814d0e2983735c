import Saarathi.Catalogue

/-!
# The precedence of scopes

The capability query, the configuration subquery and `resolve_for_scope` each
select a row by its scope. This module says when they select by the documented
chain: the caller's own scope, the tenant's, the default one.
-/

namespace Saarathi
namespace Catalogue

open ScopedSelection

variable (c : Catalogue)

/-- The rows of one capability. -/
def capabilitiesOf (key : String) : List Capability := c.capabilities.filter (·.key = key)

/-- The configuration that `resolve_for_scope` serves a registered agent with, where it is valid. -/
def servedConfig (s : Scope) (agent : AgentId) : Option AgentConfig :=
  if s.1 = "" ∨ s.1 = "default" then c.defaultConfig agent
  else match c.scopedConfig agent s.1 s.2 with
    | some cfg => some cfg
    | none => c.defaultConfig agent

/-- Each of the three selects the row at the first scope of the chain that has one: the capability
query among the rows of a key, the other two among the active configurations of an agent. -/
structure FollowsChain (s : Scope) : Prop where
  capability : ∀ cap, cap ∈ c.resolvedCapabilities s ↔
    precedent defaultScope s (·.scope) (c.capabilitiesOf cap.key) = some cap
  lateral : ∀ agent, c.lateralConfig s agent =
    precedent defaultScope s (·.scope) (c.activeConfigs agent)
  served : ∀ agent, (c.defaultConfig agent).isSome = true →
    c.servedConfig s agent = precedent defaultScope s (·.scope) (c.activeConfigs agent)

/-- A row of the default tenant at the caller's organization comes before the tenant's own. -/
def Crossed {α : Type} (s : Scope) (scope : α → Scope) (rows : List α) : Prop :=
  s.2 ≠ "default" ∧ s.1 ≠ "default" ∧ (∃ a ∈ rows, scope a = ("default",s.2)) ∧ ∀ a ∈ rows, scope a ≠ s

/-- A caller of the default tenant has an organization with a configuration of its own. -/
def Passed (s : Scope) (rows : List AgentConfig) : Prop :=
  s.1 = "default" ∧ s.2 ≠ "default" ∧ ∃ a ∈ rows, a.scope = s

variable {c} {s : Scope}

theorem shadowed_iff {α : Type} {scope : α → Scope} {rows : List α} :
    Shadowed defaultScope s scope rows ↔ Crossed s scope rows := by
  unfold Shadowed Crossed defaultScope
  constructor
  · rintro ⟨h₁,h₂,h⟩
    exact ⟨h₂.symm,h₁.symm,h⟩
  · rintro ⟨h₁,h₂,h⟩
    exact ⟨h₂.symm,h₁.symm,h⟩

theorem onePerScope_activeConfigs (c : Catalogue) (agent : AgentId) :
    OnePerScope AgentConfig.scope (c.activeConfigs agent) := by
  intro a ha b hb hab
  simp only [activeConfigs,List.mem_filter,Bool.and_eq_true,decide_eq_true_eq] at ha hb
  obtain ⟨ha,hia,hact⟩ := ha
  obtain ⟨hb,hib,hbct⟩ := hb
  have hma : a ∈ c.configs.filter (·.isActive) := List.mem_filter.mpr ⟨ha,hact⟩
  have hmb : b ∈ c.configs.filter (·.isActive) := List.mem_filter.mpr ⟨hb,hbct⟩
  have hid : a.agentId = b.agentId := hia.trans hib.symm
  exact List.inj_on_of_nodup_map c.one_active hma hmb (by simp [hab,hid])

theorem onePerScope_capabilitiesOf (c : Catalogue) (key : String) :
    OnePerScope Capability.scope (c.capabilitiesOf key) := by
  intro a ha b hb hab
  obtain ⟨ha,hka⟩ := List.mem_filter.mp ha
  obtain ⟨hb,hkb⟩ := List.mem_filter.mp hb
  have hkey : a.key = b.key := by
    simp only [decide_eq_true_eq] at hka hkb
    rw [hka,hkb]
  exact List.inj_on_of_nodup_map c.capability_scope_key ha hb (by simp [hab,hkey])

theorem resolve_capability_iff {cap : Capability} : cap ∈ c.resolvedCapabilities s ↔
    resolve defaultScope s (·.scope) (c.capabilitiesOf cap.key) = some cap := by
  rw [resolvedCapabilities,mem_distinctOn,resolve,capabilitiesOf,List.filter_filter,List.filter_filter]
  simp only [Bool.and_comm]

theorem scope_ne (user : Option UserContext) : (scopeOf user).1 ≠ "" ∧ (scopeOf user).2 ≠ "" := by
  have hor : ∀ s, orDefault s ≠ "" := by
    intro s
    unfold orDefault
    split
    · simp
    · assumption
  cases user with
  | none => simp [scopeOf,defaultScope]
  | some user => exact ⟨hor _,hor _⟩

/-- At a tenant of its own, the query without the default scope, with the default configuration in
its place, selects like the query with it. -/
theorem served_eq_resolve {agent : AgentId} (h₁ : s.1 ≠ "") (h₂ : s.2 ≠ "") (ht : s.1 ≠ "default") :
    c.servedConfig s agent = resolve defaultScope s (·.scope) (c.activeConfigs agent) := by
  have hone := onePerScope_activeConfigs c agent
  have hone' : OnePerScope AgentConfig.scope ((c.activeConfigs agent).filter (·.scope ≠ defaultScope)) := by
    intro a ha b hb
    exact hone a (List.mem_filter.mp ha).1 b (List.mem_filter.mp hb).1
  have hor : orDefault s.2 = s.2 := if_neg h₂
  have hfind : ∀ sc : Scope, ((c.activeConfigs agent).filter (·.scope ≠ defaultScope)).find? (·.scope = sc) =
      if sc = defaultScope then none else (c.activeConfigs agent).find? (·.scope = sc) := by
    intro sc
    rw [List.find?_filter]
    split
    · rename_i hsc
      simp [hsc,List.find?_eq_none]
    · rename_i hsc
      congr 1
      funext cfg
      by_cases hcfg : cfg.scope = sc
      · simp [hcfg,hsc]
      · simp [hcfg]
  have hs : s ≠ defaultScope := fun h => ht (by rw [h,defaultScope])
  have hs' : (s.1,"default") ≠ defaultScope := fun h => ht (Prod.mk.inj h).1
  simp only [servedConfig,h₁,ht,or_false,if_false,scopedConfig,hor]
  rw [resolve_eq hone,resolve_eq hone']
  simp only [queryOrder,List.findSome?_cons,List.findSome?_nil,hfind,if_neg hs,if_neg hs',
    Prod.mk.eta,show (defaultScope.1,s.2) = ("default",s.2) from rfl,
    show (s.1,defaultScope.2) = (s.1,"default") from rfl,if_true,defaultConfig]
  by_cases ho : s.2 = "default"
  · have hd : ("default",s.2) = defaultScope := by rw [ho,defaultScope]
    have hss : (s.1,"default") = s := by rw [← ho]
    simp only [hd,if_true,hss]
    cases h : (c.activeConfigs agent).find? (·.scope = s) with
    | some cfg => rfl
    | none => cases hdef : (c.activeConfigs agent).find? (·.scope = defaultScope) <;> rfl
  · have hd : ("default",s.2) ≠ defaultScope := fun h => ho (Prod.mk.inj h).2
    simp only [if_neg hd]
    cases h : (c.activeConfigs agent).find? (·.scope = s) with
    | some cfg => rfl
    | none =>
      cases h' : (c.activeConfigs agent).find? (·.scope = ("default",s.2)) with
      | some cfg => rfl
      | none =>
        cases ht' : (c.activeConfigs agent).find? (·.scope = (s.1,"default")) with
        | some cfg => rfl
        | none => cases hdef : (c.activeConfigs agent).find? (·.scope = defaultScope) <;> rfl

/-- A caller of the default tenant is served with the default configuration. -/
theorem served_eq_default {agent : AgentId} (ht : s.1 = "default") :
    c.servedConfig s agent = c.defaultConfig agent := by
  simp [servedConfig,ht]

theorem served_eq_precedent_iff {agent : AgentId} (h₁ : s.1 ≠ "") (h₂ : s.2 ≠ "")
    (hd : (c.defaultConfig agent).isSome = true) :
    c.servedConfig s agent = precedent defaultScope s (·.scope) (c.activeConfigs agent) ↔
      ¬ Crossed s (·.scope) (c.activeConfigs agent) ∧ ¬ Passed s (c.activeConfigs agent) := by
  have hone := onePerScope_activeConfigs c agent
  by_cases ht : s.1 = "default"
  · obtain ⟨cfg,hcfg⟩ := Option.isSome_iff_exists.mp hd
    have hcross : ¬ Crossed s (·.scope) (c.activeConfigs agent) := fun h => h.2.1 ht
    rw [served_eq_default ht,hcfg]
    simp only [hcross,not_false_eq_true,true_and]
    obtain ⟨hmem,hscope⟩ := (find_eq_some hone).mp hcfg
    have hs : (s.1,"default") = defaultScope := by rw [ht,defaultScope]
    have hchain : precedent defaultScope s (·.scope) (c.activeConfigs agent) =
        match (c.activeConfigs agent).find? (·.scope = s) with
        | some cfg' => some cfg'
        | none => some cfg := by
      have hdef : (c.activeConfigs agent).find? (·.scope = defaultScope) = some cfg := hcfg
      simp only [precedent,chain,List.findSome?_cons,show (s.1,defaultScope.2) = (s.1,"default") from rfl,
        hs,hdef]
      cases (c.activeConfigs agent).find? (·.scope = s) <;> rfl
    rw [hchain]
    cases hf : (c.activeConfigs agent).find? (·.scope = s) with
    | none =>
      have hnone := find_eq_none.mp hf
      simp only [true_iff]
      rintro ⟨-,-,a,ha,has⟩
      exact hnone a ha has
    | some cfg' =>
      obtain ⟨hmem',hscope'⟩ := (find_eq_some hone).mp hf
      simp only [Option.some.injEq]
      constructor
      · rintro rfl ⟨-,ho,-⟩
        apply ho
        rw [← hscope',hscope,defaultScope]
      · intro hpass
        have ho : s.2 = "default" := by
          by_contra ho
          exact hpass ⟨ht,ho,cfg',hmem',hscope'⟩
        have hsd : s = defaultScope := Prod.ext ht ho
        exact hone cfg hmem cfg' hmem' (by rw [hscope,hscope',hsd])
  · have hpass : ¬ Passed s (c.activeConfigs agent) := fun h => ht h.1
    rw [served_eq_resolve h₁ h₂ ht,resolve_eq_precedent_iff hone,shadowed_iff]
    simp only [hpass,not_false_eq_true,and_true]

/-- For every content of the tables and every caller: the three resolvers follow the chain exactly
when no row of the default tenant at the caller's organization comes before the tenant's own, and no
caller of the default tenant has an organization with a configuration of its own. -/
theorem followsChain_iff (c : Catalogue) (user : Option UserContext) :
    c.FollowsChain (scopeOf user) ↔
      (∀ key, ¬ Crossed (scopeOf user) (·.scope) (c.capabilitiesOf key)) ∧
      (∀ agent, ¬ Crossed (scopeOf user) (·.scope) (c.activeConfigs agent)) ∧
      ∀ agent, (c.defaultConfig agent).isSome = true → ¬ Passed (scopeOf user) (c.activeConfigs agent) := by
  obtain ⟨h₁,h₂⟩ := scope_ne user
  generalize scopeOf user = s at h₁ h₂ ⊢
  have hcap : ∀ key, resolve defaultScope s (·.scope) (c.capabilitiesOf key) =
      precedent defaultScope s (·.scope) (c.capabilitiesOf key) ↔
        ¬ Crossed s (·.scope) (c.capabilitiesOf key) := by
    intro key
    rw [resolve_eq_precedent_iff (onePerScope_capabilitiesOf c key),shadowed_iff]
  have hcfg : ∀ agent, c.lateralConfig s agent = precedent defaultScope s (·.scope) (c.activeConfigs agent) ↔
      ¬ Crossed s (·.scope) (c.activeConfigs agent) := by
    intro agent
    rw [lateralConfig,resolve_eq_precedent_iff (onePerScope_activeConfigs c agent),shadowed_iff]
  constructor
  · intro h
    refine ⟨?_,fun agent => (hcfg agent).mp (h.lateral agent),?_⟩
    · intro key
      rw [← hcap]
      apply Option.ext
      intro cap
      have hmem : cap ∈ c.capabilitiesOf key → cap.key = key := by simp [capabilitiesOf]
      by_cases hk : cap.key = key
      · subst hk
        rw [← h.capability,resolve_capability_iff]
      · refine iff_of_false ?_ ?_
        · exact fun he => hk (hmem (mem_of_resolve he))
        · exact fun he => hk (hmem (mem_of_precedent he).1)
    · intro agent hd
      exact ((served_eq_precedent_iff h₁ h₂ hd).mp (h.served agent hd)).2
  · rintro ⟨hc,ha,hp⟩
    refine ⟨?_,fun agent => (hcfg agent).mpr (ha agent),?_⟩
    · intro cap
      rw [resolve_capability_iff,(hcap cap.key).mpr (hc cap.key)]
    · intro agent hd
      exact (served_eq_precedent_iff h₁ h₂ hd).mpr ⟨ha agent,hp agent hd⟩

/-- An agent with a configuration at the default scope, at an organization of the default tenant, and
at a tenant. -/
def threeScopes : Catalogue :=
  { single with
    configs := [
      { agentId := 1, version := 1, source := .yaml, checksum := "a", config := .obj [],
        isActive := true },
      { agentId := 1, scope := ("default","org"), version := 1, source := .db, checksum := "b",
        config := .obj [], isActive := true },
      { agentId := 1, scope := ("acme","default"), version := 1, source := .db, checksum := "c",
        config := .obj [], isActive := true }]
    one_active := by decide
    scope_version := by decide }

/-- A caller of the tenant, in the organization. -/
def member : UserContext := { userId := "user", tenantCode := "acme", activeOrgId := some "org" }

/-- The configuration of the default tenant's organization is selected, not the tenant's own. -/
theorem threeScopes_not_followsChain :
    (threeScopes.lateralConfig ("acme","org") 1).map (·.scope) = some ("default","org") ∧
    (threeScopes.servedConfig ("acme","org") 1).map (·.scope) = some ("default","org") ∧
    ¬ threeScopes.FollowsChain (scopeOf (some member)) := by
  refine ⟨by decide,by decide,?_⟩
  intro h
  have hscope := congrArg (Option.map (·.scope)) (h.lateral 1)
  exact absurd hscope (by decide)

end Catalogue
end Saarathi
