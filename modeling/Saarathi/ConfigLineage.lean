import Saarathi.ConfigStatements
import Saarathi.Machine

/-!
# The lineage of an agent's configurations

As long as every row is at the default scope, each agent's rows are numbered from 1
in the order of their creation and one of them is active. Every operation keeps this,
and the deactivation that comes before an insertion keeps its statements apart.
-/

namespace Saarathi

open Machine

namespace AgentConfig

variable {rows : List AgentConfig} {f : AgentConfig → AgentConfig} {now : ℕ} {version : ℤ}

/-- Rows at the default scope, numbered from 1 in the order of their creation. -/
structure Numbered (rows : List AgentConfig) : Prop where
  scope : ∀ r ∈ rows, r.scope = defaultScope
  versions : rows.map (·.version) = (List.range rows.length).map fun i : ℕ => (i : ℤ) + 1

/-- Numbered rows, one of which is active. -/
structure Lineage (rows : List AgentConfig) : Prop extends Numbered rows where
  active : (rows.filter (·.isActive)).length = 1

theorem Numbered.nil : Numbered [] := ⟨by simp,rfl⟩

theorem Numbered.nodup (h : Numbered rows) : (rows.map (·.version)).Nodup := by
  rw [h.versions]
  apply List.Nodup.map _ List.nodup_range
  intro i j hij
  have hsucc : (i : ℤ) + 1 = (j : ℤ) + 1 := hij
  omega

theorem Numbered.nextVersion (h : Numbered rows) : nextVersion rows = rows.length + 1 := by
  unfold AgentConfig.nextVersion
  rcases hn : rows.length with - | n
  · obtain rfl := List.length_eq_zero_iff.mp hn
    rfl
  · have hmax : (rows.map (·.version)).max? = some ((n : ℤ) + 1) := by
      rw [h.versions,hn,List.max?_eq_some_iff]
      constructor
      · exact List.mem_map.mpr ⟨n,by simp,rfl⟩
      · intro v hv
        obtain ⟨i,hi,rfl⟩ := List.mem_map.mp hv
        have hlt : i < n + 1 := List.mem_range.mp hi
        omega
    rw [hmax]
    simp

theorem Numbered.map (h : Numbered rows) (hs : ∀ r, (f r).scope = r.scope)
    (hv : ∀ r, (f r).version = r.version) : Numbered (rows.map f) := by
  constructor
  · intro r hr
    obtain ⟨r',hr',rfl⟩ := List.mem_map.mp hr
    rw [hs,h.scope r' hr']
  · rw [List.map_map,List.length_map,← h.versions]
    exact List.map_congr_left fun r _ => hv r

theorem Numbered.concat (h : Numbered rows) {r : AgentConfig} (hs : r.scope = defaultScope)
    (hv : r.version = AgentConfig.nextVersion rows) : Numbered (rows ++ [r]) := by
  constructor
  · intro r' hr'
    rcases List.mem_append.mp hr' with hr' | hr'
    · exact h.scope r' hr'
    · rw [List.mem_singleton.mp hr',hs]
  · rw [List.map_append,h.versions,List.length_append,List.length_singleton,List.range_succ,
      List.map_append,List.map_singleton,List.map_singleton,hv,h.nextVersion]

theorem Numbered.deactivated (h : Numbered rows) : Numbered (rows.map AgentConfig.deactivated) :=
  h.map (fun _ => rfl) fun _ => rfl

theorem filter_deactivated (rows : List AgentConfig) :
    (rows.map AgentConfig.deactivated).filter (·.isActive) = [] := by
  rw [List.filter_map,List.map_eq_nil_iff,List.filter_eq_nil_iff]
  simp [AgentConfig.deactivated]

/-- A new active version, after the deactivation of the others. -/
theorem Numbered.store (h : Numbered rows) {r : AgentConfig} (hs : r.scope = defaultScope)
    (hv : r.version = AgentConfig.nextVersion rows) (ha : r.isActive = true) :
    Lineage (rows.map AgentConfig.deactivated ++ [r]) := by
  have hnext : AgentConfig.nextVersion (rows.map AgentConfig.deactivated) = AgentConfig.nextVersion rows := by
    rw [h.nextVersion,h.deactivated.nextVersion,List.length_map]
  refine ⟨h.deactivated.concat hs (hv.trans hnext.symm),?_⟩
  rw [List.filter_append,filter_deactivated]
  simp [ha]

/-- A new version that is not active. -/
theorem Lineage.storeInactive (h : Lineage rows) {r : AgentConfig} (hs : r.scope = defaultScope)
    (hv : r.version = AgentConfig.nextVersion rows) (ha : r.isActive = false) : Lineage (rows ++ [r]) := by
  refine ⟨h.toNumbered.concat hs hv,?_⟩
  rw [List.filter_append,List.length_append,h.active]
  simp [ha]

/-- A version that is there becomes the one that is active. -/
theorem Numbered.reactivate (h : Numbered rows) (hv : version ∈ rows.map (·.version)) :
    Lineage (rows.map (reactivate now version)) := by
  refine ⟨h.map reactivate_scope reactivate_version,?_⟩
  rw [List.filter_map,List.length_map]
  simp only [Function.comp_def,reactivate_isActive]
  have hcount : (rows.map (·.version)).count version = 1 := List.count_eq_one_of_mem h.nodup hv
  rw [List.count,List.countP_map,List.countP_eq_length_filter] at hcount
  have hbeq : (fun r : AgentConfig => decide (r.version = version)) =
      (fun v => v == version) ∘ fun r => r.version := by
    funext r
    simp [Bool.beq_eq_decide_eq]
  rw [hbeq,hcount]

/-- The active row. -/
theorem Lineage.exists_active (h : Lineage rows) : ∃ r, rows.filter (·.isActive) = [r] :=
  List.length_eq_one_iff.mp h.active

end AgentConfig

namespace Catalogue

variable {c c' : Catalogue} {agent : AgentId}

/-- A constraint on the rows of the same agent holds when it holds of each agent's rows. -/
theorem nodup_of_agents {β : Type} {g : AgentConfig → β} {cs : List AgentConfig}
    (h : ∀ agent, ((cs.filter (·.agentId = agent)).map g).Nodup) :
    (cs.map fun r => (r.agentId,g r)).Nodup := by
  rw [List.Nodup,List.pairwise_map,List.pairwise_iff_getElem]
  intro i j hi hj hij heq
  obtain ⟨hagent,hg⟩ := Prod.mk.inj heq
  have hpair := h cs[i].agentId
  rw [List.Nodup,List.pairwise_map,List.pairwise_filter,List.pairwise_iff_getElem] at hpair
  exact hpair i j hi hj hij (by simp) (by simp [hagent]) hg

end Catalogue

namespace AgentConfig

/-- Numbered rows, of which one at most is active. -/
structure Admissible (rows : List AgentConfig) : Prop extends Numbered rows where
  active : (rows.filter (·.isActive)).length ≤ 1

theorem Lineage.admissible {rows : List AgentConfig} (h : Lineage rows) : Admissible rows :=
  ⟨h.toNumbered,h.active.le⟩

theorem Admissible.nil : Admissible [] := ⟨.nil,by simp⟩

/-- The constraints hold of rows that are admissible agent by agent. -/
theorem constraints_of_admissible {cs : List AgentConfig}
    (h : ∀ agent, Admissible (cs.filter (·.agentId = agent))) : OneActive cs ∧ ScopeVersion cs := by
  constructor
  · apply Catalogue.nodup_of_agents
    intro agent
    rw [List.filter_comm]
    have hlength := (h agent).active
    revert hlength
    generalize (cs.filter (·.agentId = agent)).filter (·.isActive) = rows
    intro hlength
    rcases rows with - | ⟨r,- | ⟨r',rows⟩⟩
    · exact List.nodup_nil
    · simp
    · simp at hlength
  · apply Catalogue.nodup_of_agents
    intro agent
    apply List.Nodup.of_map Prod.snd
    rw [List.map_map]
    exact (h agent).nodup

end AgentConfig

/-- `x` goes through if its values fit, and raises otherwise. -/
def Storing {α : Type} : Bool → Except WriteError α → Prop
  | true,x => ∃ a, x = .ok a
  | false,x => x = .error .unstorable

theorem Storing.bind {α β : Type} {p : Bool} {x : Except WriteError α} {f : α → Except WriteError β}
    (hx : Storing p x) (hf : ∀ a, x = .ok a → ∃ b, f a = .ok b) : Storing p (x >>= f) := by
  cases p with
  | true =>
    obtain ⟨a,rfl⟩ := hx
    exact hf a rfl
  | false =>
    obtain rfl : x = .error .unstorable := hx
    rfl

namespace Catalogue

variable {c c' : Catalogue} {agent : AgentId}

/-- Every agent's rows are numbered, and one of them at most is active. -/
def Admissible (c : Catalogue) : Prop := ∀ agent, AgentConfig.Admissible (c.configsOf agent)

theorem Rewrites.admissible {rows : List AgentConfig} (h : Rewrites agent rows c c') (hc : c.Admissible)
    (hr : AgentConfig.Admissible rows) : c'.Admissible := by
  intro b
  by_cases hb : b = agent
  · rw [hb,h.rows]
    exact hr
  · rw [h.others b hb]
    exact hc b

theorem updateConfigs_ok {p : AgentConfig → Bool} {f : AgentConfig → AgentConfig} (hc : c.Admissible)
    (hf : ∀ r, (f r).agentId = r.agentId)
    (hr : AgentConfig.Admissible ((c.configsOf agent).map fun r => if p r then f r else r)) :
    ∃ c', c.updateConfigs agent p f = .ok c' := by
  have hrows : ∀ b, AgentConfig.Admissible ((c.configs.map fun r =>
      if r.agentId = agent && p r then f r else r).filter (·.agentId = b)) := by
    intro b
    rw [filter_update hf]
    split
    · exact hr
    · exact hc b
  obtain ⟨h₁,h₂⟩ := AgentConfig.constraints_of_admissible hrows
  exact ⟨_,setConfigs_ok h₁ h₂⟩

/-- An insertion that leaves the rows admissible goes through, if the columns take the row. -/
theorem insertConfig_of_admissible {jsonb : Bool} {r : AgentConfig} (hc : c.Admissible)
    (hr : AgentConfig.Admissible (c.configsOf r.agentId ++ [r])) :
    Storing (jsonb && fitsInteger r.version) (c.insertConfig jsonb r) := by
  have hrows : ∀ b, AgentConfig.Admissible ((c.configs ++ [r]).filter (·.agentId = b)) := by
    intro b
    by_cases hb : r.agentId = b
    · subst hb
      simpa [configsOf] using hr
    · simpa [configsOf,hb] using hc b
  obtain ⟨h₁,h₂⟩ := AgentConfig.constraints_of_admissible hrows
  unfold insertConfig
  cases jsonb && fitsInteger r.version with
  | true => exact ⟨_,setConfigs_ok h₁ h₂⟩
  | false => rfl

/-- Switching rows off leaves them admissible. -/
theorem admissible_deactivated {rows : List AgentConfig} (h : AgentConfig.Admissible rows)
    (p : AgentConfig → Bool) :
    AgentConfig.Admissible (rows.map fun r => if p r then r.deactivated else r) := by
  refine ⟨h.toNumbered.map (fun r => ?_) (fun r => ?_),?_⟩
  · split <;> rfl
  · split <;> rfl
  · refine le_trans ?_ h.active
    rw [List.filter_map,List.length_map]
    apply List.Sublist.length_le
    apply List.monotone_filter_right
    intro r hr
    simp only [Function.comp_apply] at hr
    split at hr
    · cases hr
    · exact hr

/-- Switching the other versions off and then one on goes through. -/
theorem reactivate_ok {p : AgentConfig → Bool} {version : ℤ} (now : ℕ) (hc : c.Admissible)
    (hp : ∀ r, r.version ≠ version → p r = true) (hv : version ∈ (c.configsOf agent).map (·.version)) :
    ∃ c₁ c₂, c.updateConfigs agent p AgentConfig.deactivated = .ok c₁ ∧
      c₁.updateConfigs agent (·.version = version) (AgentConfig.activated now) = .ok c₂ := by
  have hoff := admissible_deactivated (hc agent) p
  obtain ⟨c₁,h₁⟩ := updateConfigs_ok (f := AgentConfig.deactivated) hc (fun _ => rfl) hoff
  have hr₁ := updateConfigs_rewrites h₁ fun _ => rfl
  have hc₁ := hr₁.admissible hc hoff
  have hrows : (c₁.configsOf agent).map (fun r => if decide (r.version = version) then r.activated now else r) =
      (c.configsOf agent).map (reactivate now version) := by
    rw [hr₁.rows,reactivate_rows hp]
  have hlineage : AgentConfig.Lineage ((c.configsOf agent).map (reactivate now version)) := (hc agent).toNumbered.reactivate hv
  have hadm := hlineage.admissible
  obtain ⟨c₂,h₂⟩ := updateConfigs_ok (f := AgentConfig.activated now) hc₁ (fun _ => rfl) (hrows ▸ hadm)
  exact ⟨c₁,c₂,h₁,h₂⟩

/-- Making room for a new version goes through, and so does inserting it if the columns take it. -/
theorem withVersion_of_admissible {p : AgentConfig → Bool} {adopt jsonb : Bool} {r : AgentConfig}
    (hp : ∀ r, r.isActive = true → p r = true) (hc : c.Admissible) (hs : r.scope = defaultScope)
    (hv : r.version = AgentConfig.nextVersion (c.configsOf r.agentId)) (ha : r.isActive = adopt) : ∃ c₁,
      (if adopt = true then c.updateConfigs r.agentId p AgentConfig.deactivated else pure c) = .ok c₁ ∧
      Storing (jsonb && fitsInteger r.version) (c₁.insertConfig jsonb r) := by
  cases adopt with
  | false =>
    refine ⟨c,rfl,insertConfig_of_admissible hc ⟨(hc r.agentId).toNumbered.concat hs hv,?_⟩⟩
    rw [List.filter_append]
    simpa [ha] using (hc r.agentId).active
  | true =>
    have hoff := admissible_deactivated (hc r.agentId) p
    obtain ⟨c₁,h₁⟩ := updateConfigs_ok (f := AgentConfig.deactivated) hc (fun _ => rfl) hoff
    have hr₁ := updateConfigs_rewrites h₁ fun _ => rfl
    refine ⟨c₁,h₁,insertConfig_of_admissible (hr₁.admissible hc hoff) ?_⟩
    rw [hr₁.rows,map_deactivated hp]
    exact ((hc r.agentId).toNumbered.store hs hv ha).admissible

end Catalogue

/-- What the synchronisation of a file does with the rows of its agent. -/
inductive SyncBranch where
  | unchanged
  | retain
  | reclaim (version : ℤ)
  | store (adopt : Bool)

namespace SyncBranch

def rows (agent : AgentId) (spec : SpecFile) (now : ℕ) : SyncBranch → List AgentConfig → List AgentConfig
  | unchanged,rows => rows
  | retain,rows => rows
  | reclaim version,rows => rows.map (reactivate now version)
  | store adopt,rows => Catalogue.withVersion adopt
      (Catalogue.versionRow agent (AgentConfig.nextVersion rows) .yaml spec adopt now) rows

def report (key : String) : SyncBranch → SyncReport
  | unchanged => { unchanged := [key] }
  | retain => { drifted := [key] }
  | reclaim _ => { updated := [key] }
  | store adopt => if adopt then { updated := [key] } else { drifted := [key] }

/-- The columns take what the branch stores. -/
def storable (spec : SpecFile) (rows : List AgentConfig) : SyncBranch → Bool
  | store _ => spec.jsonb && fitsInteger (AgentConfig.nextVersion rows)
  | _ => true

end SyncBranch

namespace ConfigSyncService

variable {mitraEnabled : Bool} {mode : SyncMode} {fetch : Fetch} {now : ℕ} {c : Catalogue}
  {agent : AgentId} {spec : SpecFile} {w : Written}

/-- The branch that the rows of the agent lead to. -/
def branch (mode : SyncMode) (fetch : Fetch) (rows : List AgentConfig) (spec : SpecFile) : SyncBranch :=
  let active := activeConfig fetch rows
  match latestYaml fetch rows with
  | some latest =>
    if latest.checksum = spec.checksum then
      if active.any (·.source = .db) then
        if mode = .force then .reclaim latest.version else .retain
      else .unchanged
    else .store (adopts mode active)
  | none => .store (adopts mode active)

theorem latestYaml_mem {rows : List AgentConfig} {latest : AgentConfig}
    (h : latestYaml fetch rows = some latest) : latest ∈ rows ∧ latest.source = .yaml ∧
      ∀ r ∈ rows, r.source = .yaml → r.version ≤ latest.version := by
  have hmem := fetch.mem _ _ h
  simp only [List.mem_filter,decide_eq_true_eq,List.all_eq_true] at hmem
  exact ⟨hmem.1.1,hmem.1.2,fun r hr hs => hmem.2 r ⟨hr,hs⟩⟩

theorem syncChanged_writes {active : Option AgentConfig}
    (h : syncChanged mode now c agent spec active = .ok w) :
    c.Rewrites agent ((SyncBranch.store (adopts mode active)).rows agent spec now (c.configsOf agent))
      w.catalogue ∧ w.report = (SyncBranch.store (adopts mode active)).report spec.key := by
  unfold syncChanged at h
  simp only [bind_eq_ok,pure_eq_ok] at h
  obtain ⟨c₁,h₁,c₂,h₂,rfl⟩ := h
  exact ⟨Catalogue.withVersion_rewrites (fun r hr => hr) rfl h₁ h₂,rfl⟩

/-- A synchronisation of configurations takes its branch. -/
theorem syncConfigs_writes (h : syncConfigs mode fetch now c agent spec = .ok w) :
    c.Rewrites agent ((branch mode fetch (c.configsOf agent) spec).rows agent spec now (c.configsOf agent))
      w.catalogue ∧ w.report = (branch mode fetch (c.configsOf agent) spec).report spec.key := by
  unfold syncConfigs at h
  unfold branch
  cases hlatest : latestYaml fetch (c.configsOf agent) with
  | none =>
    simp only [hlatest] at h ⊢
    exact syncChanged_writes h
  | some latest =>
    simp only [hlatest] at h ⊢
    split at h
    · rename_i hsum
      rw [if_pos hsum]
      unfold syncUnchanged at h
      split at h
      · rename_i hdb
        rw [if_pos hdb]
        split at h
        · rename_i hforce
          rw [if_pos hforce]
          simp only [bind_eq_ok,pure_eq_ok] at h
          obtain ⟨c₁,h₁,c₂,h₂,rfl⟩ := h
          exact ⟨Catalogue.reactivate_rewrites (fun r hr => by simpa using hr) h₁ h₂,rfl⟩
        · rename_i hforce
          rw [if_neg hforce]
          obtain rfl := pure_eq_ok.mp h
          exact ⟨.refl agent c,rfl⟩
      · rename_i hdb
        rw [if_neg hdb]
        obtain rfl := pure_eq_ok.mp h
        exact ⟨.refl agent c,rfl⟩
    · rename_i hsum
      rw [if_neg hsum]
      exact syncChanged_writes h

theorem syncChanged_of_admissible (hc : c.Admissible) (active : Option AgentConfig) :
    Storing ((SyncBranch.store (adopts mode active)).storable spec (c.configsOf agent))
      (syncChanged mode now c agent spec active) := by
  let row := Catalogue.versionRow agent (AgentConfig.nextVersion (c.configsOf agent)) .yaml spec
    (adopts mode active) now
  have hroom : ∃ c₁, makeRoom c agent (adopts mode active) = .ok c₁ ∧
      Storing (spec.jsonb && fitsInteger row.version) (c₁.insertConfig spec.jsonb row) :=
    Catalogue.withVersion_of_admissible (r := row) (fun r hr => hr) hc rfl rfl rfl
  obtain ⟨c₁,h₁,h₂⟩ := hroom
  have hrun : syncChanged mode now c agent spec active = (do
      let c ← makeRoom c agent (adopts mode active)
      let c ← c.insertConfig spec.jsonb row
      pure {
        catalogue := c
        versions := [(agent,row.version)]
        report := if adopts mode active then { updated := [spec.key] } else { drifted := [spec.key] } }) := rfl
  rw [hrun,h₁]
  exact h₂.bind fun c₂ _ => ⟨_,rfl⟩

/-- A synchronisation of configurations goes through, if the columns take what it stores. -/
theorem syncConfigs_of_admissible (hc : c.Admissible) :
    Storing ((branch mode fetch (c.configsOf agent) spec).storable spec (c.configsOf agent))
      (syncConfigs mode fetch now c agent spec) := by
  unfold syncConfigs branch
  cases hlatest : latestYaml fetch (c.configsOf agent) with
  | none => exact syncChanged_of_admissible hc _
  | some latest =>
    simp only
    by_cases hsum : latest.checksum = spec.checksum
    · rw [if_pos hsum,if_pos hsum]
      unfold syncUnchanged
      by_cases hdb : (activeConfig fetch (c.configsOf agent)).any (·.source = .db) = true
      · rw [if_pos hdb,if_pos hdb]
        by_cases hforce : mode = .force
        · rw [if_pos hforce,if_pos hforce]
          have hv : latest.version ∈ (c.configsOf agent).map (·.version) :=
            List.mem_map_of_mem (latestYaml_mem hlatest).1
          have hp : ∀ r : AgentConfig, r.version ≠ latest.version → decide (r.version ≠ latest.version) = true :=
            fun r hr => by simpa using hr
          obtain ⟨c₁,c₂,h₁,h₂⟩ := Catalogue.reactivate_ok now hc hp hv
          exact ⟨_,bind_eq_ok.mpr ⟨c₁,h₁,bind_eq_ok.mpr ⟨c₂,h₂,rfl⟩⟩⟩
        · rw [if_neg hforce,if_neg hforce]
          exact ⟨_,rfl⟩
      · rw [if_neg hdb,if_neg hdb]
        exact ⟨_,rfl⟩
    · rw [if_neg hsum,if_neg hsum]
      exact syncChanged_of_admissible hc _

/-- Every branch leaves a lineage. -/
theorem branch_lineage {rows : List AgentConfig} (h : AgentConfig.Lineage rows) :
    AgentConfig.Lineage ((branch mode fetch rows spec).rows agent spec now rows) := by
  have hstore : ∀ adopt, AgentConfig.Lineage ((SyncBranch.store adopt).rows agent spec now rows) := by
    intro adopt
    cases adopt with
    | true => exact h.toNumbered.store rfl rfl rfl
    | false => exact h.storeInactive rfl rfl rfl
  unfold branch
  cases hlatest : latestYaml fetch rows with
  | none => exact hstore _
  | some latest =>
    simp only
    split
    · split
      · split
        · exact h.toNumbered.reactivate (List.mem_map_of_mem (latestYaml_mem hlatest).1)
        · exact h
      · exact h
    · exact hstore _

end ConfigSyncService

/-- The rows of every agent are a lineage, and every row is an agent's. -/
structure Catalogue.Lineage (c : Catalogue) : Prop where
  owned : ∀ b, b ∉ c.agents.map (·.id) → c.configsOf b = []
  rows : ∀ a ∈ c.agents, AgentConfig.Lineage (c.configsOf a.id)

/-- What was raised is about no index of the configurations. -/
def WriteError.Elsewhere (e : WriteError) : Prop :=
  e ≠ .unique .agentCfgOneActive ∧ e ≠ .unique .agentCfgScopeVersion

theorem Storing.outcome {α : Type} {p : Bool} {x : Except WriteError α} (h : Storing p x) :
    Outcome (fun a => x = .ok a) WriteError.Elsewhere x := by
  cases p with
  | true =>
    obtain ⟨a,rfl⟩ := h
    exact rfl
  | false =>
    obtain rfl : x = .error .unstorable := h
    exact ⟨by simp,by simp⟩

namespace Catalogue

variable {c c' : Catalogue} {agent : AgentId}

theorem Lineage.of_mem (h : c.Lineage) (ha : agent ∈ c.agents.map (·.id)) :
    AgentConfig.Lineage (c.configsOf agent) := by
  obtain ⟨a,hmem,rfl⟩ := List.mem_map.mp ha
  exact h.rows a hmem

theorem Lineage.admissible (h : c.Lineage) : c.Admissible := by
  intro b
  by_cases hb : b ∈ c.agents.map (·.id)
  · exact (h.of_mem hb).admissible
  · rw [h.owned b hb]
    exact .nil

theorem Lineage.rewrites {rows : List AgentConfig} (h : c.Lineage) (hw : c.Rewrites agent rows c')
    (ha : agent ∈ c.agents.map (·.id)) (hr : AgentConfig.Lineage rows) : c'.Lineage := by
  constructor
  · intro b hb
    rw [hw.agents] at hb
    have hne : b ≠ agent := fun e => hb (e ▸ ha)
    rw [hw.others b hne,h.owned b hb]
  · intro a hmem
    rw [hw.agents] at hmem
    by_cases hne : a.id = agent
    · rw [hne,hw.rows]
      exact hr
    · rw [hw.others a.id hne]
      exact h.rows a hmem

/-- A change of the agents that leaves their ids. -/
theorem Lineage.of_agents (h : c.Lineage) (hc : c'.configs = c.configs)
    (hids : c'.agents.map (·.id) = c.agents.map (·.id)) : c'.Lineage := by
  constructor
  · intro b hb
    rw [hids] at hb
    rw [configsOf_of_configs hc,h.owned b hb]
  · intro a ha
    rw [configsOf_of_configs hc]
    exact h.of_mem (hids ▸ List.mem_map_of_mem ha)

theorem setAgents_outcome (as : List Agent) :
    Outcome (fun c' => c'.configs = c.configs ∧ c'.agents = as) WriteError.Elsewhere (c.setAgents as) := by
  refine Outcome.of_eq (fun c' h => setAgents_eq h) fun e h => ?_
  have hcases : e = .unique .agentsSingleDefault ∨ e = .unique .agentsName ∨ e = .unique .agentsKey ∨
      e = .unique .agentsPk := by
    unfold setAgents at h
    split at h
    · split at h
      · split at h
        · split at h
          · cases h
          · exact .inl (Except.error.inj h).symm
        · exact .inr (.inl (Except.error.inj h).symm)
      · exact .inr (.inr (.inl (Except.error.inj h).symm))
    · exact .inr (.inr (.inr (Except.error.inj h).symm))
  rcases hcases with rfl | rfl | rfl | rfl <;> exact ⟨by simp,by simp⟩

/-- An update of an agent's own row leaves the lineages. -/
theorem updateAgent_outcome (f : Agent → Agent) (hc : c.Lineage) (hf : ∀ a, (f a).id = a.id) :
    Outcome (fun c' => c'.Lineage ∧ c'.agents.map (·.id) = c.agents.map (·.id)) WriteError.Elsewhere
      (c.updateAgent agent f) := by
  refine Outcome.of_eq (fun c' h => ?_) fun e h => ?_
  · obtain ⟨hconf,has⟩ := setAgents_eq h
    have hids : c'.agents.map (·.id) = c.agents.map (·.id) := by
      rw [has,List.map_map]
      apply List.map_congr_left
      intro a _
      by_cases ha : a.id = agent <;> simp [ha,hf]
    exact ⟨hc.of_agents hconf hids,hids⟩
  · have hout := setAgents_outcome (c := c) (c.agents.map fun a => if a.id = agent then f a else a)
    rw [show c.setAgents _ = _ from h] at hout
    exact hout

end Catalogue

namespace ConfigSyncService

variable {mitraEnabled : Bool} {mode : SyncMode} {fetch : Fetch} {now : ℕ} {c : Catalogue}
  {agent : AgentId} {spec : SpecFile} {w : Written}

theorem createAgent_lineage (hc : c.Lineage) (h : createAgent mitraEnabled now c spec = .ok w) :
    w.catalogue.Lineage := by
  obtain ⟨hagents,hrows,hothers,-,-⟩ := createAgent_writes h
  constructor
  · intro b hb
    rw [hagents,List.map_append,List.mem_append,not_or] at hb
    have hne : b ≠ c.freshAgent := by simpa [agentRow] using hb.2
    rw [hothers b hne,hc.owned b hb.1]
  · intro a ha
    rw [hagents] at ha
    rcases List.mem_append.mp ha with ha | ha
    · have hne : a.id ≠ c.freshAgent :=
        Catalogue.ne_freshAgent (List.mem_append_left _ (List.mem_map_of_mem ha))
      rw [hothers a.id hne]
      exact hc.rows a ha
    · obtain rfl := List.mem_singleton.mp ha
      have hid : (agentRow mitraEnabled now c.freshAgent spec).id = c.freshAgent := rfl
      rw [hid,hrows]
      exact AgentConfig.Numbered.nil.store rfl rfl rfl

/-- The first version of an agent that is there now. -/
def firstVersion (now : ℕ) (c : Catalogue) (spec : SpecFile) (c₁ : Catalogue) : Except WriteError Written := do
  let c₂ ← c₁.insertConfig spec.jsonb (Catalogue.versionRow c.freshAgent 1 .yaml spec true now)
  pure { catalogue := c₂, versions := [(c.freshAgent,1)], report := { created := [spec.key] } }

theorem createAgent_eq (hfits : spec.fitsColumns = true) : createAgent mitraEnabled now c spec =
    c.setAgents (c.agents ++ [agentRow mitraEnabled now c.freshAgent spec]) >>= firstVersion now c spec := by
  unfold createAgent
  rw [if_pos hfits]
  rfl

theorem firstVersion_storing (hc : c.Admissible) {c₁ : Catalogue} (hconf : c₁.configs = c.configs) :
    Storing spec.jsonb (firstVersion now c spec c₁) := by
  let row := Catalogue.versionRow c.freshAgent 1 .yaml spec true now
  have hadm : c₁.Admissible := by
    intro b
    rw [Catalogue.configsOf_of_configs hconf]
    exact hc b
  have hrow : AgentConfig.Admissible (c₁.configsOf row.agentId ++ [row]) := by
    have hnone : c₁.configsOf row.agentId = [] := by
      rw [Catalogue.configsOf_of_configs hconf]
      exact Catalogue.configsOf_freshAgent c
    rw [hnone]
    exact (AgentConfig.Numbered.nil.store rfl rfl rfl).admissible
  have hinsert : Storing (spec.jsonb && fitsInteger row.version) (c₁.insertConfig spec.jsonb row) :=
    Catalogue.insertConfig_of_admissible hadm hrow
  rw [show fitsInteger row.version = true from rfl,Bool.and_true] at hinsert
  exact hinsert.bind fun c₂ _ => ⟨_,rfl⟩

theorem createAgent_outcome (hc : c.Lineage) :
    Outcome (fun w => w.catalogue.Lineage) WriteError.Elsewhere (createAgent mitraEnabled now c spec) := by
  refine Outcome.of_eq (fun w h => createAgent_lineage hc h) fun e h => ?_
  by_cases hfits : spec.fitsColumns = true
  · have hout : Outcome (fun _ => True) WriteError.Elsewhere (createAgent mitraEnabled now c spec) := by
      rw [createAgent_eq hfits]
      refine (Catalogue.setAgents_outcome _).bind fun c₁ h₁ => ?_
      have hfirst : Storing spec.jsonb (firstVersion now c spec c₁) := firstVersion_storing hc.admissible h₁.1
      exact hfirst.outcome.mono fun _ _ => trivial
    rw [h] at hout
    exact hout
  · unfold createAgent at h
    rw [if_neg hfits] at h
    obtain rfl := Except.error.inj h
    exact ⟨by simp,by simp⟩

/-- One specification keeps the lineages. -/
theorem syncSpec_outcome (hc : c.Lineage) : Outcome (fun w => w.catalogue.Lineage) WriteError.Elsewhere
    (syncSpec mitraEnabled mode fetch now c spec) := by
  unfold syncSpec
  cases hfind : c.agents.find? (·.key = spec.key) with
  | none => exact createAgent_outcome hc
  | some a =>
    have ha : a.id ∈ c.agents.map (·.id) := List.mem_map_of_mem (List.mem_of_find?_eq_some hfind)
    simp only
    split
    · refine (Catalogue.updateAgent_outcome (identityOf now spec) hc fun _ => rfl).bind fun c₁ ⟨hc₁,hids₁⟩ => ?_
      have hstatus : Outcome (fun c₂ => c₂.Lineage ∧ c₂.agents.map (·.id) = c₁.agents.map (·.id))
          WriteError.Elsewhere (syncStatus mitraEnabled now c₁ a.id spec) := by
        unfold syncStatus
        split
        · exact Catalogue.updateAgent_outcome _ hc₁ fun _ => rfl
        · exact ⟨hc₁,rfl⟩
      refine hstatus.bind fun c₂ ⟨hc₂,hids₂⟩ => ?_
      have ha₂ : a.id ∈ c₂.agents.map (·.id) := by
        rw [hids₂,hids₁]
        exact ha
      have hsync : Storing _ (syncConfigs mode fetch now c₂ a.id spec) :=
        syncConfigs_of_admissible hc₂.admissible
      refine hsync.outcome.mono fun w hw => ?_
      exact hc₂.rewrites (syncConfigs_writes hw).1 ha₂ (branch_lineage (hc₂.of_mem ha₂))
    · exact ⟨by simp,by simp⟩

theorem syncSpecs_outcome {specs : List SpecFile} : ∀ {c : Catalogue}, c.Lineage →
    Outcome (fun w => w.catalogue.Lineage) WriteError.Elsewhere
      (syncSpecs mitraEnabled mode fetch now specs c) := by
  induction specs with
  | nil => exact fun hc => hc
  | cons spec specs ih =>
    intro c hc
    refine (syncSpec_outcome hc).bind fun w hw => ?_
    exact (ih hw).bind fun w' hw' => hw'

theorem disableOrphans_outcome {keys : List String} (hc : c.Lineage) :
    Outcome (fun c' => c'.Lineage) WriteError.Elsewhere (disableOrphans now c keys) := by
  refine (Catalogue.setAgents_outcome _).mono fun c' ⟨hconf,hagents⟩ => hc.of_agents hconf ?_
  rw [hagents,List.map_map]
  apply List.map_congr_left
  intro a _
  simp only [Function.comp_apply]
  split <;> rfl

theorem sync_outcome {files : List (Option SpecFile)} (hc : c.Lineage) :
    Outcome (fun w => w.catalogue.Lineage) WriteError.Elsewhere
      (sync mitraEnabled mode fetch now files c) := by
  unfold sync
  split
  · exact hc
  · split
    · exact ⟨by simp,by simp⟩
    · split
      · refine (syncSpecs_outcome hc).bind fun w hw => ?_
        exact (disableOrphans_outcome hw).bind fun c' hc' => hc'
      · exact ⟨by simp,by simp⟩

end ConfigSyncService

namespace AdminRoutes

variable {now : ℕ} {key : String} {c : Catalogue}

theorem createConfigVersion_outcome {body : Option SpecFile} (hc : c.Lineage) :
    Outcome (fun r => r.2.catalogue.Lineage) WriteError.Elsewhere (createConfigVersion now key body c) := by
  unfold createConfigVersion
  cases hfind : c.agents.find? (·.key = key) with
  | none => exact hc
  | some a =>
    cases body with
    | none => exact hc
    | some spec =>
      simp only
      split
      · exact hc
      · have ha : a.id ∈ c.agents.map (·.id) := List.mem_map_of_mem (List.mem_of_find?_eq_some hfind)
        let row := Catalogue.versionRow a.id (AgentConfig.nextVersion (c.configsOf a.id)) .db spec true now
        obtain ⟨c₁,h₁,h₂⟩ : ∃ c₁, c.updateConfigs a.id (fun _ => true) AgentConfig.deactivated = .ok c₁ ∧
            Storing (spec.jsonb && fitsInteger row.version) (c₁.insertConfig spec.jsonb row) :=
          Catalogue.withVersion_of_admissible (r := row) (fun _ _ => rfl) hc.admissible rfl rfl rfl
        have hversion : AgentConfig.nextVersion (c₁.configsOf a.id) =
            AgentConfig.nextVersion (c.configsOf a.id) := nextVersion_deactivated h₁
        rw [h₁]
        change Outcome _ _ (c₁.insertConfig _ _ >>= _)
        rw [hversion]
        refine h₂.outcome.bind fun c₂ h₂ => ?_
        have hw : c.Rewrites a.id (Catalogue.withVersion true row (c.configsOf a.id)) c₂ :=
          Catalogue.withVersion_rewrites (fun _ _ => rfl) rfl h₁ h₂
        exact hc.rewrites hw ha ((hc.of_mem ha).toNumbered.store rfl rfl rfl)

theorem activateConfigVersion_outcome {version : Option ℤ} (hc : c.Lineage) :
    Outcome (fun r => r.2.catalogue.Lineage) WriteError.Elsewhere
      (activateConfigVersion now key version c) := by
  unfold activateConfigVersion
  cases hfind : c.agents.find? (·.key = key) with
  | none => exact hc
  | some a =>
    cases version with
    | none => exact hc
    | some version =>
      simp only
      split
      · rename_i hany
        have ha : a.id ∈ c.agents.map (·.id) := List.mem_map_of_mem (List.mem_of_find?_eq_some hfind)
        have hv : version ∈ (c.configsOf a.id).map (·.version) := by simpa using hany
        obtain ⟨c₁,c₂,h₁,h₂⟩ := Catalogue.reactivate_ok now hc.admissible (fun _ _ => rfl) hv
        have hw := Catalogue.reactivate_rewrites (fun _ _ => rfl) h₁ h₂
        rw [h₁]
        change Outcome _ _ (c₁.updateConfigs a.id _ _ >>= _)
        rw [h₂]
        exact hc.rewrites hw ha ((hc.of_mem ha).toNumbered.reactivate hv)
      · exact hc

theorem updateAgentStatus_outcome {status : Option AgentStatus} (hc : c.Lineage) :
    Outcome (fun r => r.2.catalogue.Lineage) WriteError.Elsewhere (updateAgentStatus now key status c) := by
  unfold updateAgentStatus
  cases hfind : c.agents.find? (·.key = key) with
  | none => exact hc
  | some a =>
    cases status with
    | none => exact hc
    | some status =>
      have hupdate : Outcome _ _ (c.updateAgent a.id fun a => { a with status := status, updatedAt := now }) :=
        Catalogue.updateAgent_outcome _ hc fun _ => rfl
      exact hupdate.bind fun c₁ h₁ => h₁.1

end AdminRoutes

theorem CatalogueWrite.perform_outcome {fetch : Fetch} {now : ℕ} {c : Catalogue} (hc : c.Lineage)
    (op : CatalogueWrite) :
    Outcome (fun w => w.catalogue.Lineage) WriteError.Elsewhere (op.perform fetch now c) := by
  cases op with
  | config op =>
    cases op with
    | sync mitraEnabled mode files => exact ConfigSyncService.sync_outcome hc
    | create key body => exact (AdminRoutes.createConfigVersion_outcome hc).map fun _ h => h
    | activate key version => exact (AdminRoutes.activateConfigVersion_outcome hc).map fun _ h => h
  | status key value => exact (AdminRoutes.updateAgentStatus_outcome hc).map fun _ h => h

namespace Catalogue

variable {c₀ c : Catalogue}

theorem Empty.lineage (h : c.Empty) : c.Lineage := by
  constructor
  · intro b _
    rw [configsOf,h.2,List.filter_nil]
  · intro a ha
    rw [h.1] at ha
    cases ha

theorem Lineage.apply {c' : Catalogue} {a : Applied} (h : c.Lineage) (hs : c.apply a = some c') :
    c'.Lineage := by
  have hout : Outcome _ _ (a.write.perform a.fetch a.now c) := a.write.perform_outcome h
  unfold Catalogue.apply at hs
  cases hp : a.write.perform a.fetch a.now c with
  | error e =>
    rw [hp] at hs
    obtain rfl : c = c' := Option.some.inj hs
    exact h
  | ok w =>
    rw [hp] at hs hout
    obtain rfl : w.catalogue = c' := Option.some.inj hs
    exact hout

/-- Every history of operations leaves lineages. -/
theorem lineage_of_reach (h₀ : c₀.Empty) (h : Reach Catalogue.apply anyAct c₀ c) : c.Lineage :=
  h.invariant h₀.lineage fun _ _ _ hc _ hs => hc.apply hs

end Catalogue

/-- After every history of operations, each agent has one active configuration, and its versions are
numbered from 1 in the order of their creation; no statement of a next operation would leave two
active ones. -/
theorem one_active_one_lineage {c₀ c : Catalogue} (h₀ : c₀.Empty)
    (h : Reach Catalogue.apply anyAct c₀ c) :
    (∀ a ∈ c.agents, ((c.configsOf a.id).filter (·.isActive)).length = 1 ∧
      (c.configsOf a.id).map (·.version) =
        (List.range (c.configsOf a.id).length).map fun i : ℕ => (i : ℤ) + 1) ∧
    ∀ a : Applied, a.write.perform a.fetch a.now c ≠ .error (.unique .agentCfgOneActive) := by
  have hc := Catalogue.lineage_of_reach h₀ h
  constructor
  · intro a ha
    exact ⟨(hc.rows a ha).active,(hc.rows a ha).versions⟩
  · intro a herror
    have hout : Outcome _ _ (a.write.perform a.fetch a.now c) := a.write.perform_outcome hc
    rw [herror] at hout
    exact hout.1 rfl

/-- A YAML file of the agent "assistant" with this text. -/
def assistantFile (text : String) : SpecFile where
  key := "assistant"
  name := "Saarthi"
  description := "Answers questions"
  agentType := .llm
  isDefault := true
  canonical := .obj [("prompt",.str text)]
  checksum := text

/-- An operation on the agent "assistant". -/
def applied (now : ℕ) (op : ConfigWrite) : Applied := ⟨.config op,firstRow,now⟩

/-- A file, a changed file, an override, and the first version again. -/
def fourOperations : List Applied := [
  applied 1 (.sync true .safe [some (assistantFile "v1")]),
  applied 2 (.sync true .safe [some (assistantFile "v2")]),
  applied 3 (.create "assistant" (some (assistantFile "v3"))),
  applied 4 (.activate "assistant" (some 1))]

theorem one_active_one_lineage_four : ∃ c a, Reach Catalogue.apply anyAct Catalogue.blank c ∧ a ∈ c.agents ∧
    (c.configsOf a.id).length = 3 ∧ ((c.configsOf a.id).filter (·.isActive)).length = 1 := by
  have hrun : ((run Catalogue.apply anyAct Catalogue.blank fourOperations).any fun c =>
      c.agents.any fun a => decide ((c.configsOf a.id).length = 3)) = true := by
    decide +kernel
  obtain ⟨c,hr,hP⟩ := exists_reach_of_run hrun
  obtain ⟨a,ha,hlength⟩ := List.any_eq_true.mp hP
  have hone := (one_active_one_lineage Catalogue.blank_empty hr).1 a ha
  exact ⟨c,a,hr,ha,of_decide_eq_true hlength,hone.1⟩

end Saarathi
