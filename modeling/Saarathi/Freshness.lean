import Saarathi.Resync

/-!
# The registry of a process and the tables

A process reloads its registry when the largest `updated_at` of the enabled agents
is not the one that it recorded at its last load. Other processes write the tables.
-/

namespace Saarathi

open Machine

namespace Catalogue

variable {c c' : Catalogue} {agent : AgentId} {now : ℕ}

/-- The columns that the query of `reload` reads. -/
structure SnapshotRow where
  id : AgentId
  key : String
  name : String
  description : String
  agentType : AgentType
  isDefault : Bool
  updatedAt : ℕ
  config : Json
  checksum : String

def snapshotRow (a : Agent) (cfg : AgentConfig) : SnapshotRow where
  id := a.id
  key := a.key
  name := a.name
  description := a.description
  agentType := a.agentType
  isDefault := a.isDefault
  updatedAt := a.updatedAt
  config := cfg.config
  checksum := cfg.checksum

/-- The rows that the query of `reload` returns. -/
def snapshotRows (c : Catalogue) : List SnapshotRow := c.reloadRows.map fun (a,cfg) => snapshotRow a cfg

/-- The `max_ts` of `reload`. -/
def loadedMax (c : Catalogue) : Option ℕ := (c.snapshotRows.map (·.updatedAt)).max?

/-- `SELECT MAX(updated_at) FROM agents WHERE status = 'enabled'`. -/
def maxUpdatedAt (c : Catalogue) : Option ℕ :=
  ((c.agents.filter (·.status = .enabled)).map (·.updatedAt)).max?

/-- What a row of the query becomes. -/
def SnapshotRow.register (v : Validation) (row : SnapshotRow) : Option RegisteredAgent :=
  (v.agentSpec row.config).map fun spec => {
    id := row.id
    key := row.key
    name := row.name
    description := row.description
    agentType := row.agentType
    isDefault := row.isDefault
    checksum := row.checksum
    spec := spec }

theorem reload_of_rows (v : Validation) (h : c'.snapshotRows = c.snapshotRows) : c'.reload v = c.reload v := by
  have hrows : ∀ c : Catalogue, c.reloadRows.map (fun (a,cfg) => (v.agentSpec cfg.config).map (registered a cfg)) =
      c.snapshotRows.map (SnapshotRow.register v) := by
    intro c
    rw [snapshotRows,List.map_map]
    rfl
  have hmap : ∀ agents, c'.reloadRows.mapM (fun (a,cfg) => (v.agentSpec cfg.config).map (registered a cfg)) =
      some agents ↔ c.reloadRows.mapM (fun (a,cfg) => (v.agentSpec cfg.config).map (registered a cfg)) =
        some agents := by
    intro agents
    rw [mapM_eq_some_iff,mapM_eq_some_iff,hrows,hrows,h]
  unfold reload
  rw [Option.ext hmap]

/-- The active configuration of an agent is at the default scope. -/
theorem Lineage.defaultConfigs (h : c.Lineage) {a : Agent} (ha : a ∈ c.agents) :
    ∃ r, (c.activeConfigs a.id).filter (·.scope = defaultScope) = [r] := by
  have hrows := h.rows a ha
  obtain ⟨r,hr⟩ := hrows.exists_active
  have hactive : c.activeConfigs a.id = [r] := by
    rw [← hr,configsOf,List.filter_filter]
    simp [activeConfigs,Bool.and_comm]
  have hmem : r ∈ c.configsOf a.id := by
    have hself : r ∈ (c.configsOf a.id).filter (·.isActive) := by simp [hr]
    exact (List.mem_filter.mp hself).1
  refine ⟨r,?_⟩
  rw [hactive]
  simp [hrows.scope r hmem]

/-- Each enabled agent has one row in the query. -/
theorem Lineage.reloadRows (h : c.Lineage) :
    c.reloadRows.map (·.1) = c.agents.filter (·.status = .enabled) := by
  unfold Catalogue.reloadRows
  rw [List.map_flatMap]
  have hone : ∀ a ∈ c.agents.filter (·.status = .enabled),
      (((c.activeConfigs a.id).filter (·.scope = defaultScope)).map fun cfg => (a,cfg)).map (·.1) = [a] := by
    intro a ha
    obtain ⟨r,hr⟩ := h.defaultConfigs (List.mem_filter.mp ha).1
    rw [hr]
    rfl
  rw [List.flatMap_congr hone]
  simp

theorem Lineage.maxUpdatedAt (h : c.Lineage) : c.maxUpdatedAt = c.loadedMax := by
  rw [Catalogue.maxUpdatedAt,← h.reloadRows,loadedMax,snapshotRows,List.map_map,List.map_map]
  rfl

/-- An agent's stamp is the time of the write, or what it was. -/
def Stamps (now : ℕ) (c c' : Catalogue) : Prop :=
  ∀ a' ∈ c'.agents, a'.updatedAt = now ∨ ∃ a ∈ c.agents, a'.updatedAt = a.updatedAt

theorem Stamps.of_agents (h : c'.agents = c.agents) : Stamps now c c' := by
  intro a ha
  rw [h] at ha
  exact .inr ⟨a,ha,rfl⟩

theorem Stamps.trans {c'' : Catalogue} (h : Stamps now c c') (h' : Stamps now c' c'') : Stamps now c c'' := by
  intro a'' ha''
  rcases h' a'' ha'' with hnow | ⟨a',ha',he⟩
  · exact .inl hnow
  · rw [he]
    exact h a' ha'

theorem Stamps.of_map {f : Agent → Agent} (h : c'.agents = c.agents.map f)
    (hf : ∀ a, (f a).updatedAt = now ∨ (f a).updatedAt = a.updatedAt) : Stamps now c c' := by
  intro a' ha'
  rw [h] at ha'
  obtain ⟨a,ha,rfl⟩ := List.mem_map.mp ha'
  rcases hf a with hnow | hold
  · exact .inl hnow
  · exact .inr ⟨a,ha,hold⟩

theorem updateAgent_stamps {f : Agent → Agent} (hf : ∀ a, (f a).updatedAt = now)
    (h : c.updateAgent agent f = .ok c') : Stamps now c c' := by
  apply Stamps.of_map (setAgents_eq h).2
  intro a
  by_cases ha : a.id = agent
  · exact .inl (by simp [ha,hf])
  · exact .inr (by simp [ha])

end Catalogue

namespace ConfigSyncService

open Catalogue

variable {mitraEnabled : Bool} {mode : SyncMode} {fetch : Fetch} {now : ℕ} {c : Catalogue}
  {spec : SpecFile} {w : Written}

theorem syncSpec_stamps (h : syncSpec mitraEnabled mode fetch now c spec = .ok w) :
    Stamps now c w.catalogue := by
  obtain ⟨hfits,-,-⟩ := syncSpec_effect h
  cases hfind : c.agentOf spec.key with
  | none =>
    unfold syncSpec at h
    rw [show c.agents.find? _ = none from hfind] at h
    intro a ha
    rw [(createAgent_writes h).1] at ha
    rcases List.mem_append.mp ha with ha | ha
    · exact .inr ⟨a,ha,rfl⟩
    · rw [List.mem_singleton.mp ha]
      exact .inl rfl
  | some a =>
    rw [syncSpec_some hfind hfits] at h
    obtain ⟨c₁,h₁,h₂⟩ := bind_eq_ok.mp h
    have hrow : Stamps now c c₁ := by
      apply Stamps.of_map (updateRow_eq h₁).2
      intro b
      by_cases hb : b.id = a.id
      · left
        rw [if_pos hb]
        unfold syncedAgent
        split <;> rfl
      · exact .inr (by rw [if_neg hb])
    exact hrow.trans (.of_agents (syncConfigs_writes h₂).1.agents)

theorem syncSpecs_stamps {specs : List SpecFile} : ∀ {c : Catalogue} {w : Written},
    syncSpecs mitraEnabled mode fetch now specs c = .ok w → Stamps now c w.catalogue := by
  induction specs with
  | nil =>
    intro c w h
    obtain rfl := pure_eq_ok.mp h
    exact .of_agents rfl
  | cons spec specs ih =>
    intro c w h
    simp only [syncSpecs,bind_eq_ok,pure_eq_ok] at h
    obtain ⟨w₁,h₁,w₂,h₂,rfl⟩ := h
    exact (syncSpec_stamps h₁).trans (ih (w := w₂) h₂)

theorem sync_stamps {files : List (Option SpecFile)} (h : sync mitraEnabled mode fetch now files c = .ok w) :
    Stamps now c w.catalogue := by
  by_cases hmode : mode = .off
  · unfold sync at h
    rw [if_pos hmode] at h
    obtain rfl := pure_eq_ok.mp h
    exact .of_agents rfl
  · obtain ⟨specs,rfl,-⟩ := sync_specs hmode h
    obtain ⟨w₁,hs⟩ := sync_ok hmode h
    refine (syncSpecs_stamps hs.written).trans ?_
    apply Stamps.of_map (setAgents_eq hs.orphans).2
    intro a
    split
    · exact .inl rfl
    · exact .inr rfl

end ConfigSyncService

/-- Every operation stamps with its own time. -/
theorem CatalogueWrite.perform_stamps {fetch : Fetch} {now : ℕ} {c : Catalogue} {op : CatalogueWrite}
    {w : Written} (h : op.perform fetch now c = .ok w) : c.Stamps now w.catalogue := by
  cases op with
  | config op =>
    cases op with
    | sync mitraEnabled mode files => exact ConfigSyncService.sync_stamps h
    | create key body =>
      obtain ⟨r,hr,rfl⟩ := map_eq_ok.mp h
      rcases AdminRoutes.createConfigVersion_writes hr with hsame | ⟨a,spec,-,-,hw⟩
      · exact .of_agents (by rw [hsame])
      · exact .of_agents hw.agents
    | activate key version =>
      obtain ⟨r,hr,rfl⟩ := map_eq_ok.mp h
      rcases AdminRoutes.activateConfigVersion_writes hr with hsame | ⟨a,version,-,hw⟩
      · exact .of_agents (by rw [hsame])
      · exact .of_agents hw.agents
  | status key value =>
    obtain ⟨r,hr,rfl⟩ := map_eq_ok.mp h
    rcases AdminRoutes.updateAgentStatus_writes hr with hsame | ⟨a,status,-,hw⟩
    · exact .of_agents (by rw [hsame])
    · exact Catalogue.updateAgent_stamps (fun _ => rfl) hw

/-- The fields of the registry object that a reload writes. -/
structure RegistryState where
  registry : AgentRegistry := ⟨[]⟩
  version : ℕ := 0
  loadedAt : ℕ := 0
  maxUpdatedAt : Option ℕ := none

namespace RegistryState

variable (v : Validation) (ttl : ℕ)

/-- `reload`; the time is the process's own clock. -/
def reload (clock : ℕ) (c : Catalogue) (s : RegistryState) : RegistryState :=
  match c.reload v with
  | some registry => {
      registry := registry
      version := s.version + 1
      loadedAt := clock
      maxUpdatedAt := c.loadedMax }
  | none => s

/-- `maybe_reload`, where no query raises. -/
def maybeReload (clock : ℕ) (c : Catalogue) (s : RegistryState) : RegistryState :=
  if clock - s.loadedAt < ttl then s
  else if c.maxUpdatedAt ≠ s.maxUpdatedAt then s.reload v clock c
  else { s with loadedAt := clock }

/-- The registry is what `reload` would build from the tables. -/
def Fresh (c : Catalogue) (s : RegistryState) : Prop := ∀ registry, c.reload v = some registry → s.registry = registry

end RegistryState

/-- The tables, the time of their last transaction, and the registry of one process. -/
structure RegistryProcess where
  tables : Catalogue
  now : ℕ := 0
  registry : RegistryState := {}

inductive RegistryEvent where
  | write (a : Applied)
  | reload (clock : ℕ) (answered : Bool)
  | maybeReload (clock : ℕ) (answered : Bool)

namespace RegistryProcess

variable (v : Validation) (ttl : ℕ)

/-- Transactions follow each other in time; a query that raises leaves the registry. -/
def step (s : RegistryProcess) : RegistryEvent → Option RegistryProcess
  | .write a => if s.now < a.now then
      (s.tables.apply a).map fun c => { s with tables := c, now := a.now }
    else none
  | .reload clock answered => some { s with
      registry := if answered then s.registry.reload v clock s.tables else s.registry }
  | .maybeReload clock answered => some { s with
      registry := if answered then s.registry.maybeReload v ttl clock s.tables else s.registry }

end RegistryProcess

/-- A reload is due: an enabled agent has a later stamp than the recorded one, or none has that one. -/
def Catalogue.Due (recorded : Option ℕ) (c : Catalogue) : Prop :=
  match recorded with
  | none => ∃ a ∈ c.agents, a.status = .enabled
  | some m => (∃ a ∈ c.agents, a.status = .enabled ∧ m < a.updatedAt) ∨
      ∀ a ∈ c.agents, a.status = .enabled → a.updatedAt ≠ m

theorem Catalogue.maxUpdatedAt_eq_some {c : Catalogue} {m : ℕ} : c.maxUpdatedAt = some m ↔
    (∃ a ∈ c.agents, a.status = .enabled ∧ a.updatedAt = m) ∧
      ∀ a ∈ c.agents, a.status = .enabled → a.updatedAt ≤ m := by
  unfold maxUpdatedAt
  rw [List.max?_eq_some_iff]
  simp only [List.mem_map,List.mem_filter,decide_eq_true_eq,and_assoc,forall_exists_index,and_imp]
  constructor
  · rintro ⟨hmem,hmax⟩
    exact ⟨hmem,fun a ha henabled => hmax _ a ha henabled rfl⟩
  · rintro ⟨hmem,hmax⟩
    refine ⟨hmem,?_⟩
    rintro b a ha henabled rfl
    exact hmax a ha henabled

/-- The comparison of `maybe_reload`. -/
theorem Catalogue.due_iff {recorded : Option ℕ} {c : Catalogue} :
    c.Due recorded ↔ c.maxUpdatedAt ≠ recorded := by
  cases recorded with
  | none =>
    unfold Due maxUpdatedAt
    rw [Ne,List.max?_eq_none_iff]
    simp
  | some m =>
    rw [Ne,maxUpdatedAt_eq_some,not_and_or]
    unfold Due
    push Not
    exact or_comm

namespace RegistryProcess

variable {v : Validation} {ttl : ℕ}

/-- A write that leaves what `reload` reads, or stamps an agent that is enabled after it, or leaves a
reload due. -/
def Noticed (s : RegistryProcess) : RegistryEvent → Prop
  | .write a => ∀ c, s.tables.apply a = some c →
      c.snapshotRows = s.tables.snapshotRows ∨
      (∃ b ∈ c.agents, b.status = .enabled ∧ b.updatedAt = a.now) ∨
      c.Due s.registry.maxUpdatedAt
  | _ => True

/-- The registry is what the tables say, or the next check will find that it is not. -/
structure Current (v : Validation) (s : RegistryProcess) : Prop where
  lineage : s.tables.Lineage
  stamps : ∀ a ∈ s.tables.agents, a.updatedAt ≤ s.now
  recorded : ∀ m, s.registry.maxUpdatedAt = some m → m ≤ s.now
  fresh : s.registry.Fresh v s.tables ∨ s.tables.maxUpdatedAt ≠ s.registry.maxUpdatedAt

theorem Current.start {c₀ : Catalogue} (h₀ : c₀.Empty) : Current v { tables := c₀ } := by
  refine ⟨h₀.lineage,?_,fun m hm => (by cases hm),.inl fun registry hr => ?_⟩
  · intro a ha
    rw [h₀.1] at ha
    cases ha
  · have hrows : c₀.reloadRows = [] := by simp [Catalogue.reloadRows,h₀.1]
    unfold Catalogue.reload at hr
    rw [hrows] at hr
    exact Option.some.inj hr

theorem loadedMax_le {c : Catalogue} {now : ℕ} (hc : c.Lineage) (h : ∀ a ∈ c.agents, a.updatedAt ≤ now) {m : ℕ}
    (hm : c.loadedMax = some m) : m ≤ now := by
  rw [← hc.maxUpdatedAt,Catalogue.maxUpdatedAt_eq_some] at hm
  obtain ⟨⟨a,ha,-,rfl⟩,-⟩ := hm
  exact h a ha

/-- A load, whether or not it finds every configuration valid. -/
theorem Current.reload {s : RegistryProcess} (h : Current v s) (clock : ℕ) :
    Current v { s with registry := s.registry.reload v clock s.tables } ∧
      (s.registry.reload v clock s.tables).Fresh v s.tables := by
  unfold RegistryState.reload
  cases hr : s.tables.reload v with
  | none =>
    refine ⟨h,fun registry hreg => ?_⟩
    rw [hr] at hreg
    cases hreg
  | some registry =>
    have hfresh : RegistryState.Fresh v s.tables (({
        registry := registry
        version := s.registry.version + 1
        loadedAt := clock
        maxUpdatedAt := s.tables.loadedMax } : RegistryState)) := by
      intro registry' hreg
      exact Option.some.inj (hr.symm.trans hreg)
    exact ⟨⟨h.lineage,h.stamps,fun m hm => loadedMax_le h.lineage h.stamps hm,.inl hfresh⟩,hfresh⟩

theorem Current.maybeReload {s : RegistryProcess} (h : Current v s) (clock : ℕ) :
    Current v { s with registry := s.registry.maybeReload v ttl clock s.tables } := by
  unfold RegistryState.maybeReload
  split
  · exact h
  · split
    · exact (h.reload clock).1
    · exact ⟨h.lineage,h.stamps,h.recorded,h.fresh⟩

/-- A check after the time to live leaves the registry fresh. -/
theorem Current.checked {s : RegistryProcess} (h : Current v s) {clock : ℕ}
    (hexpired : ttl ≤ clock - s.registry.loadedAt) :
    (s.registry.maybeReload v ttl clock s.tables).Fresh v s.tables := by
  unfold RegistryState.maybeReload
  rw [if_neg (Nat.not_lt.mpr hexpired)]
  split
  · exact (h.reload clock).2
  · rename_i hsame
    exact h.fresh.resolve_right hsame

theorem Current.write {s : RegistryProcess} {a : Applied} {c : Catalogue} (h : Current v s) (hnow : s.now < a.now)
    (hok : s.Noticed (.write a)) (hs : s.tables.apply a = some c) :
    Current v { s with tables := c, now := a.now } := by
  have hlineage : c.Lineage := h.lineage.apply hs
  have hstamps : s.tables.Stamps a.now c := by
    unfold Catalogue.apply at hs
    cases hp : a.write.perform a.fetch a.now s.tables with
    | ok w =>
      rw [hp] at hs
      obtain rfl := Option.some.inj hs
      exact CatalogueWrite.perform_stamps hp
    | error e =>
      rw [hp] at hs
      obtain rfl := Option.some.inj hs
      exact .of_agents rfl
  refine ⟨hlineage,?_,fun m hm => (h.recorded m hm).trans hnow.le,?_⟩
  · intro b hb
    rcases hstamps b hb with hb | ⟨b',hb',he⟩
    · exact hb.le
    · exact he.le.trans ((h.stamps b' hb').trans hnow.le)
  · change RegistryState.Fresh v c s.registry ∨ c.maxUpdatedAt ≠ s.registry.maxUpdatedAt
    rcases hok c hs with hrows | ⟨b,hb,henabled,hstamp⟩ | hdue
    · rcases h.fresh with hfresh | hmax
      · left
        intro registry hr
        rw [Catalogue.reload_of_rows v hrows] at hr
        exact hfresh registry hr
      · right
        rw [hlineage.maxUpdatedAt,Catalogue.loadedMax,hrows,← Catalogue.loadedMax,← h.lineage.maxUpdatedAt]
        exact hmax
    · right
      intro hmax
      rw [eq_comm] at hmax
      cases hm : s.registry.maxUpdatedAt with
      | none =>
        rw [hm] at hmax
        have hdue : c.Due none := ⟨b,hb,henabled⟩
        exact Catalogue.due_iff.mp hdue hmax.symm
      | some m =>
        have hle : m ≤ s.now := h.recorded m hm
        have hdue : c.Due (some m) := .inl ⟨b,hb,henabled,by omega⟩
        rw [hm] at hmax
        exact Catalogue.due_iff.mp hdue hmax.symm
    · exact .inr (Catalogue.due_iff.mp hdue)

theorem Current.step {s s' : RegistryProcess} {e : RegistryEvent} (h : Current v s) (hok : s.Noticed e)
    (hs : s.step v ttl e = some s') : Current v s' := by
  cases e with
  | write a =>
    change (if s.now < a.now then _ else none) = some s' at hs
    split at hs
    · rename_i hnow
      obtain ⟨c,hc,rfl⟩ := Option.map_eq_some_iff.mp hs
      exact h.write hnow hok hc
    · cases hs
  | reload clock answered =>
    obtain rfl := Option.some.inj hs
    cases answered with
    | true => exact (h.reload clock).1
    | false => exact h
  | maybeReload clock answered =>
    obtain rfl := Option.some.inj hs
    cases answered with
    | true => exact h.maybeReload clock
    | false => exact h

end RegistryProcess

/-- In every run whose writes are each noticed, a check after the time to live leaves the registry as
`reload` would build it from the tables. -/
theorem registry_fresh {v : Validation} {ttl clock : ℕ} {c₀ : Catalogue} {s s' : RegistryProcess} (h₀ : c₀.Empty)
    (h : Reach (RegistryProcess.step v ttl) RegistryProcess.Noticed { tables := c₀ } s)
    (hexpired : ttl ≤ clock - s.registry.loadedAt)
    (hs : s.step v ttl (.maybeReload clock true) = some s') : s'.registry.Fresh v s'.tables := by
  have hcurrent : s.Current v :=
    h.invariant (RegistryProcess.Current.start h₀) fun _ _ _ hi hok hstep => hi.step hok hstep
  obtain rfl := Option.some.inj hs
  exact hcurrent.checked hexpired

/-- The write stamps an agent that is enabled after it. -/
def RegistryProcess.stamped (s : RegistryProcess) : RegistryEvent → Bool
  | .write a => (s.tables.apply a).all fun c =>
      c.agents.any fun b => b.status = .enabled && b.updatedAt = a.now
  | _ => true

theorem RegistryProcess.noticed_of_stamped {s : RegistryProcess} {e : RegistryEvent} (h : s.stamped e = true) :
    s.Noticed e := by
  cases e with
  | write a =>
    intro c hc
    simp only [stamped,hc,Option.all_some,List.any_eq_true,Bool.and_eq_true,decide_eq_true_eq] at h
    exact .inr (.inl h)
  | _ => trivial

/-- A specification with the configuration's prompt. -/
def promptSpecs : Validation where
  agentSpec config := some { key := "assistant", kind := .llm (promptOf config) }
  accessSpec _ := none

/-- The checksums of the registry after a check, and those that `reload` would load. -/
def checksumsAfter (s : RegistryProcess) : List String × Option (List String) :=
  (((s.registry.maybeReload promptSpecs 60 100 s.tables).registry.snapshot.map (·.checksum)),
    (s.tables.reload promptSpecs).map fun r => r.snapshot.map (·.checksum))

/-- A file is synchronised, loaded, changed, and synchronised again. -/
def changedFile : List RegistryEvent := [
  .write (applied 1 (.sync true .safe [some (assistantFile "v1")])),
  .reload 1 true,
  .write (applied 2 (.sync true .safe [some (assistantFile "v2")]))]

theorem registry_fresh_changed : ∃ s s',
    Reach (RegistryProcess.step promptSpecs 60) RegistryProcess.Noticed { tables := Catalogue.blank } s ∧
      s.step promptSpecs 60 (.maybeReload 100 true) = some s' ∧
        s'.registry.registry.snapshot.map (·.checksum) = ["v2"] ∧ s'.registry.Fresh promptSpecs s'.tables := by
  have hrun : ((run (RegistryProcess.step promptSpecs 60) (fun s e => s.stamped e = true)
      { tables := Catalogue.blank } changedFile).any fun s =>
        decide (60 ≤ 100 - s.registry.loadedAt) && decide ((checksumsAfter s).1 = ["v2"])) = true := by
    decide +kernel
  obtain ⟨s,hr,hP⟩ := exists_reach_of_run hrun
  rw [Bool.and_eq_true,decide_eq_true_eq,decide_eq_true_eq] at hP
  have hnoticed := hr.mono fun _ _ h => RegistryProcess.noticed_of_stamped h
  exact ⟨s,_,hnoticed,rfl,hP.2,registry_fresh Catalogue.blank_empty hnoticed hP.1 rfl⟩

/-- A file is synchronised, loaded, and overridden by a new version. -/
def newVersion : List RegistryEvent := [
  .write (applied 1 (.sync true .safe [some (assistantFile "v1")])),
  .reload 1 true,
  .write (applied 2 (.create "assistant" (some (assistantFile "v2"))))]

/-- A new version stamps no agent, and the registry keeps the old one. -/
theorem new_version_unseen : ∃ s s',
    Reach (RegistryProcess.step promptSpecs 60) anyAct { tables := Catalogue.blank } s ∧
      60 ≤ 100 - s.registry.loadedAt ∧ s.step promptSpecs 60 (.maybeReload 100 true) = some s' ∧
        ¬s'.registry.Fresh promptSpecs s'.tables := by
  have hrun : ((run (RegistryProcess.step promptSpecs 60) anyAct { tables := Catalogue.blank } newVersion).any
      fun s => decide (60 ≤ 100 - s.registry.loadedAt) &&
        decide (checksumsAfter s = (["v1"],some ["v2"]))) = true := by
    decide +kernel
  obtain ⟨s,hr,hP⟩ := exists_reach_of_run hrun
  rw [Bool.and_eq_true,decide_eq_true_eq,decide_eq_true_eq] at hP
  refine ⟨s,_,hr,hP.1,rfl,fun hfresh => ?_⟩
  obtain ⟨hv1,hv2⟩ := Prod.mk.inj hP.2
  obtain ⟨registry,hreload,hsums⟩ := Option.map_eq_some_iff.mp hv2
  have hregistry : (s.registry.maybeReload promptSpecs 60 100 s.tables).registry = registry :=
    hfresh registry hreload
  rw [hregistry,hsums] at hv1
  exact absurd hv1 (by decide)

end Saarathi
