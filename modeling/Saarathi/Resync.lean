import Saarathi.InForce

/-!
# Synchronising again

A synchronisation that goes through leaves each file settled: its agent has the
columns that the file asks for, and its rows lead to a branch that writes nothing.
-/

namespace Saarathi

open Machine

/-- The row without its timestamp. -/
def Agent.untimed (a : Agent) : Agent := { a with updatedAt := 0 }

namespace Catalogue

variable {c c' c'' : Catalogue} {key : String}

/-- The same rows, but for timestamps. -/
structure SameRows (c c' : Catalogue) : Prop where
  agents : c'.agents.map Agent.untimed = c.agents.map Agent.untimed
  configs : c'.configs = c.configs

theorem SameRows.refl (c : Catalogue) : SameRows c c := ⟨rfl,rfl⟩

theorem SameRows.trans (h : SameRows c c') (h' : SameRows c' c'') : SameRows c c'' :=
  ⟨h'.agents.trans h.agents,h'.configs.trans h.configs⟩

theorem SameRows.agentOf (h : SameRows c c') (key : String) :
    (c'.agentOf key).map Agent.untimed = (c.agentOf key).map Agent.untimed := by
  have hkey : (fun a : Agent => decide (a.key = key)) ∘ Agent.untimed = fun a => decide (a.key = key) := rfl
  have hfind := congrArg (List.find? fun a : Agent => decide (a.key = key)) h.agents
  rwa [List.find?_map,List.find?_map,hkey] at hfind

/-- A change of timestamps breaks no constraint. -/
theorem setAgents_untimed {as : List Agent} (h : as.map Agent.untimed = c.agents.map Agent.untimed) :
    ∃ c', c.setAgents as = .ok c' ∧ SameRows c c' := by
  have hid : as.map (·.id) = c.agents.map (·.id) := by
    simpa [Function.comp_def,Agent.untimed] using congrArg (List.map (·.id)) h
  have hkey : as.map (·.key) = c.agents.map (·.key) := by
    simpa [Function.comp_def,Agent.untimed] using congrArg (List.map (·.key)) h
  have hname : as.map (·.name) = c.agents.map (·.name) := by
    simpa [Function.comp_def,Agent.untimed] using congrArg (List.map (·.name)) h
  have hdefault : (as.filter (·.isDefault)).length = (c.agents.filter (·.isDefault)).length := by
    have hmap : as.map (·.isDefault) = c.agents.map (·.isDefault) := by
      simpa [Function.comp_def,Agent.untimed] using congrArg (List.map (·.isDefault)) h
    rw [← List.countP_eq_length_filter,← List.countP_eq_length_filter]
    simpa [List.countP_map,Function.comp_def] using congrArg (List.countP fun b => b) hmap
  have hsingle : Agent.SingleDefault as := by
    unfold Agent.SingleDefault
    rw [hdefault]
    exact c.single_default
  exact ⟨_,setAgents_ok (hid ▸ c.agent_id) (hkey ▸ c.agent_key) (hname ▸ c.agent_name) hsingle,h,rfl⟩

/-- An update of one agent that changes its timestamp only. -/
theorem updateAgent_untimed {a : Agent} {f : Agent → Agent} (ha : a ∈ c.agents)
    (hf : (f a).untimed = a.untimed) : ∃ c', c.updateAgent a.id f = .ok c' ∧ SameRows c c' := by
  apply setAgents_untimed
  rw [List.map_map]
  apply List.map_congr_left
  intro b hb
  by_cases hid : b.id = a.id
  · have hba : b = a := List.inj_on_of_nodup_map c.agent_id hb ha hid
    simp [hba,hf]
  · simp [hid]

end Catalogue

/-- The columns of the agent are what the file asks for. -/
structure Agent.Follows (mitraEnabled : Bool) (spec : SpecFile) (a : Agent) : Prop where
  name : a.name = spec.name
  description : a.description = spec.description
  agentType : a.agentType = spec.agentType
  sortOrder : a.sortOrder = spec.sortOrder
  status : spec.agentType = .remoteFlow → a.status = if mitraEnabled then spec.status else .disabled

namespace ConfigSyncService

open AgentConfig Catalogue

variable {mitraEnabled : Bool} {mode : SyncMode} {fetch fetch' : Fetch} {now : ℕ} {c c' : Catalogue}
  {agent : AgentId} {spec : SpecFile} {w : Written} {rows : List AgentConfig} {a : Agent}

/-- A branch that writes nothing. -/
def SyncBranch.Idle (b : SyncBranch) : Prop := b = .unchanged ∨ b = .retain

theorem latestYaml_store {adopt : Bool} (h : Numbered rows) :
    LatestYaml ((SyncBranch.store adopt).rows agent spec now rows)
      (versionRow agent (nextVersion rows) .yaml spec adopt now) := by
  refine ⟨by simp [SyncBranch.rows,withVersion],rfl,fun r hr _ => ?_⟩
  have hversions : ∀ r ∈ rows, r.version ≤ nextVersion rows := by
    intro r hr
    have hmem : r.version ∈ rows.map (·.version) := List.mem_map_of_mem hr
    rw [h.versions] at hmem
    obtain ⟨i,hi,hv⟩ := List.mem_map.mp hmem
    have hlt : i < rows.length := List.mem_range.mp hi
    rw [h.nextVersion]
    omega
  rcases List.mem_append.mp hr with hr | hr
  · cases adopt with
    | false => exact hversions r hr
    | true =>
      obtain ⟨r',hr',rfl⟩ := List.mem_map.mp hr
      exact hversions r' hr'
  · rw [List.mem_singleton.mp hr]

theorem filter_store_active : ((SyncBranch.store true).rows agent spec now rows).filter (·.isActive) =
    [versionRow agent (nextVersion rows) .yaml spec true now] := by
  simp only [SyncBranch.rows,withVersion,if_true]
  rw [List.filter_append,filter_deactivated]
  rfl

theorem filter_store_inactive : ((SyncBranch.store false).rows agent spec now rows).filter (·.isActive) =
    rows.filter (·.isActive) := by
  simp [SyncBranch.rows,withVersion,versionRow]

/-- Rows whose latest YAML row is the file lead to a branch that writes nothing, but for an override
in force mode. -/
theorem idle_of_latest {latest active : AgentConfig} (hrows : Lineage rows) (hl : LatestYaml rows latest)
    (hsum : latest.checksum = spec.checksum) (hactive : rows.filter (·.isActive) = [active])
    (hforce : active.source = .db → mode ≠ .force) : SyncBranch.Idle (branch mode fetch rows spec) := by
  rcases branch_cases hrows hactive mode fetch spec with ⟨latest',-,-,hbranch⟩ | ⟨hsum',-⟩
  · rw [hbranch]
    by_cases hdb : active.source = .db
    · rw [if_pos hdb,if_neg (hforce hdb)]
      exact .inr rfl
    · rw [if_neg hdb]
      exact .inl rfl
  · exact absurd hsum (hsum' latest hl)

/-- After its branch, the rows of a file lead to a branch that writes nothing. -/
theorem branch_idle (hrows : Lineage rows) (spec : SpecFile) :
    SyncBranch.Idle (branch mode fetch' ((branch mode fetch rows spec).rows agent spec now rows) spec) := by
  obtain ⟨active,hactive⟩ := hrows.exists_active
  rcases branch_cases hrows hactive mode fetch spec with ⟨latest,hl,hsum,hbranch⟩ | ⟨-,hbranch⟩
  · rw [hbranch]
    by_cases hreclaim : active.source = .db ∧ mode = .force
    · rw [if_pos hreclaim.1,if_pos hreclaim.2]
      have hv : latest.version ∈ rows.map (·.version) := List.mem_map_of_mem hl.mem
      have hnew : (rows.map (reactivate now latest.version)).filter (·.isActive) = [latest.activated now] := by
        rw [filter_reactivate,hrows.toNumbered.filter_version hl.mem]
        rfl
      have hsource : latest.source = .db → mode ≠ .force := by
        intro hdb
        rw [hl.source] at hdb
        cases hdb
      exact idle_of_latest (hrows.toNumbered.reactivate hv) (hl.reactivate now) hsum hnew hsource
    · have hrows' : ((if active.source = .db then
          if mode = .force then .reclaim latest.version else .retain
        else .unchanged : SyncBranch).rows agent spec now rows) = rows := by
        split
        · rename_i hdb
          have hforce : mode ≠ .force := fun h => hreclaim ⟨hdb,h⟩
          rw [if_neg hforce]
          rfl
        · rfl
      rw [hrows']
      exact idle_of_latest hrows hl hsum hactive fun hdb hforce => hreclaim ⟨hdb,hforce⟩
  · rw [hbranch]
    cases hadopt : adopts mode (some active) with
    | true =>
      have hlin : Lineage ((SyncBranch.store true).rows agent spec now rows) :=
        hrows.toNumbered.store rfl rfl rfl
      have hsource : ∀ row : AgentConfig, row.source = .yaml → row.source = .db → mode ≠ .force := by
        intro row hyaml hdb
        rw [hyaml] at hdb
        cases hdb
      exact idle_of_latest hlin (latestYaml_store hrows.toNumbered) rfl filter_store_active (hsource _ rfl)
    | false =>
      have hlin : Lineage ((SyncBranch.store false).rows agent spec now rows) :=
        hrows.storeInactive rfl rfl rfl
      have hforce : mode ≠ .force := by
        intro hforce
        simp [adopts,hforce] at hadopt
      exact idle_of_latest hlin (latestYaml_store hrows.toNumbered) rfl
        (filter_store_inactive.trans hactive) fun _ => hforce

/-- The next synchronisation of the file writes nothing. -/
structure Settled (mitraEnabled : Bool) (mode : SyncMode) (c : Catalogue) (spec : SpecFile) : Prop where
  fits : spec.fitsColumns = true
  agent : ∃ a, c.agentOf spec.key = some a ∧ a.Follows mitraEnabled spec ∧
    ∀ fetch, SyncBranch.Idle (branch mode fetch (c.configsOf a.id) spec)

theorem Settled.sameRows (h : Settled mitraEnabled mode c spec) (hs : SameRows c c') :
    Settled mitraEnabled mode c' spec := by
  obtain ⟨a,ha,hfollows,hidle⟩ := h.agent
  have hagent := hs.agentOf spec.key
  rw [ha,Option.map_some] at hagent
  obtain ⟨a',ha',hsame⟩ := Option.map_eq_some_iff.mp hagent
  have hid : a'.id = a.id := by simpa [Agent.untimed] using congrArg (·.id) hsame
  refine ⟨h.fits,a',ha',?_,?_⟩
  · have hfollows' : a'.untimed.Follows mitraEnabled spec := by
      rw [hsame]
      exact ⟨hfollows.name,hfollows.description,hfollows.agentType,hfollows.sortOrder,hfollows.status⟩
    exact ⟨hfollows'.name,hfollows'.description,hfollows'.agentType,hfollows'.sortOrder,hfollows'.status⟩
  · rw [hid,configsOf_of_configs hs.configs]
    exact hidle

theorem Settled.sameAt (h : Settled mitraEnabled mode c spec) (hs : SameAt spec.key c c') :
    Settled mitraEnabled mode c' spec := by
  obtain ⟨a,ha,hfollows,hidle⟩ := h.agent
  refine ⟨h.fits,a,hs.agent.trans ha,hfollows,?_⟩
  rw [hs.rows a ha]
  exact hidle

theorem syncedAgent_follows (a : Agent) : (syncedAgent mitraEnabled now spec a).Follows mitraEnabled spec := by
  unfold syncedAgent
  split
  · exact ⟨rfl,rfl,rfl,rfl,fun _ => rfl⟩
  · rename_i hlocal
    exact ⟨rfl,rfl,rfl,rfl,fun h => absurd h hlocal⟩

theorem agentRow_follows (id : AgentId) : (agentRow mitraEnabled now id spec).Follows mitraEnabled spec := by
  refine ⟨rfl,rfl,rfl,rfl,fun hremote => ?_⟩
  cases mitraEnabled <;> simp [agentRow,effectiveStatus,hremote]

/-- A file that was synchronised is settled. -/
theorem syncSpec_settled (hc : ∀ a, c.agentOf spec.key = some a → Lineage (c.configsOf a.id))
    (h : syncSpec mitraEnabled mode fetch now c spec = .ok w) : Settled mitraEnabled mode w.catalogue spec := by
  obtain ⟨hfits,hown,-⟩ := syncSpec_effect h
  refine ⟨hfits,?_⟩
  cases hown with
  | created hnone ha hrows hreport =>
    refine ⟨_,ha,agentRow_follows _,fun fetch' => ?_⟩
    have hid : (agentRow mitraEnabled now c.freshAgent spec).id = c.freshAgent := rfl
    rw [hid,hrows]
    have hlin : Lineage [versionRow c.freshAgent 1 .yaml spec true now] := Numbered.nil.store rfl rfl rfl
    have hl : LatestYaml [versionRow c.freshAgent 1 .yaml spec true now]
        (versionRow c.freshAgent 1 .yaml spec true now) := ⟨by simp,rfl,by simp⟩
    exact idle_of_latest hlin hl rfl rfl (by simp [versionRow])
  | synced a hsome ha hrows hreport =>
    refine ⟨_,ha,syncedAgent_follows a,fun fetch' => ?_⟩
    rw [syncedAgent_id,hrows]
    exact branch_idle (hc a hsome) spec

theorem identityOf_untimed (h : a.Follows mitraEnabled spec) : (identityOf now spec a).untimed = a.untimed := by
  simp [identityOf,Agent.untimed,h.name,h.description,h.agentType,h.sortOrder]

theorem statusOf_untimed (h : a.Follows mitraEnabled spec) (hremote : spec.agentType = .remoteFlow) :
    (statusOf mitraEnabled now spec a).untimed = a.untimed := by
  simp [statusOf,Agent.untimed,h.status hremote]

/-- A branch that writes nothing leaves the tables. -/
theorem syncConfigs_idle (h : SyncBranch.Idle (branch mode fetch (c.configsOf agent) spec)) :
    syncConfigs mode fetch now c agent spec =
      .ok { catalogue := c, report := (branch mode fetch (c.configsOf agent) spec).report spec.key } := by
  have hstore : ∀ adopt, ¬SyncBranch.Idle (.store adopt) := by simp [SyncBranch.Idle]
  have hreclaim : ∀ version, ¬SyncBranch.Idle (.reclaim version) := by simp [SyncBranch.Idle]
  unfold syncConfigs branch at *
  cases hlatest : latestYaml fetch (c.configsOf agent) with
  | none =>
    rw [hlatest] at h
    exact absurd h (hstore _)
  | some latest =>
    simp only [hlatest] at h ⊢
    by_cases hsum : latest.checksum = spec.checksum
    · simp only [hsum,if_true] at h ⊢
      unfold syncUnchanged
      split
      · rename_i hdb
        simp only [hdb,if_true] at h ⊢
        by_cases hforce : mode = .force
        · rw [if_pos hforce] at h
          exact absurd h (hreclaim _)
        · rw [if_neg hforce,if_neg hforce]
          rfl
      · rfl
    · simp only [hsum,if_false] at h
      exact absurd h (hstore _)

theorem SyncBranch.Idle.report {b : SyncBranch} (h : SyncBranch.Idle b) (key : String) :
    (b.report key).created = [] ∧ (b.report key).updated = [] := by
  rcases h with rfl | rfl <;> exact ⟨rfl,rfl⟩

/-- Both updates of a settled agent's row change its timestamp only. -/
theorem Settled.updateRow (h : Settled mitraEnabled mode c spec) (ha : c.agentOf spec.key = some a) :
    ∃ c', updateRow mitraEnabled now spec c a.id = .ok c' ∧ SameRows c c' := by
  have hfollows : ∀ {c a}, Settled mitraEnabled mode c spec → c.agentOf spec.key = some a →
      a.Follows mitraEnabled spec := by
    intro c a h ha
    obtain ⟨a',ha',hf,-⟩ := h.agent
    obtain rfl := Option.some.inj (ha'.symm.trans ha)
    exact hf
  have hidentity : (identityOf now spec a).untimed = a.untimed := identityOf_untimed (hfollows h ha)
  obtain ⟨c₁,h₁,hs₁⟩ := updateAgent_untimed (agentOf_mem ha) hidentity
  have hstatus : ∃ c₂, syncStatus mitraEnabled now c₁ a.id spec = .ok c₂ ∧ SameRows c₁ c₂ := by
    unfold syncStatus
    split
    · rename_i hremote
      have hagent := hs₁.agentOf spec.key
      rw [ha,Option.map_some] at hagent
      obtain ⟨a₁,ha₁,hsame⟩ := Option.map_eq_some_iff.mp hagent
      have hid : a₁.id = a.id := by simpa [Agent.untimed] using congrArg (·.id) hsame
      rw [← hid]
      exact updateAgent_untimed (agentOf_mem ha₁) (statusOf_untimed (hfollows (h.sameRows hs₁) ha₁) hremote)
    · exact ⟨c₁,rfl,.refl c₁⟩
  obtain ⟨c₂,h₂,hs₂⟩ := hstatus
  exact ⟨c₂,bind_eq_ok.mpr ⟨c₁,h₁,h₂⟩,hs₁.trans hs₂⟩

/-- A settled file writes timestamps only. -/
theorem Settled.syncSpec (h : Settled mitraEnabled mode c spec) : ∃ w,
    syncSpec mitraEnabled mode fetch now c spec = .ok w ∧ SameRows c w.catalogue ∧ w.versions = [] ∧
      w.report.created = [] ∧ w.report.updated = [] := by
  obtain ⟨a,ha,-,hidle⟩ := h.agent
  obtain ⟨c₁,h₁,hs⟩ := h.updateRow ha
  have hidle₁ : SyncBranch.Idle (branch mode fetch (c₁.configsOf a.id) spec) := by
    rw [configsOf_of_configs hs.configs]
    exact hidle fetch
  obtain ⟨hcreated,hupdated⟩ := hidle₁.report spec.key
  refine ⟨{ catalogue := c₁, report := (branch mode fetch (c₁.configsOf a.id) spec).report spec.key },?_,
    hs,rfl,hcreated,hupdated⟩
  rw [syncSpec_some ha h.fits]
  exact bind_eq_ok.mpr ⟨c₁,h₁,syncConfigs_idle hidle₁⟩

/-- Settled files write timestamps only. -/
theorem syncSpecs_settled {specs : List SpecFile} : ∀ {c : Catalogue},
    (∀ spec ∈ specs, Settled mitraEnabled mode c spec) → ∃ w,
      syncSpecs mitraEnabled mode fetch now specs c = .ok w ∧ SameRows c w.catalogue ∧ w.versions = [] ∧
        w.report.created = [] ∧ w.report.updated = [] := by
  induction specs with
  | nil => exact fun {c} _ => ⟨_,rfl,.refl c,rfl,rfl,rfl⟩
  | cons spec specs ih =>
    intro c h
    have hsettled : Settled mitraEnabled mode c spec := h spec List.mem_cons_self
    obtain ⟨w₁,h₁,hs₁,hv₁,hc₁,hu₁⟩ : ∃ w₁, syncSpec mitraEnabled mode fetch now c spec = .ok w₁ ∧ _ :=
      hsettled.syncSpec
    obtain ⟨w₂,h₂,hs₂,hv₂,hc₂,hu₂⟩ := ih fun spec' hspec' =>
      (h spec' (List.mem_cons_of_mem _ hspec')).sameRows hs₁
    refine ⟨_,bind_eq_ok.mpr ⟨w₁,h₁,bind_eq_ok.mpr ⟨w₂,h₂,rfl⟩⟩,hs₁.trans hs₂,?_,?_,?_⟩
    · simp [hv₁,hv₂]
    · simp [SyncReport.append,hc₁,hc₂]
    · simp [SyncReport.append,hu₁,hu₂]

/-- The agents whose file is gone are disabled. -/
def OrphansDisabled (keys : List String) (c : Catalogue) : Prop :=
  ∀ a ∈ c.agents, orphaned c keys a = true → a.status = .disabled

theorem orphaned_untimed {keys : List String} (hs : c'.configs = c.configs) {a a' : Agent}
    (h : a'.untimed = a.untimed) : orphaned c' keys a' = orphaned c keys a := by
  have hid : a'.id = a.id := by simpa [Agent.untimed] using congrArg (·.id) h
  have hkey : a'.key = a.key := by simpa [Agent.untimed] using congrArg (·.key) h
  rw [orphaned,orphaned,hid,hkey,configsOf_of_configs hs]

theorem OrphansDisabled.sameRows {keys : List String} (h : OrphansDisabled keys c) (hs : SameRows c c') :
    OrphansDisabled keys c' := by
  intro a' ha' horphan
  have hmem : a'.untimed ∈ c.agents.map Agent.untimed := by
    rw [← hs.agents]
    exact List.mem_map_of_mem ha'
  obtain ⟨a,ha,hsame⟩ := List.mem_map.mp hmem
  have hstatus : a.status = .disabled := h a ha ((orphaned_untimed hs.configs hsame.symm).symm.trans horphan)
  have hsame' : a.status = a'.status := by simpa [Agent.untimed] using congrArg (·.status) hsame
  rw [← hsame',hstatus]

theorem disableOrphans_disabled {keys : List String} (h : disableOrphans now c keys = .ok c') :
    OrphansDisabled keys c' := by
  obtain ⟨hconf,hagents⟩ := setAgents_eq h
  intro a' ha' horphan
  rw [hagents] at ha'
  obtain ⟨a,ha,rfl⟩ := List.mem_map.mp ha'
  by_cases hor : orphaned c keys a = true
  · simp [hor]
  · simp only [hor] at horphan
    rw [orphaned,configsOf_of_configs hconf,← orphaned] at horphan
    exact absurd horphan hor

/-- Disabling orphans that are disabled changes timestamps only. -/
theorem OrphansDisabled.again {keys : List String} (h : OrphansDisabled keys c) :
    ∃ c', disableOrphans now c keys = .ok c' ∧ SameRows c c' := by
  apply setAgents_untimed
  rw [List.map_map]
  apply List.map_congr_left
  intro a ha
  by_cases hor : orphaned c keys a = true
  · simp [hor,Agent.untimed,h a ha hor]
  · simp [hor]

end ConfigSyncService

open ConfigSyncService in
/-- After every history of operations, a synchronisation that goes through can be done again with the
same files: it goes through, changes nothing but timestamps of agents, stores no version, and reports no
agent as created or updated. -/
theorem sync_again {c₀ c : Catalogue} {mitraEnabled : Bool} {mode : SyncMode} {fetch fetch' : Fetch}
    {now now' : ℕ} {files : List (Option SpecFile)} {w : Written} (h₀ : c₀.Empty)
    (h : Reach Catalogue.apply anyAct c₀ c) (hsync : sync mitraEnabled mode fetch now files c = .ok w) :
    ∃ w', sync mitraEnabled mode fetch' now' files w.catalogue = .ok w' ∧
      w.catalogue.SameRows w'.catalogue ∧ w'.versions = [] ∧ w'.report.created = [] ∧
        w'.report.updated = [] := by
  have hc := Catalogue.lineage_of_reach h₀ h
  by_cases hmode : mode = .off
  · refine ⟨{ catalogue := w.catalogue },?_,.refl _,rfl,rfl,rfl⟩
    unfold sync
    rw [if_pos hmode]
    rfl
  · obtain ⟨specs,rfl,hpre⟩ := sync_specs hmode hsync
    have hsettled : ∀ spec ∈ specs, Settled mitraEnabled mode w.catalogue spec := by
      intro spec hspec
      obtain ⟨c₁,w₁,hbefore,h₁,hafter,-⟩ := sync_at hmode hsync hspec
      have hrows : ∀ a, c₁.agentOf spec.key = some a → AgentConfig.Lineage (c₁.configsOf a.id) :=
        hbefore.lineage fun a ha => hc.rows a (Catalogue.agentOf_mem ha)
      exact (syncSpec_settled hrows h₁).sameAt hafter
    obtain ⟨w₀,hs⟩ := sync_ok hmode hsync
    obtain ⟨w₁,h₁,hs₁,hversions,hcreated,hupdated⟩ : ∃ w₁, syncSpecs mitraEnabled mode fetch' now' _ _ = .ok w₁ ∧ _ :=
      syncSpecs_settled hsettled
    have horphans := (disableOrphans_disabled hs.orphans).sameRows hs₁
    obtain ⟨c₂,h₂,hs₂⟩ : ∃ c₂, disableOrphans now' _ _ = .ok c₂ ∧ _ := horphans.again
    rw [sync_eq hmode hpre]
    refine ⟨_,bind_eq_ok.mpr ⟨w₁,h₁,bind_eq_ok.mpr ⟨c₂,h₂,rfl⟩⟩,hs₁.trans hs₂,hversions,?_,?_⟩
    · simp [SyncReport.append,hcreated]
    · simp [SyncReport.append,hupdated]

/-- An override that a safe synchronisation retains is retained again. -/
theorem sync_again_drifted : ∃ c w w', Reach Catalogue.apply anyAct Catalogue.blank c ∧
    ConfigSyncService.sync true .safe firstRow 4 [some (assistantFile "v4")] c = .ok w ∧
      w.report.drifted = ["assistant"] ∧
      ConfigSyncService.sync true .safe firstRow 5 [some (assistantFile "v4")] w.catalogue = .ok w' ∧
        w.catalogue.SameRows w'.catalogue ∧ w'.versions = [] := by
  have hrun : ((run Catalogue.apply anyAct Catalogue.blank (fourOperations.take 3)).any fun c =>
      (ConfigSyncService.sync true .safe firstRow 4 [some (assistantFile "v4")] c).toOption.any fun w =>
        decide (w.report.drifted = ["assistant"])) = true := by
    decide +kernel
  obtain ⟨c,hr,hP⟩ := exists_reach_of_run hrun
  cases hsync : ConfigSyncService.sync true .safe firstRow 4 [some (assistantFile "v4")] c with
  | error e =>
    rw [hsync] at hP
    cases hP
  | ok w =>
    rw [hsync] at hP
    obtain ⟨w',hsync',hsame,hversions,-,-⟩ :=
      @sync_again _ c true .safe firstRow firstRow 4 5 _ w Catalogue.blank_empty hr hsync
    exact ⟨c,w,w',hr,hsync,of_decide_eq_true hP,hsync',hsame,hversions⟩

end Saarathi
