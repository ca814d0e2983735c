import Saarathi.SyncEffects

/-!
# The configuration in force after a synchronisation

Whether a file that differs from the active configuration is noticed is decided by
the checksum of the latest YAML version and by the source of the active one.
-/

namespace Saarathi

open Machine

namespace AgentConfig

variable {rows : List AgentConfig} {r latest : AgentConfig} {version : ℤ} {now : ℕ}

/-- The active rows are one row of this content. -/
def InForce (config : Json) (rows : List AgentConfig) : Prop :=
  (rows.filter (·.isActive)).map (·.config) = [config]

/-- The YAML row of the highest version. -/
structure LatestYaml (rows : List AgentConfig) (latest : AgentConfig) : Prop where
  mem : latest ∈ rows
  source : latest.source = .yaml
  last : ∀ r ∈ rows, r.source = .yaml → r.version ≤ latest.version

/-- The file has the checksum of the latest YAML row, but another YAML row is active, or in force mode
that row has another content. -/
def Overlooked (mode : SyncMode) (spec : SpecFile) (rows : List AgentConfig) : Prop :=
  ∃ latest active, LatestYaml rows latest ∧ active ∈ rows ∧ active.isActive = true ∧
    latest.checksum = spec.checksum ∧
      match active.source with
      | .yaml => active.config ≠ spec.canonical
      | .db => mode = .force ∧ latest.config ≠ spec.canonical

/-- One row of a version. -/
theorem Numbered.filter_version (h : Numbered rows) (hr : r ∈ rows) :
    rows.filter (fun r' => r'.version = r.version) = [r] := by
  have hlength : (rows.filter fun r' => r'.version = r.version).length = 1 := by
    have hcount : (rows.map (·.version)).count r.version = 1 :=
      List.count_eq_one_of_mem h.nodup (List.mem_map_of_mem hr)
    rw [List.count,List.countP_map,List.countP_eq_length_filter] at hcount
    have hbeq : (fun r' : AgentConfig => decide (r'.version = r.version)) =
        (fun v => v == r.version) ∘ fun r' => r'.version := by
      funext r'
      simp [Bool.beq_eq_decide_eq]
    rw [hbeq,hcount]
  obtain ⟨r',hr'⟩ := List.length_eq_one_iff.mp hlength
  have hmem : r ∈ rows.filter fun r' => r'.version = r.version := by simp [hr]
  rw [hr'] at hmem ⊢
  rw [List.mem_singleton.mp hmem]

/-- The active rows after a reactivation. -/
theorem filter_reactivate (rows : List AgentConfig) :
    (rows.map (reactivate now version)).filter (·.isActive) =
      (rows.filter fun r => r.version = version).map (activated now) := by
  induction rows with
  | nil => rfl
  | cons r rows ih =>
    by_cases hv : r.version = version
    · have hr : reactivate now version r = r.activated now := if_pos hv
      simp only [List.map_cons,List.filter_cons,reactivate_isActive,hv,decide_true,if_true]
      rw [ih,hr]
    · simp only [List.map_cons,List.filter_cons,reactivate_isActive,hv,decide_false]
      exact ih

theorem Numbered.reactivate_in_force (h : Numbered rows) (hr : r ∈ rows) {config : Json} :
    InForce config (rows.map (Saarathi.reactivate now r.version)) ↔ r.config = config := by
  unfold InForce
  rw [filter_reactivate,h.filter_version hr]
  simp [activated]

theorem LatestYaml.unique (h : Numbered rows) {latest' : AgentConfig} (hl : LatestYaml rows latest)
    (hl' : LatestYaml rows latest') : latest = latest' := by
  have hle := hl'.last latest hl.mem hl.source
  have hge := hl.last latest' hl'.mem hl'.source
  exact List.inj_on_of_nodup_map h.nodup hl.mem hl'.mem (le_antisymm hle hge)

/-- A reactivation keeps the latest YAML row. -/
theorem LatestYaml.reactivate (h : LatestYaml rows latest) (now : ℕ) :
    LatestYaml (rows.map (Saarathi.reactivate now latest.version)) (latest.activated now) := by
  have hself : Saarathi.reactivate now latest.version latest = latest.activated now := if_pos rfl
  refine ⟨List.mem_map.mpr ⟨latest,h.mem,hself⟩,h.source,fun r hr hs => ?_⟩
  obtain ⟨r',hr',rfl⟩ := List.mem_map.mp hr
  rw [reactivate_source] at hs
  rw [reactivate_version]
  exact h.last r' hr' hs

end AgentConfig

namespace ConfigSyncService

open AgentConfig Catalogue

variable {mitraEnabled : Bool} {mode : SyncMode} {fetch : Fetch} {now : ℕ} {c : Catalogue}
  {agent : AgentId} {spec : SpecFile} {w : Written} {rows : List AgentConfig}

theorem latestYaml_latest {latest : AgentConfig} (h : latestYaml fetch rows = some latest) :
    LatestYaml rows latest := by
  obtain ⟨hmem,hsource,hlast⟩ := latestYaml_mem h
  exact ⟨hmem,hsource,hlast⟩

theorem latestYaml_none (h : latestYaml fetch rows = none) (latest : AgentConfig) : ¬LatestYaml rows latest := by
  intro hl
  have hne : (rows.filter (·.source = .yaml)).filter
      (fun r => (rows.filter (·.source = .yaml)).all fun r' => r'.version ≤ r.version) ≠ [] := by
    intro hnil
    have hmem := List.filter_eq_nil_iff.mp hnil latest (by simp [hl.mem,hl.source])
    apply hmem
    simp only [List.all_eq_true,List.mem_filter,decide_eq_true_eq]
    exact fun r hr => hl.last r hr.1 hr.2
  have hsome := fetch.total _ hne
  rw [show fetch.one _ = none from h] at hsome
  cases hsome

theorem activeConfig_eq {active : AgentConfig} (h : rows.filter (·.isActive) = [active]) :
    activeConfig fetch rows = some active := by
  have hsome : (activeConfig fetch rows).isSome = true := fetch.total _ (by simp [h])
  obtain ⟨r,hr⟩ := Option.isSome_iff_exists.mp hsome
  have hmem : r ∈ rows.filter (·.isActive) := fetch.mem _ _ hr
  rw [h] at hmem
  rw [hr,List.mem_singleton.mp hmem]

/-- A version that is stored is in force, or else reported. -/
theorem store_in_force {active : Option AgentConfig} (hmode : mode ≠ .off) :
    InForce spec.canonical ((SyncBranch.store (adopts mode active)).rows agent spec now rows) ∨
      mode = .safe ∧ spec.key ∈ ((SyncBranch.store (adopts mode active)).report spec.key).drifted := by
  cases hadopt : adopts mode active with
  | true =>
    left
    simp only [SyncBranch.rows,withVersion,if_true,InForce]
    rw [List.filter_append,filter_deactivated]
    rfl
  | false =>
    right
    have hsafe : mode = .safe := by
      cases mode with
      | safe => rfl
      | force => simp [adopts] at hadopt
      | off => exact absurd rfl hmode
    exact ⟨hsafe,by simp [SyncBranch.report]⟩

/-- The branch that rows with this active one lead to. -/
theorem branch_cases (hrows : Lineage rows) {active : AgentConfig}
    (hactive : rows.filter (·.isActive) = [active]) (mode : SyncMode) (fetch : Fetch) (spec : SpecFile) :
    (∃ latest, LatestYaml rows latest ∧ latest.checksum = spec.checksum ∧
      branch mode fetch rows spec = if active.source = .db then
        if mode = .force then .reclaim latest.version else .retain
      else .unchanged) ∨
    (∀ latest, LatestYaml rows latest → latest.checksum ≠ spec.checksum) ∧
      branch mode fetch rows spec = .store (adopts mode (some active)) := by
  unfold branch
  rw [activeConfig_eq hactive]
  cases hlatest : latestYaml fetch rows with
  | none => exact .inr ⟨fun latest hl => absurd hl (latestYaml_none hlatest latest),rfl⟩
  | some latest =>
    have hl := latestYaml_latest hlatest
    by_cases hsum : latest.checksum = spec.checksum
    · exact .inl ⟨latest,hl,hsum,by simp [hsum]⟩
    · right
      constructor
      · intro latest' hl'
        rwa [hl'.unique hrows.toNumbered hl]
      · simp [hsum]

/-- The file of a branch is in force or reported, unless it is overlooked. -/
theorem branch_in_force_iff (hrows : Lineage rows) (hmode : mode ≠ .off) :
    InForce spec.canonical ((branch mode fetch rows spec).rows agent spec now rows) ∨
      mode = .safe ∧ spec.key ∈ ((branch mode fetch rows spec).report spec.key).drifted ↔
        ¬Overlooked mode spec rows := by
  obtain ⟨active,hactive⟩ := hrows.exists_active
  have hself : active ∈ rows ∧ active.isActive = true := by
    have hmem : active ∈ rows.filter (·.isActive) := by simp [hactive]
    simpa using hmem
  have hone : ∀ r ∈ rows, r.isActive = true → r = active := by
    intro r hr ha
    have hmem : r ∈ rows.filter (·.isActive) := by simp [hr,ha]
    simpa [hactive] using hmem
  rcases branch_cases hrows hactive mode fetch spec with ⟨latest,hl,hsum,hbranch⟩ | ⟨hsum,hbranch⟩
  · have hoverlooked : Overlooked mode spec rows ↔
        match active.source with
        | .yaml => active.config ≠ spec.canonical
        | .db => mode = .force ∧ latest.config ≠ spec.canonical := by
      constructor
      · rintro ⟨latest',active',hl',hmem,ha,-,hcases⟩
        obtain rfl := hl.unique hrows.toNumbered hl'
        obtain rfl := hone active' hmem ha
        exact hcases
      · intro hcases
        exact ⟨latest,active,hl,hself.1,hself.2,hsum,hcases⟩
    rw [hoverlooked,hbranch]
    have hsource : active.source = .yaml ∨ active.source = .db := by
      cases active.source <;> simp
    rcases hsource with hsource | hsource
    · simp [hsource,SyncBranch.rows,SyncBranch.report,InForce,hactive]
    · cases mode with
      | off => exact absurd rfl hmode
      | safe => simp [hsource,SyncBranch.report]
      | force => simp [hsource,SyncBranch.rows,hrows.toNumbered.reactivate_in_force hl.mem]
  · rw [hbranch]
    refine iff_of_true (store_in_force hmode) ?_
    rintro ⟨latest,-,hl,-,-,hsum',-⟩
    exact hsum latest hl hsum'

end ConfigSyncService

namespace Catalogue

variable {c c' : Catalogue} {mode : SyncMode} {spec : SpecFile}

/-- The active configuration of the file's agent is the file's. -/
def InForce (c : Catalogue) (spec : SpecFile) : Prop :=
  ∃ a, c.agentOf spec.key = some a ∧ AgentConfig.InForce spec.canonical (c.configsOf a.id)

/-- A synchronisation with the file will not notice what is in force. -/
def Overlooked (c : Catalogue) (mode : SyncMode) (spec : SpecFile) : Prop :=
  ∃ a, c.agentOf spec.key = some a ∧ AgentConfig.Overlooked mode spec (c.configsOf a.id)

theorem inForce_of_agentOf {a : Agent} (ha : c.agentOf spec.key = some a) :
    c.InForce spec ↔ AgentConfig.InForce spec.canonical (c.configsOf a.id) := by
  constructor
  · rintro ⟨a',ha',h⟩
    obtain rfl := Option.some.inj (ha.symm.trans ha')
    exact h
  · exact fun h => ⟨a,ha,h⟩

theorem overlooked_of_agentOf {a : Agent} (ha : c.agentOf spec.key = some a) :
    c.Overlooked mode spec ↔ AgentConfig.Overlooked mode spec (c.configsOf a.id) := by
  constructor
  · rintro ⟨a',ha',h⟩
    obtain rfl := Option.some.inj (ha.symm.trans ha')
    exact h
  · exact fun h => ⟨a,ha,h⟩

theorem SameAt.inForce (h : SameAt spec.key c c') : c'.InForce spec ↔ c.InForce spec := by
  cases ha : c.agentOf spec.key with
  | none =>
    constructor
    · rintro ⟨a,ha',-⟩
      rw [h.agent,ha] at ha'
      cases ha'
    · rintro ⟨a,ha',-⟩
      rw [ha] at ha'
      cases ha'
  | some a => rw [inForce_of_agentOf (h.agent.trans ha),inForce_of_agentOf ha,h.rows a ha]

end Catalogue

namespace ConfigSyncService

open Catalogue

variable {mitraEnabled : Bool} {mode : SyncMode} {fetch : Fetch} {now : ℕ} {c : Catalogue}
  {spec : SpecFile} {w : Written}

theorem syncSpec_in_force_iff (hc : ∀ a, c.agentOf spec.key = some a → AgentConfig.Lineage (c.configsOf a.id))
    (hmode : mode ≠ .off) (h : syncSpec mitraEnabled mode fetch now c spec = .ok w) :
    w.catalogue.InForce spec ∨ mode = .safe ∧ spec.key ∈ w.report.drifted ↔ ¬c.Overlooked mode spec := by
  obtain ⟨-,hown,-⟩ := syncSpec_effect h
  cases hown with
  | created hnone ha hrows hreport =>
    apply iff_of_true
    · left
      have hid : (agentRow mitraEnabled now c.freshAgent spec).id = c.freshAgent := rfl
      rw [inForce_of_agentOf ha,hid,hrows]
      rfl
    · rintro ⟨a,ha',-⟩
      rw [hnone] at ha'
      cases ha'
  | synced a hsome ha hrows hreport =>
    rw [inForce_of_agentOf ha,syncedAgent_id,hrows,hreport,overlooked_of_agentOf hsome]
    exact branch_in_force_iff (hc a hsome) hmode

/-- An entry about a key, before and after. -/
theorem mem_drifted_about {r : SyncReport} {key : String} : key ∈ r.drifted ↔ key ∈ (r.about key).drifted := by
  simp [SyncReport.about]

end ConfigSyncService

open ConfigSyncService in
/-- After every history of operations, a synchronisation that goes through leaves every file in force,
or in safe mode reports that it is not, exactly if none of the files is overlooked. -/
theorem sync_in_force_iff {c₀ c : Catalogue} {mitraEnabled : Bool} {mode : SyncMode} {fetch : Fetch}
    {now : ℕ} {specs : List SpecFile} {w : Written} (h₀ : c₀.Empty)
    (h : Reach Catalogue.apply anyAct c₀ c) (hmode : mode ≠ .off)
    (hsync : sync mitraEnabled mode fetch now (specs.map some) c = .ok w) :
    (∀ spec ∈ specs, w.catalogue.InForce spec ∨ mode = .safe ∧ spec.key ∈ w.report.drifted) ↔
      ∀ spec ∈ specs, ¬c.Overlooked mode spec := by
  have hc := Catalogue.lineage_of_reach h₀ h
  refine forall₂_congr fun spec hspec => ?_
  obtain ⟨c₁,w₁,hbefore,h₁,hafter,hreport⟩ := sync_at hmode hsync hspec
  have hrows₁ : ∀ a, c₁.agentOf spec.key = some a → AgentConfig.Lineage (c₁.configsOf a.id) :=
    hbefore.lineage fun a ha => hc.rows a (Catalogue.agentOf_mem ha)
  have hoverlooked : c₁.Overlooked mode spec ↔ c.Overlooked mode spec := by
    cases ha : c.agentOf spec.key with
    | none =>
      constructor
      · rintro ⟨a,ha',-⟩
        rw [hbefore.agent,ha] at ha'
        cases ha'
      · rintro ⟨a,ha',-⟩
        rw [ha] at ha'
        cases ha'
    | some a =>
      rw [Catalogue.overlooked_of_agentOf (hbefore.agent.trans ha),Catalogue.overlooked_of_agentOf ha,
        hbefore.rows a ha]
  have hdrifted : spec.key ∈ w.report.drifted ↔ spec.key ∈ w₁.report.drifted := by
    rw [mem_drifted_about,hreport,← mem_drifted_about]
  rw [hafter.inForce,hdrifted,← hoverlooked]
  exact syncSpec_in_force_iff hrows₁ hmode h₁

/-- A file, a changed file, and the first version again. -/
def firstVersionAgain : List Applied := [
  applied 1 (.sync true .safe [some (assistantFile "v1")]),
  applied 2 (.sync true .safe [some (assistantFile "v2")]),
  applied 3 (.activate "assistant" (some 1))]

/-- A third text comes in force. -/
theorem sync_in_force_third : ∃ c w, Reach Catalogue.apply anyAct Catalogue.blank c ∧
    ConfigSyncService.sync true .safe firstRow 4 [some (assistantFile "v3")] c = .ok w ∧
      (w.catalogue.InForce (assistantFile "v3") ∨
        SyncMode.safe = .safe ∧ "assistant" ∈ w.report.drifted) := by
  have hrun : ((run Catalogue.apply anyAct Catalogue.blank firstVersionAgain).any fun c =>
      c.configs.all (·.checksum ≠ "v3") &&
        (ConfigSyncService.sync true .safe firstRow 4 [some (assistantFile "v3")] c).isOk) = true := by
    decide +kernel
  obtain ⟨c,hr,hP⟩ := exists_reach_of_run hrun
  rw [Bool.and_eq_true,List.all_eq_true] at hP
  cases hsync : ConfigSyncService.sync true .safe firstRow 4 [some (assistantFile "v3")] c with
  | error e =>
    rw [hsync] at hP
    cases hP.2
  | ok w =>
    have hnot : ∀ spec ∈ [assistantFile "v3"], ¬c.Overlooked .safe spec := by
      intro spec hspec
      rw [List.mem_singleton.mp hspec]
      rintro ⟨a,-,latest,active,hlatest,-,-,hsum,-⟩
      have hmem : latest ∈ c.configs := (List.mem_filter.mp hlatest.mem).1
      have hne : latest.checksum ≠ "v3" := by simpa using hP.1 latest hmem
      exact hne hsum
    have hall := (@sync_in_force_iff _ c true .safe firstRow 4 [assistantFile "v3"] w Catalogue.blank_empty hr (by decide)
      hsync).mpr hnot
    exact ⟨c,w,hr,hsync,hall _ (List.mem_singleton_self _)⟩

/-- The prompt of a configuration. -/
def promptOf : Json → String
  | .obj fields => match Json.lookup fields "prompt" with
    | some (.str s) => s
    | _ => ""
  | _ => ""

/-- The prompts in force after a synchronisation with the changed file, if it reports no drift. -/
def promptsAfter (mode : SyncMode) (c : Catalogue) : Option (List String) :=
  match ConfigSyncService.sync true mode firstRow 4 [some (assistantFile "v2")] c with
  | .error _ => none
  | .ok w => if w.report.drifted = [] then
      (w.catalogue.agentOf "assistant").map fun a =>
        ((w.catalogue.configsOf a.id).filter (·.isActive)).map fun r => promptOf r.config
    else none

/-- In both modes the first version stays in force, and nothing is reported. -/
theorem reactivated_version_overlooked : ∃ c, Reach Catalogue.apply anyAct Catalogue.blank c ∧
    ∀ mode, mode ≠ .off → ∃ w,
      ConfigSyncService.sync true mode firstRow 4 [some (assistantFile "v2")] c = .ok w ∧
        ¬(w.catalogue.InForce (assistantFile "v2") ∨ mode = .safe ∧ "assistant" ∈ w.report.drifted) := by
  have hrun : ((run Catalogue.apply anyAct Catalogue.blank firstVersionAgain).any fun c =>
      promptsAfter .safe c = some ["v1"] && promptsAfter .force c = some ["v1"]) = true := by
    decide +kernel
  obtain ⟨c,hr,hP⟩ := exists_reach_of_run hrun
  have hprompts : promptsAfter .safe c = some ["v1"] ∧ promptsAfter .force c = some ["v1"] := by
    simpa using hP
  have hmodes : ∀ mode, mode ≠ .off → promptsAfter mode c = some ["v1"] := by
    intro mode hmode
    cases mode with
    | off => exact absurd rfl hmode
    | safe => exact hprompts.1
    | force => exact hprompts.2
  refine ⟨c,hr,fun mode hmode => ?_⟩
  have hv1 := hmodes mode hmode
  unfold promptsAfter at hv1
  cases hsync : ConfigSyncService.sync true mode firstRow 4 [some (assistantFile "v2")] c with
  | error e =>
    rw [hsync] at hv1
    cases hv1
  | ok w =>
    rw [hsync] at hv1
    simp only at hv1
    split at hv1
    · rename_i hdrifted
      refine ⟨w,rfl,?_⟩
      rintro (⟨a,ha,hforce⟩ | ⟨-,hmem⟩)
      · have ha' : w.catalogue.agentOf "assistant" = some a := ha
        rw [ha',Option.map_some] at hv1
        have hv2 := congrArg (List.map promptOf) hforce
        rw [List.map_map] at hv2
        have hne : ["v1"] = [promptOf (assistantFile "v2").canonical] :=
          (Option.some.inj hv1).symm.trans hv2
        exact absurd hne (by decide)
      · rw [hdrifted] at hmem
        cases hmem
    · cases hv1

end Saarathi
