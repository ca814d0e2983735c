import Saarathi.ConfigLineage

/-!
# The effects of a synchronisation

Each file acts on the agent of its key and on its configurations. A synchronisation
of files with distinct keys therefore acts on each agent as the one file does.
-/

namespace Saarathi

namespace Catalogue

variable {c c' c'' : Catalogue} {key : String} {agent : AgentId}

/-- The agent of the key, `SELECT … FROM agents WHERE key = …`. -/
def agentOf (c : Catalogue) (key : String) : Option Agent := c.agents.find? (·.key = key)

/-- The agent of the key and its rows are the same. -/
structure SameAt (key : String) (c c' : Catalogue) : Prop where
  agent : c'.agentOf key = c.agentOf key
  rows : ∀ a, c.agentOf key = some a → c'.configsOf a.id = c.configsOf a.id

theorem SameAt.refl (key : String) (c : Catalogue) : SameAt key c c := ⟨rfl,fun _ _ => rfl⟩

theorem SameAt.trans (h : SameAt key c c') (h' : SameAt key c' c'') : SameAt key c c'' :=
  ⟨h'.agent.trans h.agent,fun a ha => (h'.rows a (h.agent.trans ha)).trans (h.rows a ha)⟩

theorem SameAt.lineage (h : SameAt key c c') (hc : ∀ a, c.agentOf key = some a → AgentConfig.Lineage (c.configsOf a.id)) :
    ∀ a, c'.agentOf key = some a → AgentConfig.Lineage (c'.configsOf a.id) := by
  intro a ha
  have ha' : c.agentOf key = some a := h.agent ▸ ha
  rw [h.rows a ha']
  exact hc a ha'

theorem agentOf_key {a : Agent} (h : c.agentOf key = some a) : a.key = key := by
  simpa using List.find?_some h

theorem agentOf_mem {a : Agent} (h : c.agentOf key = some a) : a ∈ c.agents := List.mem_of_find?_eq_some h

theorem agentOf_of_mem {a : Agent} (h : a ∈ c.agents) : c.agentOf a.key = some a := by
  cases hf : c.agentOf a.key with
  | none =>
    have hnone := List.find?_eq_none.mp hf a h
    simp at hnone
  | some b =>
    rw [List.inj_on_of_nodup_map c.agent_key (agentOf_mem hf) h (agentOf_key hf)]

theorem id_ne_of_key_ne {a b : Agent} (ha : a ∈ c.agents) (hb : b ∈ c.agents) (h : a.key ≠ b.key) :
    a.id ≠ b.id := by
  intro hid
  exact h (congrArg _ (List.inj_on_of_nodup_map c.agent_id ha hb hid))

theorem Rewrites.agentOf {rows : List AgentConfig} (h : c.Rewrites agent rows c') (key : String) :
    c'.agentOf key = c.agentOf key := by
  rw [Catalogue.agentOf,h.agents,Catalogue.agentOf]

end Catalogue

namespace SyncReport

/-- The entries about one key. -/
def about (key : String) (r : SyncReport) : SyncReport where
  created := r.created.filter (· = key)
  updated := r.updated.filter (· = key)
  unchanged := r.unchanged.filter (· = key)
  drifted := r.drifted.filter (· = key)

theorem about_append (key : String) (r r' : SyncReport) :
    (r.append r').about key = (r.about key).append (r'.about key) := by
  simp [about,append]

theorem append_empty (r : SyncReport) : r.append {} = r := by simp [append]

theorem empty_append (r : SyncReport) : SyncReport.append {} r = r := by simp [append]

end SyncReport

namespace ConfigSyncService

open Catalogue

variable {mitraEnabled : Bool} {mode : SyncMode} {fetch : Fetch} {now : ℕ} {c : Catalogue}
  {spec : SpecFile} {w : Written} {key : String}

/-- The row of an agent that was there, after both updates. -/
def syncedAgent (mitraEnabled : Bool) (now : ℕ) (spec : SpecFile) (a : Agent) : Agent :=
  if spec.agentType = .remoteFlow then statusOf mitraEnabled now spec (identityOf now spec a)
  else identityOf now spec a

theorem syncedAgent_id (a : Agent) : (syncedAgent mitraEnabled now spec a).id = a.id := by
  unfold syncedAgent
  split <;> rfl

theorem syncedAgent_key (a : Agent) : (syncedAgent mitraEnabled now spec a).key = a.key := by
  unfold syncedAgent
  split <;> rfl

/-- Both updates of an agent's own row. -/
def updateRow (mitraEnabled : Bool) (now : ℕ) (spec : SpecFile) (c : Catalogue) (agent : AgentId) :
    Except WriteError Catalogue := do
  let c ← c.updateAgent agent (identityOf now spec)
  syncStatus mitraEnabled now c agent spec

/-- One specification whose agent is there. -/
theorem syncSpec_some {a : Agent} (ha : c.agentOf spec.key = some a) (hfits : spec.fitsColumns = true) :
    syncSpec mitraEnabled mode fetch now c spec =
      updateRow mitraEnabled now spec c a.id >>= fun c => syncConfigs mode fetch now c a.id spec := by
  unfold syncSpec
  rw [show c.agents.find? _ = some a from ha]
  simp only [hfits,if_true,updateRow,bind_assoc]

theorem updateRow_eq {agent : AgentId} {c' : Catalogue}
    (h : updateRow mitraEnabled now spec c agent = .ok c') :
    c'.configs = c.configs ∧ c'.agents = c.agents.map fun a =>
      if a.id = agent then syncedAgent mitraEnabled now spec a else a := by
  unfold updateRow at h
  obtain ⟨c₁,h₁,h₂⟩ := bind_eq_ok.mp h
  obtain ⟨hc₁,ha₁⟩ := setAgents_eq h₁
  unfold syncStatus at h₂
  split at h₂
  · rename_i hremote
    obtain ⟨hc₂,ha₂⟩ := setAgents_eq h₂
    refine ⟨hc₂.trans hc₁,?_⟩
    rw [ha₂,ha₁,List.map_map]
    apply List.map_congr_left
    intro a _
    by_cases ha : a.id = agent
    · simp [ha,syncedAgent,hremote,identityOf]
    · simp [ha]
  · rename_i hlocal
    obtain rfl := pure_eq_ok.mp h₂
    refine ⟨hc₁,?_⟩
    rw [ha₁]
    apply List.map_congr_left
    intro a _
    by_cases ha : a.id = agent
    · simp [ha,syncedAgent,hlocal]
    · simp [ha]

/-- What one specification does to its own agent. -/
inductive OwnEffect (mitraEnabled : Bool) (mode : SyncMode) (fetch : Fetch) (now : ℕ) (c : Catalogue)
    (spec : SpecFile) (w : Written) : Prop where
  | created (hnone : c.agentOf spec.key = none)
      (ha : w.catalogue.agentOf spec.key = some (agentRow mitraEnabled now c.freshAgent spec))
      (hrows : w.catalogue.configsOf c.freshAgent = [versionRow c.freshAgent 1 .yaml spec true now])
      (hreport : w.report = { created := [spec.key] })
  | synced (a : Agent) (hsome : c.agentOf spec.key = some a)
      (ha : w.catalogue.agentOf spec.key = some (syncedAgent mitraEnabled now spec a))
      (hrows : w.catalogue.configsOf a.id =
        (branch mode fetch (c.configsOf a.id) spec).rows a.id spec now (c.configsOf a.id))
      (hreport : w.report = (branch mode fetch (c.configsOf a.id) spec).report spec.key)

/-- One specification acts on the agent of its key alone. -/
theorem syncSpec_effect (h : syncSpec mitraEnabled mode fetch now c spec = .ok w) :
    spec.fitsColumns = true ∧ OwnEffect mitraEnabled mode fetch now c spec w ∧
      ∀ key, key ≠ spec.key → SameAt key c w.catalogue := by
  cases hfind : c.agentOf spec.key with
  | none =>
    have hcreate : createAgent mitraEnabled now c spec = .ok w := by
      unfold syncSpec at h
      rw [show c.agents.find? _ = none from hfind] at h
      exact h
    have hfits : spec.fitsColumns = true := by
      unfold createAgent at hcreate
      split at hcreate
      · assumption
      · cases hcreate
    obtain ⟨hagents,hrows,hothers,-,hreport⟩ := createAgent_writes hcreate
    have hkey : (agentRow mitraEnabled now c.freshAgent spec).key = spec.key := rfl
    refine ⟨hfits,.created hfind ?_ hrows hreport,?_⟩
    · have hnone : c.agents.find? (·.key = spec.key) = none := hfind
      simp [agentOf,hagents,List.find?_append,hnone,hkey]
    · intro key hne
      constructor
      · simp [agentOf,hagents,List.find?_append,hkey,hne.symm]
      · intro a ha
        apply hothers
        exact ne_freshAgent (List.mem_append_left _ (List.mem_map_of_mem (agentOf_mem ha)))
  | some a =>
    have hfits : spec.fitsColumns = true := by
      unfold syncSpec at h
      rw [show c.agents.find? _ = some a from hfind] at h
      by_contra hno
      simp only [hno] at h
      cases h
    rw [syncSpec_some hfind hfits] at h
    obtain ⟨c₁,h₁,h₂⟩ := bind_eq_ok.mp h
    obtain ⟨hc₁,ha₁⟩ := updateRow_eq h₁
    obtain ⟨hw,hreport⟩ := syncConfigs_writes h₂
    have hrows₁ : ∀ b, c₁.configsOf b = c.configsOf b := configsOf_of_configs hc₁
    have hagent : ∀ key, w.catalogue.agentOf key =
        (c.agentOf key).map fun b => if b.id = a.id then syncedAgent mitraEnabled now spec b else b := by
      intro key
      have hkey : ((fun b : Agent => decide (b.key = key)) ∘ fun b =>
          if b.id = a.id then syncedAgent mitraEnabled now spec b else b) = fun b => decide (b.key = key) := by
        funext b
        by_cases hb : b.id = a.id <;> simp [hb,syncedAgent_key]
      rw [hw.agentOf,agentOf,ha₁,List.find?_map,hkey,agentOf]
    rw [hrows₁] at hw hreport
    refine ⟨hfits,.synced a hfind ?_ hw.rows hreport,?_⟩
    · rw [hagent,hfind]
      simp
    · intro key hne
      have hid : ∀ b, c.agentOf key = some b → b.id ≠ a.id := by
        intro b hb
        apply id_ne_of_key_ne (agentOf_mem hb) (agentOf_mem hfind)
        rw [agentOf_key hb,agentOf_key hfind]
        exact hne
      constructor
      · rw [hagent]
        cases hb : c.agentOf key with
        | none => rfl
        | some b => simp [hid b hb]
      · intro b hb
        rw [hw.others b.id (hid b hb),hrows₁]

theorem branch_report_about (b : SyncBranch) {key : String} (hkey : key ≠ spec.key) :
    (b.report spec.key).about key = {} := by
  cases b with
  | store adopt => cases adopt <;> simp [SyncBranch.report,SyncReport.about,hkey.symm]
  | _ => simp [SyncBranch.report,SyncReport.about,hkey.symm]

/-- One specification reports its own key. -/
theorem OwnEffect.report_about (h : OwnEffect mitraEnabled mode fetch now c spec w) (hkey : key ≠ spec.key) :
    w.report.about key = {} := by
  cases h with
  | created hnone ha hrows hreport =>
    rw [hreport]
    simp [SyncReport.about,hkey.symm]
  | synced a hsome ha hrows hreport =>
    rw [hreport]
    exact branch_report_about _ hkey

/-- The files leave the agents of other keys. -/
theorem syncSpecs_others {specs : List SpecFile} : ∀ {c : Catalogue} {w : Written},
    syncSpecs mitraEnabled mode fetch now specs c = .ok w → key ∉ specs.map (·.key) →
      SameAt key c w.catalogue ∧ w.report.about key = {} := by
  induction specs with
  | nil =>
    intro c w h _
    obtain rfl := pure_eq_ok.mp h
    exact ⟨.refl key c,rfl⟩
  | cons spec specs ih =>
    intro c w h hkey
    simp only [syncSpecs,bind_eq_ok,pure_eq_ok] at h
    obtain ⟨w₁,h₁,w₂,h₂,rfl⟩ := h
    rw [List.map_cons,List.mem_cons,not_or] at hkey
    obtain ⟨-,hown,hothers⟩ := syncSpec_effect h₁
    obtain ⟨hsame,hreport⟩ := ih h₂ hkey.2
    refine ⟨(hothers key hkey.1).trans hsame,?_⟩
    rw [SyncReport.about_append,hown.report_about hkey.1,hreport]
    rfl

/-- What the files do to the agent of one of them, that file does. -/
theorem syncSpecs_at {specs : List SpecFile} : ∀ {c : Catalogue} {w : Written},
    syncSpecs mitraEnabled mode fetch now specs c = .ok w → (specs.map (·.key)).Nodup → spec ∈ specs →
      ∃ c₁ w₁, SameAt spec.key c c₁ ∧ syncSpec mitraEnabled mode fetch now c₁ spec = .ok w₁ ∧
        SameAt spec.key w₁.catalogue w.catalogue ∧
        w.report.about spec.key = w₁.report.about spec.key := by
  induction specs with
  | nil =>
    intro c w _ _ hspec
    cases hspec
  | cons spec' specs ih =>
    intro c w h hkeys hspec
    simp only [syncSpecs,bind_eq_ok,pure_eq_ok] at h
    obtain ⟨w₁,h₁,w₂,h₂,rfl⟩ := h
    rw [List.map_cons,List.nodup_cons] at hkeys
    obtain ⟨-,hown,hothers⟩ := syncSpec_effect h₁
    rcases List.mem_cons.mp hspec with rfl | hmem
    · obtain ⟨hsame,hreport⟩ := syncSpecs_others h₂ hkeys.1
      refine ⟨c,w₁,.refl _ c,h₁,hsame,?_⟩
      rw [SyncReport.about_append,hreport,SyncReport.append_empty]
    · have hne : spec.key ≠ spec'.key := by
        intro e
        exact hkeys.1 (e ▸ List.mem_map_of_mem hmem)
      obtain ⟨c₁,w₃,hbefore,h₃,hafter,hreport⟩ := ih h₂ hkeys.2 hmem
      refine ⟨c₁,w₃,(hothers _ hne).trans hbefore,h₃,hafter,?_⟩
      rw [SyncReport.about_append,hown.report_about hne,hreport,SyncReport.empty_append]

/-- The agents of the files are no orphans. -/
theorem disableOrphans_at {keys : List String} {c' : Catalogue} (h : disableOrphans now c keys = .ok c')
    (hkey : key ∈ keys) : SameAt key c c' := by
  obtain ⟨hconf,hagents⟩ := setAgents_eq h
  constructor
  · have hcomp : ((fun a : Agent => decide (a.key = key)) ∘ fun a =>
        if orphaned c keys a then { a with status := .disabled, updatedAt := now } else a) =
          fun a => decide (a.key = key) := by
      funext a
      by_cases ha : orphaned c keys a = true <;> simp [ha]
    rw [agentOf,hagents,List.find?_map,hcomp,← agentOf]
    cases ha : c.agentOf key with
    | none => rfl
    | some a =>
      have hno : orphaned c keys a = false := by
        simp [orphaned,agentOf_key ha,hkey]
      simp [hno]
  · intro a _
    exact configsOf_of_configs hconf a.id

/-- The part of a synchronisation after the checks. -/
def writeSpecs (mitraEnabled : Bool) (mode : SyncMode) (fetch : Fetch) (now : ℕ) (specs : List SpecFile)
    (c : Catalogue) : Except WriteError Written := do
  let w ← syncSpecs mitraEnabled mode fetch now specs c
  let keys := specs.map (·.key)
  let orphans := (w.catalogue.agents.filter (orphaned w.catalogue keys)).map (·.key)
  let c ← disableOrphans now w.catalogue keys
  pure { w with catalogue := c, report := w.report.append { orphaned := orphans } }

theorem sync_eq {specs : List SpecFile} (hmode : mode ≠ .off) (hpre : preflight mitraEnabled specs = true) :
    sync mitraEnabled mode fetch now (specs.map some) c = writeSpecs mitraEnabled mode fetch now specs c := by
  have hmap : (specs.map some).mapM id = some specs := mapM_eq_some_iff.mpr (by simp)
  unfold sync
  rw [if_neg hmode,hmap]
  simp only [hpre,if_true]
  rfl

/-- The files of a synchronisation that goes through validate, and pass the checks. -/
theorem sync_specs {files : List (Option SpecFile)} (hmode : mode ≠ .off)
    (h : sync mitraEnabled mode fetch now files c = .ok w) :
    ∃ specs, files = specs.map some ∧ preflight mitraEnabled specs = true := by
  unfold sync at h
  rw [if_neg hmode] at h
  cases hmap : files.mapM id with
  | none =>
    rw [hmap] at h
    cases h
  | some specs =>
    rw [hmap] at h
    simp only at h
    split at h
    · rename_i hpre
      refine ⟨specs,?_,hpre⟩
      simpa using mapM_eq_some_iff.mp hmap
    · cases h

/-- A synchronisation that goes through. -/
structure Synced (mitraEnabled : Bool) (mode : SyncMode) (fetch : Fetch) (now : ℕ) (c : Catalogue)
    (specs : List SpecFile) (w w₁ : Written) : Prop where
  keys : (specs.map (·.key)).Nodup
  written : syncSpecs mitraEnabled mode fetch now specs c = .ok w₁
  orphans : disableOrphans now w₁.catalogue (specs.map (·.key)) = .ok w.catalogue
  report : ∀ key, w.report.about key = w₁.report.about key

theorem sync_ok {specs : List SpecFile} (hmode : mode ≠ .off)
    (h : sync mitraEnabled mode fetch now (specs.map some) c = .ok w) :
    ∃ w₁, Synced mitraEnabled mode fetch now c specs w w₁ := by
  obtain ⟨specs',hfiles,hpre⟩ := sync_specs hmode h
  obtain rfl : specs = specs' := List.map_injective_iff.mpr (Option.some_injective _) hfiles
  rw [sync_eq hmode hpre] at h
  simp only [writeSpecs,bind_eq_ok,pure_eq_ok] at h
  obtain ⟨w₁,h₁,c₂,h₂,rfl⟩ := h
  simp only [preflight,Bool.and_eq_true,decide_eq_true_eq] at hpre
  refine ⟨w₁,hpre.1.1.1,h₁,h₂,fun key => ?_⟩
  rw [SyncReport.about_append]
  exact SyncReport.append_empty _

/-- What a synchronisation does to the agent of one of its files, that file does. -/
theorem sync_at {specs : List SpecFile} (hmode : mode ≠ .off)
    (h : sync mitraEnabled mode fetch now (specs.map some) c = .ok w) (hspec : spec ∈ specs) :
    ∃ c₁ w₁, SameAt spec.key c c₁ ∧ syncSpec mitraEnabled mode fetch now c₁ spec = .ok w₁ ∧
      SameAt spec.key w₁.catalogue w.catalogue ∧ w.report.about spec.key = w₁.report.about spec.key := by
  obtain ⟨w',hs⟩ := sync_ok hmode h
  obtain ⟨c₁,w₁,hbefore,h₁,hafter,hreport⟩ := syncSpecs_at hs.written hs.keys hspec
  have hkey : spec.key ∈ specs.map (·.key) := List.mem_map_of_mem hspec
  exact ⟨c₁,w₁,hbefore,h₁,hafter.trans (disableOrphans_at hs.orphans hkey),(hs.report _).trans hreport⟩

end ConfigSyncService

end Saarathi
