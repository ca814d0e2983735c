import Saarathi.ConfigStatements

/-!
# Configuration writes and scopes

The writers address the rows of an agent, not those of a scope. This module says
when a write nevertheless leaves the rows of every other scope alone.
-/

namespace Saarathi

/-- A row outside the default scope, which every write is meant for. -/
def AgentConfig.other (r : AgentConfig) : Bool := decide (r.scope ≠ defaultScope)

/-- No row outside the default scope has changed. -/
def Kept (c c' : Catalogue) : Prop :=
  ∀ agent, (c'.configsOf agent).filter (·.other) = (c.configsOf agent).filter (·.other)

/-- Each version number that was given out is the next one of the default scope. -/
def OwnVersions (c : Catalogue) (versions : List (AgentId × ℤ)) : Prop :=
  ∀ p ∈ versions, p.2 = AgentConfig.nextVersion ((c.configsOf p.1).filter fun r => !r.other)

/-- A write that stays within the default scope. -/
def Confined (c : Catalogue) (w : Written) : Prop := Kept c w.catalogue ∧ OwnVersions c w.versions

/-- A reactivation of `version` changes a row outside the default scope. -/
def ReactivatesAcross (now : ℕ) (version : ℤ) (rows : List AgentConfig) : Prop :=
  ∃ r ∈ rows, r.other = true ∧
    ((r.version ≠ version ∧ r.isActive = true) ∨
      (r.version = version ∧ ¬ (r.isActive = true ∧ r.activatedAt = some now)))

/-- A new version of the default scope deactivates a row outside it, or is numbered by one. -/
def StoresAcross (adopt : Bool) (rows : List AgentConfig) : Prop :=
  (adopt = true ∧ ∃ r ∈ rows, r.other = true ∧ r.isActive = true) ∨
    AgentConfig.nextVersion rows ≠ AgentConfig.nextVersion (rows.filter fun r => !r.other)

section Rows

open AgentConfig

variable {rows : List AgentConfig} {now : ℕ} {version : ℤ}

theorem filter_map_other {f : AgentConfig → AgentConfig} (hf : ∀ r, (f r).scope = r.scope) :
    (rows.map f).filter (·.other) = rows.filter (·.other) ↔ ∀ r ∈ rows, r.other = true → f r = r := by
  have hother : (fun r : AgentConfig => (f r).other) = fun r => r.other := by
    funext r
    simp [other,hf]
  have hcomp : AgentConfig.other ∘ f = AgentConfig.other := hother
  have hself : ∀ rs : List AgentConfig, rs.map f = rs ↔ ∀ r ∈ rs, f r = r := by
    intro rs
    simpa using List.map_inj_left (f := f) (g := id) (l := rs)
  rw [List.filter_map,hcomp,hself]
  constructor
  · intro h r hr ho
    exact h r (List.mem_filter.mpr ⟨hr,ho⟩)
  · intro h r hr
    exact h r (List.mem_filter.mp hr).1 (List.mem_filter.mp hr).2

theorem reactivate_eq_self {r : AgentConfig} : reactivate now version r = r ↔
    ¬ ((r.version ≠ version ∧ r.isActive = true) ∨
      (r.version = version ∧ ¬ (r.isActive = true ∧ r.activatedAt = some now))) := by
  obtain ⟨agentId,scope,v,source,checksum,config,isActive,activatedAt⟩ := r
  by_cases hv : v = version
  · simp [reactivate,hv,activated,eq_comm]
  · simp [reactivate,hv,deactivated,eq_comm]

theorem reactivate_kept_iff : (rows.map (reactivate now version)).filter (·.other) =
    rows.filter (·.other) ↔ ¬ ReactivatesAcross now version rows := by
  rw [filter_map_other reactivate_scope]
  simp only [reactivate_eq_self,ReactivatesAcross]
  constructor
  · rintro h ⟨r,hr,ho,hc⟩
    exact h r hr ho hc
  · intro h r hr ho hc
    exact h ⟨r,hr,ho,hc⟩

theorem deactivated_eq_self {r : AgentConfig} : r.deactivated = r ↔ r.isActive = false := by
  obtain ⟨agentId,scope,v,source,checksum,config,isActive,activatedAt⟩ := r
  simp [deactivated,eq_comm]

theorem nextVersion_map {f : AgentConfig → AgentConfig} (hf : ∀ r, (f r).version = r.version) :
    nextVersion (rows.map f) = nextVersion rows := by
  simp [nextVersion,Function.comp_def,hf]

end Rows

/-- A write of one agent's rows, which is confined to the default scope unless it `crosses`. -/
structure OnAgent (agent : AgentId) (crosses : Prop) (c : Catalogue) (w : Written) : Prop where
  others : ∀ b, b ≠ agent → w.catalogue.configsOf b = c.configsOf b
  agents : w.catalogue.agents = c.agents
  versions : ∀ p ∈ w.versions, p.1 = agent
  confined : ((w.catalogue.configsOf agent).filter (·.other) = (c.configsOf agent).filter (·.other) ∧
    OwnVersions c w.versions) ↔ ¬ crosses

namespace OnAgent

variable {agent : AgentId} {crosses : Prop} {c c₁ c₂ : Catalogue} {w : Written} {now : ℕ}
  {report : SyncReport}

theorem stays_iff (h : OnAgent agent crosses c w) :
    Confined c w ↔ ¬ crosses := by
  rw [Confined,← h.confined]
  constructor
  · rintro ⟨hk,hv⟩
    exact ⟨hk agent,hv⟩
  · rintro ⟨hk,hv⟩
    refine ⟨?_,hv⟩
    intro b
    by_cases hb : b = agent
    · rw [hb]
      exact hk
    · rw [h.others b hb]

theorem refl (agent : AgentId) (c : Catalogue) (report : SyncReport) :
    OnAgent agent False c { catalogue := c, report := report } :=
  ⟨fun _ _ => rfl,rfl,by simp,by simp [OwnVersions]⟩

theorem of_rewrites {rows : List AgentConfig} (h : Catalogue.Rewrites agent rows c c₁)
    (hv : ∀ p ∈ w.versions, p.1 = agent) (hw : w.catalogue = c₁)
    (hc : (rows.filter (·.other) = (c.configsOf agent).filter (·.other) ∧ OwnVersions c w.versions) ↔
      ¬ crosses) : OnAgent agent crosses c w := by
  subst hw
  exact ⟨h.others,h.agents,hv,by rw [h.rows]; exact hc⟩

theorem reactivate {p : AgentConfig → Bool} {version : ℤ} (hp : ∀ r, r.version ≠ version → p r = true)
    (h₁ : c.updateConfigs agent p AgentConfig.deactivated = .ok c₁)
    (h₂ : c₁.updateConfigs agent (·.version = version) (AgentConfig.activated now) = .ok c₂) :
    OnAgent agent (ReactivatesAcross now version (c.configsOf agent)) c
      { catalogue := c₂, report := report } := by
  refine of_rewrites (Catalogue.reactivate_rewrites hp h₁ h₂) (by simp) rfl ?_
  rw [reactivate_kept_iff]
  simp [OwnVersions]

theorem store {p : AgentConfig → Bool} {adopt : Bool} {version : ℤ} {source : ConfigSource}
    {spec : SpecFile} {jsonb : Bool} (hp : ∀ r, r.isActive = true → p r = true)
    (hversion : version = AgentConfig.nextVersion (c.configsOf agent))
    (h₁ : (if adopt = true then c.updateConfigs agent p AgentConfig.deactivated else pure c) = .ok c₁)
    (h₂ : c₁.insertConfig jsonb (Catalogue.versionRow agent version source spec adopt now) = .ok c₂) :
    OnAgent agent (StoresAcross adopt (c.configsOf agent)) c
      { catalogue := c₂, versions := [(agent,version)], report := report } := by
  refine of_rewrites (Catalogue.withVersion_rewrites hp rfl h₁ h₂) (by simp) rfl ?_
  have hdefault : (Catalogue.versionRow agent version source spec adopt now).other = false := by
    simp [Catalogue.versionRow,AgentConfig.other]
  have hown : OwnVersions c [(agent,version)] ↔ AgentConfig.nextVersion (c.configsOf agent) =
      AgentConfig.nextVersion ((c.configsOf agent).filter fun r => !r.other) := by
    simp [OwnVersions,hversion]
  have hfilter : ∀ rows, (Catalogue.withVersion adopt (Catalogue.versionRow agent version source spec
      adopt now) rows).filter (·.other) =
        (if adopt = true then rows.map AgentConfig.deactivated else rows).filter (·.other) := by
    intro rows
    rw [Catalogue.withVersion,List.filter_append]
    simp [hdefault]
  rw [hfilter,hown,StoresAcross]
  cases adopt with
  | false => simp
  | true =>
    have hmap : ((c.configsOf agent).map AgentConfig.deactivated).filter (·.other) =
        (c.configsOf agent).filter (·.other) ↔ ∀ r ∈ c.configsOf agent, r.other = true → r.deactivated = r :=
      filter_map_other fun _ => rfl
    rw [if_pos rfl,hmap]
    simp only [deactivated_eq_self,true_and,not_or,not_exists,not_and,ne_eq,not_not,Bool.not_eq_true]

end OnAgent

/-- A write that leaves the rows of every agent outside `S` as they are. -/
structure Touches (S : Set AgentId) (c : Catalogue) (w : Written) : Prop where
  others : ∀ b, b ∉ S → w.catalogue.configsOf b = c.configsOf b
  versions : ∀ p ∈ w.versions, p.1 ∈ S

theorem OnAgent.touches {agent : AgentId} {crosses : Prop} {c : Catalogue} {w : Written}
    (h : OnAgent agent crosses c w) : Touches {agent} c w :=
  ⟨fun b hb => h.others b (by simpa using hb),fun p hp => by simpa using h.versions p hp⟩

namespace Touches

variable {S T : Set AgentId} {c c' : Catalogue} {w w' : Written}

theorem of_configs (hc : c'.configs = c.configs) (h : Touches S c' w) : Touches S c w :=
  ⟨fun b hb => (h.others b hb).trans (Catalogue.configsOf_of_configs hc b),h.versions⟩

theorem confined_congr (hc : c'.configs = c.configs) : Confined c' w ↔ Confined c w := by
  simp only [Confined,Kept,OwnVersions,Catalogue.configsOf_of_configs hc]

/-- One write after the other, of other agents' rows. -/
theorem append (h : Touches S c w) (h' : Touches T w.catalogue w') (report : SyncReport) :
    Touches (S ∪ T) c ⟨w'.catalogue,w.versions ++ w'.versions,report⟩ := by
  constructor
  · intro b hb
    rw [Set.mem_union,not_or] at hb
    exact (h'.others b hb.2).trans (h.others b hb.1)
  · intro p hp
    rcases List.mem_append.mp hp with hp | hp
    · exact Or.inl (h.versions p hp)
    · exact Or.inr (h'.versions p hp)

theorem append_confined (h : Touches S c w) (h' : Touches T w.catalogue w') (hST : ∀ b ∈ S, b ∉ T)
    (report : SyncReport) : Confined c ⟨w'.catalogue,w.versions ++ w'.versions,report⟩ ↔
      Confined c w ∧ Confined w.catalogue w' := by
  have hT : ∀ b, b ∈ T → w.catalogue.configsOf b = c.configsOf b := by
    intro b hb
    exact h.others b fun hbS => hST b hbS hb
  have hown : OwnVersions w.catalogue w'.versions ↔ OwnVersions c w'.versions := by
    unfold OwnVersions
    constructor
    · intro hv p hp
      rw [hv p hp,hT p.1 (h'.versions p hp)]
    · intro hv p hp
      rw [hv p hp,hT p.1 (h'.versions p hp)]
  have hkept : Kept c w'.catalogue ↔ Kept c w.catalogue ∧ Kept w.catalogue w'.catalogue := by
    constructor
    · intro hk
      constructor
      · intro b
        by_cases hb : b ∈ S
        · rw [← h'.others b (hST b hb)]
          exact hk b
        · rw [h.others b hb]
      · intro b
        by_cases hb : b ∈ T
        · rw [hT b hb]
          exact hk b
        · rw [h'.others b hb]
    · rintro ⟨hk,hk'⟩ b
      exact (hk' b).trans (hk b)
  have happ : OwnVersions c (w.versions ++ w'.versions) ↔
      OwnVersions c w.versions ∧ OwnVersions c w'.versions := by
    simp only [OwnVersions,List.forall_mem_append]
  simp only [Confined,hkept,happ,hown]
  tauto

end Touches

/-- The synchronisation of a specification changes a row outside the default scope of the agent that
has these rows, or numbers a version by one. -/
def SyncCrosses (mode : SyncMode) (fetch : Fetch) (now : ℕ) (rows : List AgentConfig)
    (spec : SpecFile) : Prop :=
  let active := ConfigSyncService.activeConfig fetch rows
  match ConfigSyncService.latestYaml fetch rows with
  | some latest =>
    if latest.checksum = spec.checksum then
      (active.any (·.source = .db) && mode = .force) = true ∧ ReactivatesAcross now latest.version rows
    else StoresAcross (ConfigSyncService.adopts mode active) rows
  | none => StoresAcross (ConfigSyncService.adopts mode active) rows

/-- The agent of the specification is there, and its synchronisation crosses. -/
def SpecCrosses (mode : SyncMode) (fetch : Fetch) (now : ℕ) (c : Catalogue) (spec : SpecFile) : Prop :=
  ∃ agent, c.idOf spec.key = some agent ∧ SyncCrosses mode fetch now (c.configsOf agent) spec

namespace ConfigSyncService

variable {mitraEnabled : Bool} {mode : SyncMode} {fetch : Fetch} {now : ℕ} {c : Catalogue}
  {spec : SpecFile} {w : Written}

theorem syncUnchanged_onAgent {agent : AgentId} {latest : AgentConfig} {active : Option AgentConfig}
    (h : syncUnchanged mode now c agent spec latest active = .ok w) :
    OnAgent agent ((active.any (·.source = .db) && mode = .force) = true ∧
      ReactivatesAcross now latest.version (c.configsOf agent)) c w := by
  unfold syncUnchanged at h
  by_cases hdb : active.any (·.source = .db) = true
  · rw [if_pos hdb] at h
    by_cases hmode : mode = .force
    · rw [if_pos hmode] at h
      simp only [bind_eq_ok,pure_eq_ok] at h
      obtain ⟨c₁,h₁,c₂,h₂,rfl⟩ := h
      simp only [hdb,hmode,decide_true,Bool.and_self,true_and]
      exact OnAgent.reactivate (fun r hr => by simpa using hr) h₁ h₂
    · rw [if_neg hmode] at h
      obtain rfl := pure_eq_ok.mp h
      simp only [hmode,decide_false,Bool.and_false,Bool.false_eq_true,false_and]
      exact OnAgent.refl agent c _
  · rw [if_neg hdb] at h
    obtain rfl := pure_eq_ok.mp h
    simp only [hdb,Bool.false_and,Bool.false_eq_true,false_and]
    exact OnAgent.refl agent c _

theorem syncChanged_onAgent {agent : AgentId} {active : Option AgentConfig}
    (h : syncChanged mode now c agent spec active = .ok w) :
    OnAgent agent (StoresAcross (adopts mode active) (c.configsOf agent)) c w := by
  unfold syncChanged at h
  simp only [bind_eq_ok,pure_eq_ok] at h
  obtain ⟨c₁,h₁,c₂,h₂,rfl⟩ := h
  exact OnAgent.store (fun r hr => hr) rfl h₁ h₂

theorem syncConfigs_onAgent {agent : AgentId} (h : syncConfigs mode fetch now c agent spec = .ok w) :
    OnAgent agent (SyncCrosses mode fetch now (c.configsOf agent) spec) c w := by
  unfold syncConfigs at h
  unfold SyncCrosses
  cases hlatest : latestYaml fetch (c.configsOf agent) with
  | none =>
    simp only [hlatest] at h ⊢
    exact syncChanged_onAgent h
  | some latest =>
    simp only [hlatest] at h ⊢
    by_cases hsum : latest.checksum = spec.checksum
    · rw [if_pos hsum] at h ⊢
      exact syncUnchanged_onAgent h
    · rw [if_neg hsum] at h ⊢
      exact syncChanged_onAgent h

/-- A new agent has no other rows. -/
theorem createAgent_touches (hnone : c.idOf spec.key = none)
    (h : createAgent mitraEnabled now c spec = .ok w) :
    Touches {c.freshAgent} c w ∧ Confined c w ∧ w.catalogue.idOf spec.key = some c.freshAgent ∧
      ∀ key, key ≠ spec.key → w.catalogue.idOf key = c.idOf key := by
  obtain ⟨hagents,hrows,hothers,hversions,-⟩ := createAgent_writes h
  obtain ⟨hid,hids⟩ := Catalogue.idOf_append hagents hnone
  refine ⟨⟨by simpa using hothers,by simp [hversions]⟩,⟨?_,?_⟩,hid,hids⟩
  · intro b
    by_cases hb : b = c.freshAgent
    · rw [hb,hrows,Catalogue.configsOf_freshAgent]
      simp [AgentConfig.other,Catalogue.versionRow]
    · rw [hothers b hb]
  · simp [OwnVersions,hversions,Catalogue.configsOf_freshAgent,AgentConfig.nextVersion]

/-- One specification writes the rows of its own agent. -/
theorem syncSpec_touches (h : syncSpec mitraEnabled mode fetch now c spec = .ok w) :
    ∃ agent, Touches {agent} c w ∧ (Confined c w ↔ ¬ SpecCrosses mode fetch now c spec) ∧
      w.catalogue.idOf spec.key = some agent ∧
      ∀ key, key ≠ spec.key → w.catalogue.idOf key = c.idOf key := by
  unfold syncSpec at h
  cases hfind : c.agents.find? (·.key = spec.key) with
  | none =>
    simp only [hfind] at h
    have hnone : c.idOf spec.key = none := by rw [Catalogue.idOf,hfind,Option.map_none]
    obtain ⟨htouch,hconf,hid,hids⟩ := createAgent_touches hnone h
    refine ⟨c.freshAgent,htouch,?_,hid,hids⟩
    simp [hconf,SpecCrosses,hnone]
  | some a =>
    have hkey : c.idOf spec.key = some a.id := by rw [Catalogue.idOf,hfind,Option.map_some]
    simp only [hfind] at h
    split at h
    swap
    · cases h
    obtain ⟨c₁,h₁,h⟩ := bind_eq_ok.mp h
    obtain ⟨hc₁,hid₁⟩ := Catalogue.updateAgent_eq h₁ (fun _ => rfl) (fun _ => rfl)
    -- Both updates of the agent's own row leave the configurations and the identifiers alone.
    have hsync : ∃ c₂, c₂.configs = c.configs ∧ (∀ key, c₂.idOf key = c.idOf key) ∧
        syncConfigs mode fetch now c₂ a.id spec = .ok w := by
      obtain ⟨c₂,h₂,h⟩ := bind_eq_ok.mp h
      unfold syncStatus at h₂
      split at h₂
      · obtain ⟨hc₂,hid₂⟩ := Catalogue.updateAgent_eq h₂ (fun _ => rfl) (fun _ => rfl)
        exact ⟨c₂,hc₂.trans hc₁,fun key => (hid₂ key).trans (hid₁ key),h⟩
      · obtain rfl := pure_eq_ok.mp h₂
        exact ⟨c₁,hc₁,hid₁,h⟩
    obtain ⟨c₂,hc₂,hid₂,hw⟩ := hsync
    have hagent := syncConfigs_onAgent hw
    have hids : ∀ key, w.catalogue.idOf key = c.idOf key := by
      intro key
      rw [← hid₂ key,Catalogue.idOf,hagent.agents,Catalogue.idOf]
    refine ⟨a.id,hagent.touches.of_configs hc₂,?_,by rw [hids,hkey],fun key _ => hids key⟩
    rw [← Touches.confined_congr hc₂,hagent.stays_iff,Catalogue.configsOf_of_configs hc₂]
    simp [SpecCrosses,hkey]

/-- The loop: each specification writes another agent's rows, so that whether it crosses shows in the
rows before the first one. -/
theorem syncSpecs_touches {specs : List SpecFile} : ∀ {c : Catalogue} {w : Written},
    (specs.map (·.key)).Nodup → syncSpecs mitraEnabled mode fetch now specs c = .ok w →
    ∃ S, Touches S c w ∧
      (Confined c w ↔ ¬ ∃ spec ∈ specs, SpecCrosses mode fetch now c spec) ∧
      (∀ b ∈ S, ∃ spec ∈ specs, w.catalogue.idOf spec.key = some b) ∧
      ∀ key, key ∉ specs.map (·.key) → w.catalogue.idOf key = c.idOf key := by
  induction specs with
  | nil =>
    intro c w _ h
    obtain rfl := pure_eq_ok.mp h
    refine ⟨∅,⟨by simp,by simp⟩,?_,by simp,by simp⟩
    simp [Confined,Kept,OwnVersions]
  | cons spec specs ih =>
    intro c w hnodup h
    simp only [List.map_cons,List.nodup_cons] at hnodup
    simp only [syncSpecs,bind_eq_ok,pure_eq_ok] at h
    obtain ⟨w₁,h₁,w₂,h₂,rfl⟩ := h
    obtain ⟨agent,htouch,hconf,hid,hids⟩ := syncSpec_touches h₁
    obtain ⟨T,htouch',hconf',hid',hids'⟩ := ih hnodup.2 h₂
    have hself : w₂.catalogue.idOf spec.key = some agent := (hids' spec.key hnodup.1).trans hid
    have hdisj : ∀ b ∈ ({agent} : Set AgentId), b ∉ T := by
      rintro b rfl hb
      obtain ⟨spec',hspec',hb'⟩ := hid' b hb
      apply hnodup.1
      rw [Catalogue.idOf_injective hself hb']
      exact List.mem_map_of_mem hspec'
    have hcross : ∀ spec' ∈ specs, SpecCrosses mode fetch now w₁.catalogue spec' ↔
        SpecCrosses mode fetch now c spec' := by
      intro spec' hspec'
      have hkey : spec'.key ≠ spec.key := fun he => hnodup.1 (he ▸ List.mem_map_of_mem hspec')
      unfold SpecCrosses
      rw [hids spec'.key hkey]
      apply exists_congr
      intro b
      apply and_congr_right
      intro hb
      have hne : b ∉ ({agent} : Set AgentId) := by
        rintro rfl
        exact hkey (Catalogue.idOf_injective ((hids _ hkey).trans hb) hid)
      rw [htouch.others b hne]
    refine ⟨{agent} ∪ T,htouch.append htouch' _,?_,?_,?_⟩
    · rw [htouch.append_confined htouch' hdisj,hconf,hconf']
      have hall : (∃ spec' ∈ specs, SpecCrosses mode fetch now w₁.catalogue spec') ↔
          ∃ spec' ∈ specs, SpecCrosses mode fetch now c spec' := by
        apply exists_congr
        intro spec'
        exact and_congr_right (hcross spec')
      rw [hall,← not_or]
      simp only [List.mem_cons,exists_eq_or_imp]
    · rintro b (rfl | hb)
      · exact ⟨spec,List.mem_cons_self,hself⟩
      · obtain ⟨spec',hspec',hb'⟩ := hid' b hb
        exact ⟨spec',List.mem_cons_of_mem _ hspec',hb'⟩
    · intro key hkey
      simp only [List.map_cons,List.mem_cons,not_or] at hkey
      exact (hids' key hkey.2).trans (hids key hkey.1)

theorem sync_confined_iff {files : List (Option SpecFile)}
    (h : sync mitraEnabled mode fetch now files c = .ok w) :
    Confined c w ↔ ¬ (mode ≠ .off ∧ ∃ spec, some spec ∈ files ∧ SpecCrosses mode fetch now c spec) := by
  unfold sync at h
  by_cases hoff : mode = .off
  · rw [if_pos hoff] at h
    obtain rfl := pure_eq_ok.mp h
    simp [hoff,Confined,Kept,OwnVersions]
  · rw [if_neg hoff] at h
    cases hfiles : files.mapM id with
    | none =>
      simp only [hfiles] at h
      cases h
    | some specs =>
      simp only [hfiles] at h
      split at h
      · rename_i hpre
        simp only [bind_eq_ok,pure_eq_ok] at h
        obtain ⟨w₁,h₁,c₂,h₂,rfl⟩ := h
        have hnodup : (specs.map (·.key)).Nodup := by
          simp only [preflight,Bool.and_eq_true,decide_eq_true_eq] at hpre
          exact hpre.1.1.1
        obtain ⟨S,-,hconf,-,-⟩ := syncSpecs_touches hnodup h₁
        have horphans : c₂.configs = w₁.catalogue.configs := (Catalogue.setAgents_eq h₂).1
        have hsame : ∀ report, Confined c ⟨c₂,w₁.versions,report⟩ ↔ Confined c w₁ := by
          intro report
          simp only [Confined,Kept,Catalogue.configsOf_of_configs horphans]
        have hmem : ∀ spec, some spec ∈ files ↔ spec ∈ specs := by
          intro spec
          rw [mapM_eq_some_iff,List.map_id] at hfiles
          simp [hfiles]
        simp only [hsame,hconf,hmem,ne_eq,hoff,not_false_eq_true,true_and]
      · cases h

end ConfigSyncService

/-- When an operation changes a row outside the default scope, or numbers a version by one. -/
def ConfigWrite.Crosses (fetch : Fetch) (now : ℕ) (c : Catalogue) : ConfigWrite → Prop
  | sync _ mode files => mode ≠ .off ∧ ∃ spec, some spec ∈ files ∧ SpecCrosses mode fetch now c spec
  | create key body => ∃ a spec, c.agents.find? (·.key = key) = some a ∧ body = some spec ∧
      spec.agentType = a.agentType ∧ ¬ (spec.agentType = .llm ∧ spec.toolsKnown = false) ∧
      StoresAcross true (c.configsOf a.id)
  | activate key version => ∃ a v, c.agents.find? (·.key = key) = some a ∧ version = some v ∧
      (∃ r ∈ c.configsOf a.id, r.version = v) ∧ ReactivatesAcross now v (c.configsOf a.id)

namespace AdminRoutes

variable {now : ℕ} {key : String} {c : Catalogue} {answer : AdminAnswer} {w : Written}

theorem confined_nil (c : Catalogue) : Confined c { catalogue := c } := by
  simp [Confined,Kept,OwnVersions]

theorem createConfigVersion_confined_iff {fetch : Fetch} {body : Option SpecFile}
    (h : createConfigVersion now key body c = .ok (answer,w)) :
    Confined c w ↔ ¬ (ConfigWrite.create key body).Crosses fetch now c := by
  unfold createConfigVersion at h
  unfold ConfigWrite.Crosses
  cases hfind : c.agents.find? (·.key = key) with
  | none =>
    simp only [hfind,pure_eq_ok,Prod.mk.injEq] at h
    obtain ⟨-,rfl⟩ := h
    simp [hfind,confined_nil]
  | some a =>
    cases body with
    | none =>
      simp only [hfind,pure_eq_ok,Prod.mk.injEq] at h
      obtain ⟨-,rfl⟩ := h
      simp [confined_nil]
    | some spec =>
      simp only [hfind] at h ⊢
      by_cases hbad : spec.agentType ≠ a.agentType ∨ (spec.agentType = .llm ∧ spec.toolsKnown = false)
      · rw [if_pos hbad] at h
        simp only [pure_eq_ok,Prod.mk.injEq] at h
        obtain ⟨-,rfl⟩ := h
        refine iff_of_true (confined_nil c) ?_
        rintro ⟨a',spec',ha,hs,htype,htools,-⟩
        obtain rfl := Option.some.inj ha
        obtain rfl := Option.some.inj hs
        rcases hbad with hbad | hbad
        · exact hbad htype
        · exact htools hbad
      · rw [if_neg hbad] at h
        simp only [bind_eq_ok,pure_eq_ok,Prod.mk.injEq] at h
        obtain ⟨c₁,h₁,c₂,h₂,-,rfl⟩ := h
        have hversion : AgentConfig.nextVersion (c₁.configsOf a.id) =
            AgentConfig.nextVersion (c.configsOf a.id) := by
          rw [(Catalogue.updateConfigs_rewrites h₁ fun _ => rfl).rows]
          exact nextVersion_map fun r => by split <;> rfl
        have hdeactivate : (if true = true then
            c.updateConfigs a.id (fun _ => true) AgentConfig.deactivated else pure c) = .ok c₁ := by
          simpa using h₁
        have hagent : OnAgent a.id (StoresAcross true (c.configsOf a.id)) c
            { catalogue := c₂, versions := [(a.id,AgentConfig.nextVersion (c₁.configsOf a.id))] } :=
          OnAgent.store (fun _ _ => rfl) hversion hdeactivate h₂
        rw [hagent.stays_iff]
        push Not at hbad
        constructor
        · rintro hno ⟨a',spec',ha,-,-,-,hcross⟩
          obtain rfl := Option.some.inj ha
          exact hno hcross
        · intro hno hcross
          exact hno ⟨a,spec,rfl,rfl,hbad.1,fun hb => hbad.2 hb.1 hb.2,hcross⟩

theorem activateConfigVersion_confined_iff {fetch : Fetch} {version : Option ℤ}
    (h : activateConfigVersion now key version c = .ok (answer,w)) :
    Confined c w ↔ ¬ (ConfigWrite.activate key version).Crosses fetch now c := by
  unfold activateConfigVersion at h
  unfold ConfigWrite.Crosses
  cases hfind : c.agents.find? (·.key = key) with
  | none =>
    simp only [hfind,pure_eq_ok,Prod.mk.injEq] at h
    obtain ⟨-,rfl⟩ := h
    simp [hfind,confined_nil]
  | some a =>
    cases version with
    | none =>
      simp only [hfind,pure_eq_ok,Prod.mk.injEq] at h
      obtain ⟨-,rfl⟩ := h
      simp [confined_nil]
    | some v =>
      simp only [hfind] at h ⊢
      by_cases hany : (c.configsOf a.id).any (·.version = v) = true
      · rw [if_pos hany] at h
        simp only [bind_eq_ok,pure_eq_ok,Prod.mk.injEq] at h
        obtain ⟨c₁,h₁,c₂,h₂,-,rfl⟩ := h
        rw [(OnAgent.reactivate (fun _ _ => rfl) h₁ h₂).stays_iff]
        have hrow : ∃ r ∈ c.configsOf a.id, r.version = v := by simpa using hany
        constructor
        · rintro hno ⟨a',v',ha,hv,-,hcross⟩
          obtain rfl := Option.some.inj ha
          obtain rfl := Option.some.inj hv
          exact hno hcross
        · intro hno hcross
          exact hno ⟨a,v,rfl,rfl,hrow,hcross⟩
      · rw [if_neg hany] at h
        simp only [pure_eq_ok,Prod.mk.injEq] at h
        obtain ⟨-,rfl⟩ := h
        have hrow : ¬ ∃ r ∈ c.configsOf a.id, r.version = v := by simpa using hany
        refine iff_of_true (confined_nil c) ?_
        rintro ⟨a',v',ha,hv,hr,-⟩
        obtain rfl := Option.some.inj ha
        obtain rfl := Option.some.inj hv
        exact hrow hr

end AdminRoutes

/-- For every content of the tables and every operation that goes through: it stays within the
default scope exactly when it does not cross. -/
theorem ConfigWrite.confined_iff {fetch : Fetch} {now : ℕ} {c : Catalogue} {op : ConfigWrite}
    {w : Written} (h : op.run fetch now c = some w) : Confined c w ↔ ¬ op.Crosses fetch now c := by
  cases op with
  | sync mitraEnabled mode files => exact ConfigSyncService.sync_confined_iff (perform_of_run h)
  | create key body =>
    obtain ⟨r,hr,rfl⟩ := map_eq_ok.mp (perform_of_run h)
    exact AdminRoutes.createConfigVersion_confined_iff hr
  | activate key version =>
    obtain ⟨r,hr,rfl⟩ := map_eq_ok.mp (perform_of_run h)
    exact AdminRoutes.activateConfigVersion_confined_iff hr

/-- An agent with an active configuration at the default scope and one at a tenant's. -/
def twoScopes (active : Bool) : Catalogue :=
  { Catalogue.single with
    configs := [
      { agentId := 1, version := 1, source := .yaml, checksum := "a", config := .obj [],
        isActive := true },
      { agentId := 1, scope := ("acme","default"), version := 1, source := .db, checksum := "b",
        config := .obj [], isActive := active }]
    one_active := by cases active <;> decide
    scope_version := by cases active <;> decide }

/-- A new version of the configuration of the default scope. -/
def edit : ConfigWrite := .create "assistant" (some {
  key := "assistant", name := "Saarthi", description := "", agentType := .llm, canonical := .obj []
  checksum := "c" })

/-- Where the tenant's row is no longer active, its version counts no further than the default one. -/
theorem edit_confined : ∃ w, edit.run firstRow 5 (twoScopes false) = some w ∧
    Confined (twoScopes false) w := by
  have hrun : (edit.run firstRow 5 (twoScopes false)).isSome = true := by decide
  obtain ⟨w,hw⟩ := Option.isSome_iff_exists.mp hrun
  refine ⟨w,hw,(ConfigWrite.confined_iff hw).mpr ?_⟩
  rintro ⟨a,spec,ha,-,-,-,hcross⟩
  have hid : a.id = 1 := by
    have hmem : a ∈ (twoScopes false).agents := List.mem_of_find?_eq_some ha
    have heq : a = _ := List.mem_singleton.mp hmem
    rw [heq]
  rw [hid] at hcross
  revert hcross
  unfold StoresAcross
  decide

/-- The edit of the default configuration switches the tenant's off. -/
theorem edit_not_confined :
    ((edit.run firstRow 5 (twoScopes true)).map fun w =>
      (w.catalogue.configsOf 1).map fun r => (r.scope,r.version,r.isActive)) = some [
        (defaultScope,1,false),
        (("acme","default"),1,false),
        (defaultScope,2,true)] ∧
    ∃ w, edit.run firstRow 5 (twoScopes true) = some w ∧ ¬ Confined (twoScopes true) w := by
  have hrows : ((edit.run firstRow 5 (twoScopes true)).map fun w =>
      (w.catalogue.configsOf 1).map fun r => (r.scope,r.version,r.isActive)) = some [
        (defaultScope,1,false),
        (("acme","default"),1,false),
        (defaultScope,2,true)] := by decide
  refine ⟨hrows,?_⟩
  obtain ⟨w,hw,-⟩ := Option.map_eq_some_iff.mp hrows
  refine ⟨w,hw,?_⟩
  rintro ⟨hkept,-⟩
  have hactive : ((edit.run firstRow 5 (twoScopes true)).map fun w =>
      ((w.catalogue.configsOf 1).filter (·.other)).map (·.isActive)) = some [false] := by decide
  rw [hw,Option.map_some,hkept 1] at hactive
  revert hactive
  decide

end Saarathi
