import Saarathi.Acceptance
import Saarathi.Freshness
import Saarathi.Membership

/-!
# Startup

`sync_and_reload` reconciles the configuration files, links the capabilities that
have no members yet and loads the registry for the first time.
-/

namespace Saarathi

/-- One agent of `DEFAULT_MEMBERSHIP`. -/
structure SeedMember where
  agentKey : String
  label : String
  displayOrder : ℤ
  autostart : String

namespace CapabilitySeed

def defaultMembership : List (String × List SeedMember) := [
  ("listening_at_scale",[
    {agentKey := "record_stories", label := "Record Stories", displayOrder := 10,
      autostart := "I want to record a story"},
    {agentKey := "capture_discussion", label := "Capture Discussions", displayOrder := 20,
      autostart := "I want to capture a discussion"}])]

/-- The row that a member of the default is inserted as. -/
def seedRow (capabilityId : ℕ) (m : SeedMember) (a : Agent) : CapabilityAgent where
  capabilityId := capabilityId
  agentId := a.id
  displayOrder := m.displayOrder
  labelOverride := some m.label
  metadata := .obj [("action",.obj [("type",.str "start_agent"),("autostart",.str m.autostart)])]

/-- `INSERT … SELECT … ON CONFLICT DO NOTHING`. -/
def seedMember (capabilityId : ℕ) (c : Catalogue) (m : SeedMember) : Except WriteError Catalogue :=
  match c.agentOf m.agentKey with
  | none => pure c
  | some a =>
    if c.members.any fun r => r.capabilityId = capabilityId && r.agentId = a.id then pure c
    else c.insertMember (some (seedRow capabilityId m a))

/-- A capability of the default scope that has no members gets the shipped ones. -/
def seedCapability (c : Catalogue) (entry : String × List SeedMember) : Except WriteError Catalogue :=
  match c.capabilities.find? fun cap => cap.key = entry.1 && cap.scope = defaultScope with
  | none => pure c
  | some cap =>
    if c.members.any fun r => r.capabilityId = cap.id then pure c
    else entry.2.foldlM (seedMember cap.id) c

def seedDefaultMembership (c : Catalogue) : Except WriteError Catalogue :=
  defaultMembership.foldlM seedCapability c

end CapabilitySeed

/-- What one start of the process finds. -/
structure Startup where
  mitraEnabled : Bool
  mode : SyncMode
  fetch : Fetch
  now : ℕ
  files : List (Option SpecFile)
  /-- A statement of the seed raises. -/
  seedRaises : Bool := false
  /-- The registry's query is answered. -/
  answered : Bool := true
  clock : ℕ := 0

inductive StartupError where
  | sync (e : WriteError)
  | noAgents
  deriving DecidableEq

namespace Startup

variable (v : Validation) (st : Startup)

def sync (c : Catalogue) : Except WriteError Written :=
  ConfigSyncService.sync st.mitraEnabled st.mode st.fetch st.now st.files c

/-- A seed that raises is rolled back and the start goes on. -/
def seed (c : Catalogue) : Catalogue :=
  if st.seedRaises then c
  else match CapabilitySeed.seedDefaultMembership c with
    | .ok c' => c'
    | .error _ => c

/-- A reload that raises keeps the registry as it was. -/
def reload (c : Catalogue) (r : RegistryState) : RegistryState :=
  if st.answered then r.reload v st.clock c else r

/-- `sync_and_reload`, with the registry of a container. -/
def syncAndReload (c : Catalogue) (r : RegistryState) : Except StartupError (Catalogue × RegistryState) :=
  match st.sync c with
  | .error e => throw (.sync e)
  | .ok w => do
    let c := st.seed w.catalogue
    let r := st.reload v c r
    if r.version = 0 then throw .noAgents
    pure (c,r)

end Startup

section Seed

open CapabilitySeed Catalogue

variable {c c' : Catalogue} {st : Startup}

/-- The seed writes memberships only. -/
def Catalogue.SameAgents (c c' : Catalogue) : Prop := c'.agents = c.agents ∧ c'.configs = c.configs

theorem Catalogue.SameAgents.refl (c : Catalogue) : c.SameAgents c := ⟨rfl,rfl⟩

theorem Catalogue.SameAgents.trans {c'' : Catalogue} (h : c.SameAgents c') (h' : c'.SameAgents c'') :
    c.SameAgents c'' := ⟨h'.1.trans h.1,h'.2.trans h.2⟩

theorem Catalogue.SameAgents.reloadRows (h : c.SameAgents c') : c'.reloadRows = c.reloadRows := by
  unfold Catalogue.reloadRows Catalogue.activeConfigs
  rw [h.1,h.2]

theorem Catalogue.SameAgents.reload (h : c.SameAgents c') (v : Validation) : c'.reload v = c.reload v := by
  unfold Catalogue.reload
  rw [h.reloadRows]

theorem foldlM_sameAgents {α : Type} {f : Catalogue → α → Except WriteError Catalogue} {as : List α}
    (hf : ∀ c a c', f c a = .ok c' → c.SameAgents c') (h : as.foldlM f c = .ok c') : c.SameAgents c' := by
  induction as generalizing c with
  | nil =>
    obtain rfl := pure_eq_ok.mp h
    exact .refl _
  | cons a as ih =>
    rw [List.foldlM_cons,bind_eq_ok] at h
    obtain ⟨c₁,h₁,h₂⟩ := h
    exact (hf _ _ _ h₁).trans (ih h₂)

theorem seedMember_sameAgents {id : ℕ} {m : SeedMember} (h : seedMember id c m = .ok c') : c.SameAgents c' := by
  unfold seedMember at h
  split at h
  · obtain rfl := pure_eq_ok.mp h
    exact .refl _
  · split at h
    · obtain rfl := pure_eq_ok.mp h
      exact .refl _
    · rw [Catalogue.insertMember] at h
      split at h
      · obtain rfl := Except.ok.inj h
        exact ⟨rfl,rfl⟩
      · cases h

theorem seedCapability_sameAgents {entry : String × List SeedMember} (h : seedCapability c entry = .ok c') :
    c.SameAgents c' := by
  unfold seedCapability at h
  split at h
  · obtain rfl := pure_eq_ok.mp h
    exact .refl _
  · split at h
    · obtain rfl := pure_eq_ok.mp h
      exact .refl _
    · exact foldlM_sameAgents (fun _ _ _ => seedMember_sameAgents) h

theorem Startup.seed_sameAgents (st : Startup) (c : Catalogue) : c.SameAgents (st.seed c) := by
  unfold Startup.seed
  split
  · exact .refl _
  · split
    · rename_i h
      exact foldlM_sameAgents (fun _ _ _ => seedCapability_sameAgents) h
    · exact .refl _

end Seed

section Start

variable {v : Validation} {st : Startup} {c : Catalogue} {w : Written} {r : RegistryState}

/-- A snapshot is empty exactly where no enabled agent has an active configuration at the default scope. -/
theorem reload_eq_some_nil : c.reload v = some ⟨[]⟩ ↔ c.reloadRows = [] := by
  unfold Catalogue.reload
  constructor
  · intro h
    split at h
    · rename_i agents hm
      obtain rfl : agents = [] := congrArg AgentRegistry.snapshot (Option.some.inj h)
      rw [mapM_eq_some_iff,List.map_nil,List.map_eq_nil_iff] at hm
      exact hm
    · cases h
  · intro h
    rw [h]
    rfl

theorem reload_snapshot {registry : AgentRegistry} (h : c.reload v = some registry) :
    registry.snapshot = [] ↔ c.reloadRows = [] := by
  rw [← reload_eq_some_nil (v := v),h,Option.some.injEq]
  cases registry
  simp

/-- The first start of a container: it goes through where the query is answered and every row parses,
however many rows there are. -/
theorem syncAndReload_first (hs : st.sync c = .ok w) : st.syncAndReload v c {} =
    match w.catalogue.reload v with
    | some registry => if st.answered then
        .ok (st.seed w.catalogue,⟨registry,1,st.clock,(st.seed w.catalogue).loadedMax⟩)
      else .error .noAgents
    | none => .error .noAgents := by
  have hsame := (st.seed_sameAgents w.catalogue).reload v
  simp only [Startup.syncAndReload,hs,Startup.reload,RegistryState.reload,hsame]
  cases w.catalogue.reload v with
  | none => cases st.answered <;> rfl
  | some registry => cases st.answered <;> rfl

/-- The start of a container leaves agents in the registry or raises, exactly if the files do not go through,
the registry's query fails, or some enabled agent has an active configuration at the default scope
after the files went through. -/
theorem startup_nonempty_iff (v : Validation) (st : Startup) (c : Catalogue) :
    ((∀ c' r, st.syncAndReload v c {} = .ok (c',r) → r.registry.snapshot ≠ []) ∧
      ∀ w, st.sync c = .ok w →
        st.answered = false ∨ w.catalogue.reload v = none ∨ w.catalogue.reload v = some ⟨[]⟩ →
        ∃ e, st.syncAndReload v c {} = .error e) ↔
      ∀ w, st.sync c = .ok w → st.answered = true → w.catalogue.reloadRows ≠ [] := by
  constructor
  · rintro ⟨-,hraises⟩ w hs ha hnil
    have hempty := (reload_eq_some_nil (v := v)).mpr hnil
    obtain ⟨e,he⟩ := hraises w hs (.inr (.inr hempty))
    rw [syncAndReload_first hs,hempty] at he
    simp [ha] at he
  · intro hrows
    constructor
    · intro c' r hok
      cases hs : st.sync c with
      | error e =>
        rw [Startup.syncAndReload,hs] at hok
        cases hok
      | ok w =>
        rw [syncAndReload_first hs] at hok
        split at hok
        · rename_i registry hreload
          split at hok
          · rename_i ha
            obtain ⟨-,rfl⟩ := Prod.mk.inj (Except.ok.inj hok)
            exact fun hnil => hrows w hs ha ((reload_snapshot hreload).mp hnil)
          · cases hok
        · cases hok
    · intro w hs hfails
      rw [syncAndReload_first hs]
      rcases hfails with ha | hnone | hempty
      · cases w.catalogue.reload v with
        | none => exact ⟨_,rfl⟩
        | some registry => exact ⟨.noAgents,by simp [ha]⟩
      · rw [hnone]
        exact ⟨_,rfl⟩
      · cases ha : st.answered with
        | false =>
          rw [hempty]
          exact ⟨.noAgents,rfl⟩
        | true => exact absurd (reload_eq_some_nil.mp hempty) (hrows w hs ha)

end Start

section Sample

/-- A start in `off` mode. -/
def Startup.off : Startup where
  mitraEnabled := true
  mode := .off
  fetch := firstRow
  now := 1
  files := []

def Startup.remoteFile : SpecFile where
  key := "record_stories"
  name := "Stories"
  description := ""
  agentType := .remoteFlow
  canonical := .obj []
  checksum := "c"

/-- A start with one file, of a remote flow, while Mitra is switched off. -/
def Startup.mitraOff : Startup where
  mitraEnabled := false
  mode := .safe
  fetch := firstRow
  now := 1
  files := [some remoteFile]

end Sample

/-- Neither empty tables nor an agent that is disabled on arrival stop the start. -/
theorem startup_nonempty_off :
    Startup.off.syncAndReload promptSpecs Catalogue.blank {} = .ok (Catalogue.blank,{version := 1}) ∧
      ∃ c r, Startup.mitraOff.syncAndReload promptSpecs Catalogue.blank {} = .ok (c,r) ∧
        c.agents.map (·.status) = [.disabled] ∧ r.registry.snapshot = [] :=
  ⟨rfl,_,_,rfl,rfl,rfl⟩

end Saarathi
