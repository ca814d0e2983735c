import Saarathi.Sidebar

/-!
# The buttons of the capability document

Each agent of the document is a button that names the agent's key. This module
says which of them the router accepts.
-/

namespace Saarathi

open Program Program.Prog RouterService

namespace AgentRegistry

variable {r : AgentRegistry}

theorem lookup_eq_some (hkeys : (r.snapshot.map (·.key)).Nodup) {key : String} {a : RegisteredAgent} :
    r.lookup key = some a ↔ a ∈ r.snapshot ∧ a.key = key :=
  ScopedSelection.find_eq_some fun _ ha _ hb => List.inj_on_of_nodup_map hkeys ha hb

theorem legacyKey_eq_some (hnames : (r.snapshot.map (·.name)).Nodup) {name key : String} :
    r.legacyKey name = some key ↔ ∃ a ∈ r.snapshot, a.name = name ∧ a.key = key := by
  have hinj : ∀ a ∈ r.snapshot.reverse, ∀ b ∈ r.snapshot.reverse, a.name = b.name → a = b := by
    intro a ha b hb
    exact List.inj_on_of_nodup_map hnames (List.mem_reverse.mp ha) (List.mem_reverse.mp hb)
  rw [legacyKey,Option.map_eq_some_iff]
  simp only [ScopedSelection.find_eq_some hinj,List.mem_reverse,and_assoc]

/-- Which agent a name finds: the one of that key, or else the one that is displayed under it. -/
theorem get_eq_some (hkeys : (r.snapshot.map (·.key)).Nodup) (hnames : (r.snapshot.map (·.name)).Nodup)
    {name : String} {a : RegisteredAgent} : r.get name = some a ↔
      a ∈ r.snapshot ∧ (a.key = name ∨
        ((∀ b ∈ r.snapshot, b.key ≠ name) ∧ a.name = name ∧ a.key ≠ "")) := by
  unfold get
  cases hlookup : r.lookup name with
  | some b =>
    obtain ⟨hb,hkey⟩ := (lookup_eq_some hkeys).mp hlookup
    simp only [Option.some.injEq]
    constructor
    · rintro rfl
      exact ⟨hb,Or.inl hkey⟩
    · rintro ⟨ha,hname | ⟨hno,-⟩⟩
      · exact List.inj_on_of_nodup_map hkeys hb ha (hkey.trans hname.symm)
      · exact absurd hkey (hno b hb)
  | none =>
    have hno : ∀ b ∈ r.snapshot, b.key ≠ name := by
      intro b hb hkey
      rw [(lookup_eq_some hkeys).mpr ⟨hb,hkey⟩] at hlookup
      cases hlookup
    cases hlegacy : r.legacyKey name with
    | none =>
      simp only [reduceCtorEq,false_iff]
      rintro ⟨ha,hname | ⟨-,hname,-⟩⟩
      · exact hno a ha hname
      · rw [(legacyKey_eq_some hnames).mpr ⟨a,ha,hname,rfl⟩] at hlegacy
        cases hlegacy
    | some key =>
      obtain ⟨b,hb,hbname,rfl⟩ := (legacyKey_eq_some hnames).mp hlegacy
      have hsame : ∀ a ∈ r.snapshot, a.name = name → a = b := by
        intro a ha hname
        exact List.inj_on_of_nodup_map hnames ha hb (hname.trans hbname.symm)
      by_cases hempty : b.key = ""
      · simp only [hempty,if_true,reduceCtorEq,false_iff]
        rintro ⟨ha,hname | ⟨-,hname,hkey⟩⟩
        · exact hno a ha hname
        · rw [hsame a ha hname] at hkey
          exact hkey hempty
      · simp only [hempty,if_false,lookup_eq_some hkeys]
        constructor
        · rintro ⟨ha,hkey⟩
          rw [List.inj_on_of_nodup_map hkeys ha hb hkey]
          exact ⟨hb,Or.inr ⟨hno,hbname,hempty⟩⟩
        · rintro ⟨ha,hname | ⟨-,hname,-⟩⟩
          · exact absurd hname (hno a ha)
          · rw [hsame a ha hname]
            exact ⟨hb,rfl⟩

end AgentRegistry

section Named

variable {A : Answers} {d : Deployment} {conv : Conversation} {inp : TurnInput} {key : String}

/-- An empty name is as good as none. -/
theorem selectEmpty_ends (hinp : inp.agentKey = some (.str "")) :
    Ends A.spec (fun _ => True) Found (select d conv inp) := by
  unfold select
  rw [hinp]
  exact selectPinned_ends.mono (fun _ _ => trivial) fun _ he => he

/-- Another name is accepted exactly when the snapshot has an agent under it that may be named. -/
theorem selectNamed_accepted_iff (hkey : key ≠ "") (hinp : inp.agentKey = some (.str key)) :
    Ends A.spec (fun _ => True) Found (select d conv inp) ↔
      ∃ a, A.registry.get key = some a ∧ a.spec.routing.directSelectable = true := by
  have hselect : select d conv inp = selectExplicit d conv inp (.str key) := by
    unfold select
    rw [hinp]
    simp [Json.truthy,hkey]
  rw [hselect]
  have hnot : ¬ Found (.agentNotFound key) := by simp [Found]
  constructor
  · intro h
    obtain ⟨-,hraise⟩ := wp_answered (fun _ => rfl) (fixed_spec none) (h ())
    have hsnapshot : snapshot.answered (A.fixed none) = .ok A.registry := answered_perform Op.snapshot
    cases hget : A.registry.get key with
    | none =>
      have hrun : (selectExplicit d conv inp (.str key)).answered (A.fixed none) =
          .error (.agentNotFound key) := by
        refine (answered_bind_ok hsnapshot).trans ?_
        refine (answered_bind_ok (answered_pure (A.registry.get key))).trans ?_
        rw [hget]
        rfl
      exact absurd (hraise _ hrun) hnot
    | some a =>
      refine ⟨a,rfl,?_⟩
      by_contra hdirect
      have hrun : (selectExplicit d conv inp (.str key)).answered (A.fixed none) =
          .error (.agentNotFound key) := by
        refine (answered_bind_ok hsnapshot).trans ?_
        refine (answered_bind_ok (answered_pure (A.registry.get key))).trans ?_
        rw [hget]
        change (if (!a.spec.routing.directSelectable) = true then _ else _ : Proc _).answered _ = _
        rw [if_pos (by simpa using hdirect)]
        rfl
      exact absurd (hraise _ hrun) hnot
  · rintro ⟨a,hget,hdirect⟩
    unfold selectExplicit
    apply Answers.snapshot_ends.bind
    rintro r rfl
    refine Ends.bind (P := fun found => found = some a) (Ends.pure hget) ?_
    rintro found rfl
    simp only [hdirect]
    exact (selectNamed_ends (registry_get_mem hget)).mono (fun _ _ => trivial) fun _ he => he

end Named

namespace Catalogue

variable {c : Catalogue} {v : Validation} {r : AgentRegistry}

/-- The row's configuration lets a client name the agent. -/
def direct (v : Validation) (row : Agent × AgentConfig) : Bool :=
  (v.agentSpec row.2.config).any (·.routing.directSelectable)

/-- An enabled agent of this key has an active configuration at the default scope that lets a client
name it; or no such agent has the key, and one that is displayed under it does. -/
def Usable (c : Catalogue) (v : Validation) (key : String) : Prop :=
  key = "" ∨ (∃ row ∈ c.reloadRows, row.1.key = key ∧ direct v row = true) ∨
    ((∀ row ∈ c.reloadRows, row.1.key ≠ key) ∧
      ∃ row ∈ c.reloadRows, row.1.name = key ∧ row.1.key ≠ "" ∧ direct v row = true)

instance (c : Catalogue) (v : Validation) (key : String) : Decidable (c.Usable v key) :=
  inferInstanceAs (Decidable (_ ∨ _ ∨ _))

/-- The agents of a snapshot that may be named are the rows whose configuration says so. -/
theorem exists_direct (h : c.reload v = some r) {p : String → String → Prop} :
    (∃ a ∈ r.snapshot, p a.key a.name ∧ a.spec.routing.directSelectable = true) ↔
      ∃ row ∈ c.reloadRows, p row.1.key row.1.name ∧ direct v row = true := by
  constructor
  · rintro ⟨reg,hreg,hp,hdirect⟩
    obtain ⟨a,cfg,spec,hrow,hspec,rfl⟩ := (mem_snapshot h).mp hreg
    refine ⟨(a,cfg),hrow,hp,?_⟩
    rw [direct,hspec]
    exact hdirect
  · rintro ⟨⟨a,cfg⟩,hrow,hp,hdirect⟩
    cases hspec : v.agentSpec cfg.config with
    | none => simp [direct,hspec] at hdirect
    | some spec =>
      rw [direct,hspec] at hdirect
      exact ⟨registered a cfg spec,(mem_snapshot h).mpr ⟨a,cfg,spec,hrow,hspec,rfl⟩,hp,hdirect⟩

theorem forall_key (h : c.reload v = some r) {key : String} :
    (∀ a ∈ r.snapshot, a.key ≠ key) ↔ ∀ row ∈ c.reloadRows, row.1.key ≠ key := by
  have hkeys : key ∈ r.snapshot.map (·.key) ↔ key ∈ (c.reloadRows.map (·.1)).map Agent.key := by
    rw [snapshot_map h fun _ _ _ => rfl]
  simp only [List.mem_map,exists_exists_and_eq_and] at hkeys
  have hnot := not_congr hkeys
  simpa only [not_exists,not_and] using hnot

theorem get_direct_iff (h : c.reload v = some r) {key : String} (hkey : key ≠ "") :
    (∃ a, r.get key = some a ∧ a.spec.routing.directSelectable = true) ↔ c.Usable v key := by
  have hnames : (r.snapshot.map (·.name)).Nodup := by
    rw [snapshot_map h (g := Agent.name) fun _ _ _ => rfl]
    exact c.agent_name.sublist ((reloadRows_sublist c).map _)
  have hkeys : (r.snapshot.map (·.key)).Nodup := (c.answers v r h).keys
  simp only [AgentRegistry.get_eq_some hkeys hnames]
  have hkeyed : (∃ a ∈ r.snapshot, a.key = key ∧ a.spec.routing.directSelectable = true) ↔
      ∃ row ∈ c.reloadRows, row.1.key = key ∧ direct v row = true :=
    exists_direct h (p := fun k _ => k = key)
  have hdisplayed : (∃ a ∈ r.snapshot, a.name = key ∧ a.key ≠ "" ∧
      a.spec.routing.directSelectable = true) ↔
      ∃ row ∈ c.reloadRows, row.1.name = key ∧ row.1.key ≠ "" ∧ direct v row = true := by
    simpa only [and_assoc] using exists_direct h (p := fun k n => n = key ∧ k ≠ "")
  have hno : (∀ a ∈ r.snapshot, a.key ≠ key) ↔ ∀ row ∈ c.reloadRows, row.1.key ≠ key := forall_key h
  unfold Usable
  rw [← hkeyed,← hdisplayed,← hno]
  simp only [hkey,false_or]
  constructor
  · rintro ⟨a,⟨ha,hname | ⟨hno,hname,hk⟩⟩,hdirect⟩
    · exact Or.inl ⟨a,ha,hname,hdirect⟩
    · exact Or.inr ⟨hno,a,ha,hname,hk,hdirect⟩
  · rintro (⟨a,ha,hname,hdirect⟩ | ⟨hno,a,ha,hname,hk,hdirect⟩)
    · exact ⟨a,⟨ha,Or.inl hname⟩,hdirect⟩
    · exact ⟨a,⟨ha,Or.inr ⟨hno,hname,hk⟩⟩,hdirect⟩

end Catalogue

namespace Sample

/-- A card with one agent, whose only configuration is at this scope. -/
def cards (scope : Scope) : Catalogue :=
  { Catalogue.single with
    configs := [{ agentId := 1, scope := scope, version := 1, source := .yaml, checksum := "a",
                  config := config [] true, isActive := true }]
    capabilities := [{ id := 1, key := "chat", name := "Chat" }]
    members := [{ capabilityId := 1, agentId := 1 }]
    one_active := by simp [AgentConfig.OneActive]
    scope_version := by simp [AgentConfig.ScopeVersion]
    capability_id := by decide
    capability_scope_key := by decide
    membership := by decide }

/-- A turn in which the button was pressed. -/
def pressed (key : String) : TurnInput where
  conversationId := none
  user := acmeUser
  text := .str "Hello"
  agentKey := some (.str key)

end Sample

end Saarathi
