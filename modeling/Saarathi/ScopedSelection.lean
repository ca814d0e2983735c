import Mathlib.Data.List.Dedup
import Mathlib.Data.List.Sort
import Mathlib.Data.Nat.Notation
import Mathlib.Data.Prod.Lex
import Mathlib.Tactic.Common

/-!
# Selecting a row by its scope

`ORDER BY … LIMIT 1` and `DISTINCT ON`, and the selection of the row whose scope
is closest to the caller's. A scope has two parts, each of which may be the
default one.
-/

namespace Saarathi
namespace ScopedSelection

section OrderBy

variable {α β γ : Type} [LinearOrder β] [DecidableEq γ] {key : α → β} {rows : List α} {a b : α}

/-- `ORDER BY key LIMIT 1`; of equals the one that comes first. -/
def first (key : α → β) : List α → Option α
  | [] => none
  | a :: as => match first key as with
    | none => some a
    | some b => if key b < key a then some b else some a

theorem first_mem (h : first key rows = some a) : a ∈ rows := by
  induction rows generalizing a with
  | nil => cases h
  | cons c rows ih =>
    rw [first] at h
    split at h
    · obtain rfl : c = a := by simpa using h
      simp
    · rename_i b hb
      split at h
      · obtain rfl : b = a := by simpa using h
        simp [ih hb]
      · obtain rfl : c = a := by simpa using h
        simp

theorem first_eq_none : first key rows = none ↔ rows = [] := by
  cases rows with
  | nil => simp [first]
  | cons c rows =>
    rw [first]
    split
    · simp
    · split
      · simp
      · simp

/-- No row comes before the one selected. -/
theorem first_le (h : first key rows = some a) (hb : b ∈ rows) : key a ≤ key b := by
  induction rows generalizing a with
  | nil => cases hb
  | cons c rows ih =>
    rw [first] at h
    split at h
    · rename_i hn
      obtain rfl : c = a := by simpa using h
      obtain rfl : rows = [] := first_eq_none.mp hn
      obtain rfl : b = c := by simpa using hb
      exact le_refl _
    · rename_i m hm
      split at h
      · rename_i hlt
        obtain rfl : m = a := by simpa using h
        rcases List.mem_cons.mp hb with rfl | hb
        · exact le_of_lt hlt
        · exact ih hm hb
      · rename_i hlt
        obtain rfl : c = a := by simpa using h
        rcases List.mem_cons.mp hb with rfl | hb
        · exact le_refl _
        · exact le_trans (not_lt.mp hlt) (ih hm hb)

/-- A row that comes before all others is selected. -/
theorem first_eq_of_lt (ha : a ∈ rows) (h : ∀ b ∈ rows, b = a ∨ key a < key b) :
    first key rows = some a := by
  cases hf : first key rows with
  | none =>
    rw [first_eq_none.mp hf] at ha
    cases ha
  | some b =>
    rcases h b (first_mem hf) with rfl | hlt
    · rfl
    · exact absurd (first_le hf ha) (not_le.mpr hlt)

/-- `DISTINCT ON (group) … ORDER BY group, key`: the first row of each group. -/
def distinctOn (group : α → γ) (key : α → β) (rows : List α) : List α :=
  (rows.map group).dedup.filterMap fun g => first key (rows.filter (group · = g))

theorem mem_distinctOn {group : α → γ} : a ∈ distinctOn group key rows ↔
    first key (rows.filter (group · = group a)) = some a := by
  simp only [distinctOn,List.mem_filterMap,List.mem_dedup,List.mem_map]
  constructor
  · rintro ⟨g,-,hg⟩
    obtain rfl : group a = g := by simpa using (List.mem_filter.mp (first_mem hg)).2
    exact hg
  · intro h
    exact ⟨group a,⟨a,(List.mem_filter.mp (first_mem h)).1,rfl⟩,h⟩

omit [DecidableEq γ] in
/-- Rows found by group come in the order of their groups. -/
theorem map_filterMap_sublist {group : α → γ} {find : γ → Option α} (h : ∀ g a, find g = some a → group a = g)
    (gs : List γ) : ((gs.filterMap find).map group).Sublist gs := by
  induction gs with
  | nil => exact List.Sublist.slnil
  | cons g gs ih =>
    cases hf : find g with
    | none =>
      rw [List.filterMap_cons_none hf]
      exact ih.cons g
    | some a =>
      rw [List.filterMap_cons_some hf,List.map_cons,h g a hf]
      exact ih.cons_cons g

/-- No group has two rows. -/
theorem nodup_distinctOn {group : α → γ} : ((distinctOn group key rows).map group).Nodup := by
  refine (map_filterMap_sublist (fun g a hf => ?_) _).nodup (List.nodup_dedup _)
  simpa using (List.mem_filter.mp (first_mem hf)).2

omit [LinearOrder β] [DecidableEq γ] in
/-- No two rows of a group come at the same place. -/
def OnePlace (group : α → γ) (key : α → β) (rows : List α) : Prop :=
  ∀ a ∈ rows, ∀ b ∈ rows, group a = group b → key a = key b → a = b

/-- A row is selected when it comes before the others of its group. -/
theorem mem_distinctOn_iff {group : α → γ} (h : OnePlace group key rows) : a ∈ distinctOn group key rows ↔
    a ∈ rows ∧ ∀ b ∈ rows, group b = group a → b = a ∨ key a < key b := by
  rw [mem_distinctOn]
  constructor
  · intro hfirst
    have ha := (List.mem_filter.mp (first_mem hfirst)).1
    refine ⟨ha,fun b hb hgroup => ?_⟩
    rcases lt_or_eq_of_le (first_le hfirst (List.mem_filter.mpr ⟨hb,by simpa using hgroup⟩)) with hlt | heq
    · exact .inr hlt
    · exact .inl (h b hb a ha hgroup heq.symm)
  · rintro ⟨ha,hbefore⟩
    refine first_eq_of_lt (List.mem_filter.mpr ⟨ha,by simp⟩) fun b hb => ?_
    obtain ⟨hb,hgroup⟩ := List.mem_filter.mp hb
    exact hbefore b hb (by simpa using hgroup)

/-- Rows that another of their group comes before are not missed, and not noticed. -/
theorem mem_distinctOn_of_hidden {group : α → γ} {rows' : List α} (hidden : α → Prop) (h : OnePlace group key rows)
    (h' : OnePlace group key rows') (hkept : ∀ a ∈ rows, hidden a ∨ a ∈ rows') (hnew : ∀ a ∈ rows', hidden a ∨ a ∈ rows)
    (hbefore : ∀ a, hidden a → ∃ b ∈ rows, group b = group a ∧ key b < key a)
    (ha : a ∈ distinctOn group key rows) : a ∈ distinctOn group key rows' := by
  obtain ⟨hmem,hfirst⟩ := (mem_distinctOn_iff h).mp ha
  refine (mem_distinctOn_iff h').mpr ⟨?_,fun b hb hgroup => ?_⟩
  · refine (hkept a hmem).resolve_left fun hh => ?_
    obtain ⟨b,hb,hgroup,hlt⟩ := hbefore a hh
    rcases hfirst b hb hgroup with rfl | hlt'
    · exact lt_irrefl _ hlt
    · exact lt_asymm hlt hlt'
  · rcases hnew b hb with hh | hold
    · obtain ⟨b',hb',hgroup',hlt⟩ := hbefore b hh
      rcases hfirst b' hb' (hgroup'.trans hgroup) with rfl | hlt'
      · exact .inr hlt
      · exact .inr (hlt'.trans hlt)
    · exact hfirst b hold hgroup

section Sorting

variable {δ : Type} [LinearOrder δ] {f : α → β} {g : α → δ}

omit [DecidableEq γ] in
/-- `ORDER BY f, g`. -/
theorem pairwise_orderBy [DecidableRel fun a b : α => f a < f b ∨ (f a = f b ∧ g a ≤ g b)] (rows : List α) :
    (rows.insertionSort fun a b => f a < f b ∨ (f a = f b ∧ g a ≤ g b)).Pairwise fun a b =>
      f a < f b ∨ (f a = f b ∧ g a ≤ g b) := by
  have htotal : Std.Total fun a b : α => f a < f b ∨ (f a = f b ∧ g a ≤ g b) := by
    constructor
    intro a b
    rcases lt_trichotomy (f a) (f b) with hlt | heq | hlt
    · exact .inl (.inl hlt)
    · exact (le_total (g a) (g b)).imp (fun hg => .inr ⟨heq,hg⟩) fun hg => .inr ⟨heq.symm,hg⟩
    · exact .inr (.inl hlt)
  have htrans : IsTrans α fun a b => f a < f b ∨ (f a = f b ∧ g a ≤ g b) := by
    constructor
    rintro a b c (hab | ⟨hab,hgab⟩) (hbc | ⟨hbc,hgbc⟩)
    · exact .inl (lt_trans hab hbc)
    · exact .inl (hbc ▸ hab)
    · exact .inl (hab ▸ hbc)
    · exact .inr ⟨hab.trans hbc,le_trans hgab hgbc⟩
  exact List.pairwise_insertionSort _ rows

omit [DecidableEq γ] in
/-- The order is strict where no two rows have the same `g`. -/
theorem pairwise_lt_of_orderBy (h : rows.Pairwise fun a b => f a < f b ∨ (f a = f b ∧ g a ≤ g b))
    (hg : rows.Pairwise fun a b => g a ≠ g b) : rows.Pairwise fun a b => f a < f b ∨ (f a = f b ∧ g a < g b) := by
  refine h.imp₂ ?_ hg
  rintro a b (hlt | ⟨heq,hle⟩) hne
  · exact .inl hlt
  · exact .inr ⟨heq,lt_of_le_of_ne hle hne⟩

end Sorting

/-- The row of a key, where no two rows have the same. -/
theorem find_eq_some {group : α → γ} (h : ∀ a ∈ rows, ∀ b ∈ rows, group a = group b → a = b) {g : γ} :
    rows.find? (group · = g) = some a ↔ a ∈ rows ∧ group a = g := by
  constructor
  · intro hf
    exact ⟨List.mem_of_find?_eq_some hf,by simpa using List.find?_some hf⟩
  · rintro ⟨ha,rfl⟩
    cases hf : rows.find? (group · = group a) with
    | none =>
      have hn := List.find?_eq_none.mp hf a ha
      simp at hn
    | some b =>
      have hb : group b = group a := by simpa using List.find?_some hf
      rw [h b (List.mem_of_find?_eq_some hf) a ha hb]

end OrderBy

section Scope

variable {α τ ω : Type} [DecidableEq τ] [DecidableEq ω]

/-- The scopes that a caller's scope falls back to, in the order of precedence. -/
def chain (d : τ × ω) (s : τ × ω) : List (τ × ω) := [s,(s.1,d.2),d]

/-- The row at the first scope of the chain that has one. -/
def precedent (d s : τ × ω) (scope : α → τ × ω) (rows : List α) : Option α :=
  (chain d s).findSome? fun c => rows.find? (scope · = c)

/-- `first IN (s.1, d.1) AND second IN (s.2, d.2)`. -/
def admits (d s c : τ × ω) : Bool :=
  (decide (c.1 = s.1) || decide (c.1 = d.1)) && (decide (c.2 = s.2) || decide (c.2 = d.2))

/-- The second part is compared before the first. -/
def rank (s c : τ × ω) : ℕ ×ₗ ℕ := toLex (if c.2 = s.2 then 0 else 1,if c.1 = s.1 then 0 else 1)

/-- The row that a query by `admits` and `rank` selects. -/
def resolve (d s : τ × ω) (scope : α → τ × ω) (rows : List α) : Option α :=
  first (fun a => rank s (scope a)) (rows.filter fun a => admits d s (scope a))

/-- No two rows have the same scope. -/
def OnePerScope (scope : α → τ × ω) (rows : List α) : Prop :=
  ∀ a ∈ rows, ∀ b ∈ rows, scope a = scope b → a = b

variable {d s c : τ × ω} {scope : α → τ × ω} {rows : List α} {a : α}

theorem find_eq_none : rows.find? (scope · = c) = none ↔ ∀ a ∈ rows, scope a ≠ c := by
  simp [List.find?_eq_none]

theorem admits_iff : admits d s c = true ↔ c = s ∨ c = (d.1,s.2) ∨ c = (s.1,d.2) ∨ c = d := by
  obtain ⟨c₁,c₂⟩ := c
  obtain ⟨s₁,s₂⟩ := s
  obtain ⟨d₁,d₂⟩ := d
  simp only [admits,Bool.and_eq_true,Bool.or_eq_true,decide_eq_true_eq,Prod.mk.injEq]
  tauto

/-- Two scopes that a caller falls back to are not of one rank. -/
theorem rank_inj {c' : τ × ω} (hc : admits d s c = true) (hc' : admits d s c' = true) (h : rank s c = rank s c') :
    c = c' := by
  simp only [admits,Bool.and_eq_true,Bool.or_eq_true,decide_eq_true_eq] at hc hc'
  obtain ⟨h₂,h₁⟩ := Prod.mk.inj (toLex.injective h)
  refine Prod.ext ?_ ?_
  · by_cases hs : c.1 = s.1 <;> by_cases hs' : c'.1 = s.1 <;> simp_all
  · by_cases hs : c.2 = s.2 <;> by_cases hs' : c'.2 = s.2 <;> simp_all

/-- The order in which the query prefers the scopes. -/
def queryOrder (d s : τ × ω) : List (τ × ω) := [s,(d.1,s.2),(s.1,d.2),d]

/-- The ranks increase along the list, but for scopes that come again. -/
def Increasing (r : τ × ω → ℕ ×ₗ ℕ) (order : List (τ × ω)) : Prop :=
  ∀ pre c post, order = pre ++ c :: post → ∀ c' ∈ post, c' ∈ pre ∨ c' = c ∨ r c < r c'

/-- Selecting by rank is selecting at the first scope that has a row. -/
theorem first_eq_findSome {r : τ × ω → ℕ ×ₗ ℕ} {order : List (τ × ω)}
    (hr : Increasing r order) (h : OnePerScope scope rows)
    {p : α → Bool} (hp : ∀ a ∈ rows, p a = true ↔ scope a ∈ order) :
    first (fun a => r (scope a)) (rows.filter p) =
      order.findSome? fun c => rows.find? (scope · = c) := by
  symm
  cases hf : order.findSome? fun c => rows.find? (scope · = c) with
  | none =>
    have hnone : ∀ c ∈ order, ∀ a ∈ rows, scope a ≠ c := by
      intro c hc
      exact find_eq_none.mp (List.findSome?_eq_none_iff.mp hf c hc)
    symm
    rw [first_eq_none,List.filter_eq_nil_iff]
    intro a ha hpa
    exact hnone _ ((hp a ha).mp hpa) a ha rfl
  | some a =>
    obtain ⟨pre,c,post,rfl,hc,hpre⟩ := List.findSome?_eq_some_iff.mp hf
    obtain ⟨ha,rfl⟩ := (find_eq_some h).mp hc
    symm
    apply first_eq_of_lt
    · exact List.mem_filter.mpr ⟨ha,(hp a ha).mpr (by simp)⟩
    intro b hb
    obtain ⟨hb,hpb⟩ := List.mem_filter.mp hb
    have hnot : scope b ∉ pre := fun hmem => find_eq_none.mp (hpre _ hmem) b hb rfl
    rcases List.mem_append.mp ((hp b hb).mp hpb) with hmem | hmem
    · exact absurd hmem hnot
    rcases List.mem_cons.mp hmem with heq | hmem
    · exact .inl (h b hb a ha heq)
    rcases hr pre (scope a) post rfl _ hmem with hmem | heq | hlt
    · exact absurd hmem hnot
    · exact .inl (h b hb a ha heq)
    · exact .inr hlt

theorem increasing_queryOrder : Increasing (rank s) (queryOrder d s) := by
  obtain ⟨s₁,s₂⟩ := s
  obtain ⟨d₁,d₂⟩ := d
  intro pre c post hsplit
  rcases pre with _ | ⟨c₁,_ | ⟨c₂,_ | ⟨c₃,_ | ⟨c₄,pre⟩⟩⟩⟩
  · obtain ⟨rfl,rfl⟩ : (s₁,s₂) = c ∧ [(d₁,s₂),(s₁,d₂),(d₁,d₂)] = post := by
      simpa [queryOrder] using hsplit
    by_cases h₁ : d₁ = s₁ <;> by_cases h₂ : d₂ = s₂ <;> simp [rank,Prod.Lex.lt_iff,h₁,h₂]
  · obtain ⟨rfl,rfl,rfl⟩ : (s₁,s₂) = c₁ ∧ (d₁,s₂) = c ∧ [(s₁,d₂),(d₁,d₂)] = post := by
      simpa [queryOrder] using hsplit
    by_cases h₁ : d₁ = s₁ <;> by_cases h₂ : d₂ = s₂ <;> simp [rank,Prod.Lex.lt_iff,h₁,h₂]
  · obtain ⟨rfl,rfl,rfl,rfl⟩ : (s₁,s₂) = c₁ ∧ (d₁,s₂) = c₂ ∧ (s₁,d₂) = c ∧ [(d₁,d₂)] = post := by
      simpa [queryOrder] using hsplit
    by_cases h₁ : d₁ = s₁ <;> by_cases h₂ : d₂ = s₂ <;> simp [rank,Prod.Lex.lt_iff,h₁,h₂]
  · obtain ⟨-,-,-,-,rfl⟩ : (s₁,s₂) = c₁ ∧ (d₁,s₂) = c₂ ∧ (s₁,d₂) = c₃ ∧ (d₁,d₂) = c ∧ [] = post := by
      simpa [queryOrder] using hsplit
    simp
  · simp [queryOrder] at hsplit

theorem mem_queryOrder : c ∈ queryOrder d s ↔ admits d s c = true := by
  rw [admits_iff]
  simp [queryOrder]

theorem resolve_eq (h : OnePerScope scope rows) :
    resolve d s scope rows = (queryOrder d s).findSome? fun c => rows.find? (scope · = c) :=
  first_eq_findSome increasing_queryOrder h fun _ _ => mem_queryOrder.symm

/-- A row at the default first part and the caller's second hides the rows that the chain has. -/
def Shadowed (d s : τ × ω) (scope : α → τ × ω) (rows : List α) : Prop :=
  d.1 ≠ s.1 ∧ d.2 ≠ s.2 ∧ (∃ a ∈ rows, scope a = (d.1,s.2)) ∧ ∀ a ∈ rows, scope a ≠ s

/-- The query selects by the chain unless a row is shadowed. -/
theorem resolve_eq_precedent_iff (h : OnePerScope scope rows) :
    resolve d s scope rows = precedent d s scope rows ↔ ¬ Shadowed d s scope rows := by
  obtain ⟨s₁,s₂⟩ := s
  obtain ⟨d₁,d₂⟩ := d
  rw [resolve_eq h]
  unfold precedent queryOrder chain Shadowed
  simp only [List.findSome?_cons,List.findSome?_nil]
  cases hs : rows.find? fun a => scope a = (s₁,s₂) with
  | some a =>
    obtain ⟨ha,hsa⟩ := (find_eq_some h).mp hs
    simp only [true_iff]
    exact fun hsh => hsh.2.2.2 a ha hsa
  | none =>
    have hnone := find_eq_none.mp hs
    cases hd : rows.find? fun a => scope a = (d₁,s₂) with
    | none =>
      have hnone' := find_eq_none.mp hd
      simp only [true_iff]
      rintro ⟨-,-,⟨a,ha,hsa⟩,-⟩
      exact hnone' a ha hsa
    | some a =>
      obtain ⟨ha,hsa⟩ := (find_eq_some h).mp hd
      have h₁ : d₁ ≠ s₁ := by
        rintro rfl
        exact hnone a ha hsa
      by_cases h₂ : d₂ = s₂
      · subst h₂
        simp [hs,hd]
      · refine iff_of_false ?_ (not_not.mpr ⟨h₁,h₂,⟨a,ha,hsa⟩,hnone⟩)
        -- The chain's row has the default second part, and `a` has the caller's.
        intro he
        have hne : ∀ c₁, rows.find? (fun b => scope b = (c₁,d₂)) ≠ some a := by
          intro c₁ hf
          have hca := ((find_eq_some h).mp hf).2
          rw [hsa] at hca
          exact h₂ (Prod.mk.inj hca).2.symm
        cases ht : rows.find? fun b => scope b = (s₁,d₂) with
        | some b =>
          simp only [ht] at he
          exact hne s₁ (ht.trans he.symm)
        | none =>
          cases hb : rows.find? fun b => scope b = (d₁,d₂) with
          | some b =>
            simp only [ht,hb] at he
            exact hne d₁ (hb.trans he.symm)
          | none => simp [ht,hb] at he

theorem mem_of_resolve (h : resolve d s scope rows = some a) : a ∈ rows :=
  (List.mem_filter.mp (first_mem h)).1

theorem mem_of_precedent (h : precedent d s scope rows = some a) : a ∈ rows ∧ scope a ∈ chain d s := by
  obtain ⟨c,hc,hf⟩ := List.exists_of_findSome?_eq_some h
  have hs : scope a = c := by simpa using List.find?_some hf
  exact ⟨List.mem_of_find?_eq_some hf,hs ▸ hc⟩

end Scope

end ScopedSelection
end Saarathi
