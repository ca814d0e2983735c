import Mathlib.Data.List.DropRight
import Mathlib.Tactic.Common

/-!
# Stripping both ends of a list

The marks at the ends of a list, and what a strip of only some of them leaves there.
-/

namespace Saarathi
namespace Stripping

variable {α : Type} {q : α → Bool} {s t u v : List α}

/-- Neither end is a mark. -/
def Bare (q : α → Bool) (s : List α) : Prop := (∀ a ∈ s.head?, q a = false) ∧ ∀ a ∈ s.getLast?, q a = false

theorem Bare.of_forall (h : ∀ a ∈ s, q a = false) : Bare q s :=
  ⟨fun a ha => h a (List.mem_of_mem_head? ha),fun a ha => h a (List.mem_of_getLast? ha)⟩

/-- What is bare of more marks is bare of fewer. -/
theorem Bare.imp {p : α → Bool} (h : Bare q s) (hpq : ∀ a, q a = false → p a = false) : Bare p s :=
  ⟨fun a ha => hpq a (h.1 a ha),fun a ha => hpq a (h.2 a ha)⟩

/-- The marks that a list begins with. -/
def leading (q : α → Bool) (s : List α) : List α := s.takeWhile q

/-- The list without the marks at its ends. -/
def core (q : α → Bool) (s : List α) : List α := (s.dropWhile q).rdropWhile q

/-- The marks that a list ends with, where it has others too. -/
def trailing (q : α → Bool) (s : List α) : List α := (s.dropWhile q).rtakeWhile q

theorem parts (q : α → Bool) (s : List α) : leading q s ++ core q s ++ trailing q s = s := by
  rw [List.append_assoc,leading,core,trailing,List.rdropWhile_append_rtakeWhile,List.takeWhile_append_dropWhile]

theorem leading_mem : ∀ a ∈ leading q s, q a = true := fun _ ha => List.mem_takeWhile_imp ha

theorem trailing_mem : ∀ a ∈ trailing q s, q a = true := fun _ ha => List.mem_rtakeWhile_imp ha

theorem head?_dropWhile : ∀ a ∈ (s.dropWhile q).head?, q a = false := by
  intro a ha
  have hnot := List.head?_dropWhile_not q s
  rw [Option.mem_def.mp ha] at hnot
  exact hnot

theorem getLast?_rdropWhile : ∀ a ∈ (s.rdropWhile q).getLast?, q a = false := by
  intro a ha
  rw [List.rdropWhile,List.getLast?_reverse] at ha
  exact head?_dropWhile a ha

theorem bare_core : Bare q (core q s) := by
  refine ⟨fun a ha => ?_,getLast?_rdropWhile⟩
  obtain ⟨t,ht⟩ := List.rdropWhile_prefix q (s.dropWhile q)
  refine head?_dropWhile (s := s) a ?_
  rw [← ht,List.head?_append]
  exact congrArg (Option.or · t.head?) (Option.mem_def.mp ha)

theorem core_subset : core q s ⊆ s := fun _ ha =>
  (List.dropWhile_sublist q).subset ((List.rdropWhile_prefix q _).subset ha)

/-- A strip stops at what is no mark. -/
theorem dropWhile_append_of_head? (h : ∀ a ∈ t.head?, q a = false) (u : List α) :
    (u ++ t).dropWhile q = u.dropWhile q ++ t := by
  induction u with
  | nil =>
    cases t with
    | nil => rfl
    | cons a t =>
      have ha : q a = false := h a rfl
      simp [ha]
  | cons b u ih => by_cases hb : q b = true <;> simp [hb,ih]

theorem rdropWhile_append_of_getLast? (h : ∀ a ∈ t.getLast?, q a = false) (v : List α) :
    (t ++ v).rdropWhile q = t ++ v.rdropWhile q := by
  have hhead : ∀ a ∈ t.reverse.head?, q a = false := by rwa [List.head?_reverse]
  rw [List.rdropWhile,List.reverse_append,dropWhile_append_of_head? hhead,List.reverse_append,
    List.reverse_reverse,List.rdropWhile]

/-- A strip works on both sides of a bare part. -/
theorem core_append (h : Bare q s) (hne : s ≠ []) (u v : List α) :
    core q (u ++ s ++ v) = u.dropWhile q ++ s ++ v.rdropWhile q := by
  obtain ⟨a,s',rfl⟩ := List.exists_cons_of_ne_nil hne
  have hhead : ∀ b ∈ (a :: s' ++ v).head?, q b = false := by
    intro b hb
    exact h.1 b hb
  have hlast : ∀ b ∈ (u.dropWhile q ++ (a :: s')).getLast?, q b = false := by
    intro b hb
    rw [List.getLast?_append_of_ne_nil _ hne] at hb
    exact h.2 b hb
  rw [core,List.append_assoc,dropWhile_append_of_head? hhead,← List.append_assoc,
    rdropWhile_append_of_getLast? hlast]

theorem core_of_forall (h : ∀ a ∈ s, q a = true) : core q s = [] := by
  rw [core,List.dropWhile_eq_nil_iff.mpr h,List.rdropWhile_nil]

section Unique

variable {u' s' v' : List α}

theorem core_between (hs : Bare q s) (hu : ∀ a ∈ u, q a = true) (hv : ∀ a ∈ v, q a = true) :
    core q (u ++ s ++ v) = s := by
  by_cases hne : s = []
  · subst hne
    refine core_of_forall ?_
    simpa [or_imp,forall_and] using ⟨hu,hv⟩
  · rw [core_append hs hne,List.dropWhile_eq_nil_iff.mpr hu,List.rdropWhile_eq_nil_iff.mpr hv,List.nil_append,
      List.append_nil]

theorem leading_between (hs : Bare q s) (hne : s ≠ []) (hu : ∀ a ∈ u, q a = true) :
    leading q (u ++ s ++ v) = u := by
  obtain ⟨a,t,rfl⟩ := List.exists_cons_of_ne_nil hne
  have ha : q a = false := hs.1 a rfl
  rw [leading,List.append_assoc,List.takeWhile_append_of_pos hu,List.cons_append,
    List.takeWhile_cons_of_neg (by simp [ha]),List.append_nil]

/-- A list is cut in one way into marks, a bare part, and marks that follow only what is not empty. -/
theorem cut_unique (hs : Bare q s) (hs' : Bare q s') (hu : ∀ a ∈ u, q a = true) (hv : ∀ a ∈ v, q a = true)
    (hu' : ∀ a ∈ u', q a = true) (hv' : ∀ a ∈ v', q a = true) (hnil : s = [] → v = []) (hnil' : s' = [] → v' = [])
    (h : u ++ s ++ v = u' ++ s' ++ v') : u = u' ∧ s = s' ∧ v = v' := by
  have hcore : s = s' := by rw [← core_between hs hu hv,h,core_between hs' hu' hv']
  subst hcore
  by_cases hne : s = []
  · rw [hnil hne,hnil' hne] at h ⊢
    simpa using h
  · have hfront : u = u' := by rw [← leading_between (v := v) hs hne hu,h,leading_between hs hne hu']
    subst hfront
    exact ⟨rfl,rfl,List.append_cancel_left h⟩

end Unique

end Stripping
end Saarathi
