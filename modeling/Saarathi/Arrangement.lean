import Mathlib.Data.List.ReduceOption
import Mathlib.Data.List.Sort
import Mathlib.Data.Nat.Notation
import Mathlib.Tactic.Common

/-!
# Keeping, numbering and sorting

The elements of a list are turned into values that know their position, those that
have no value are dropped, and the rest is sorted by a key and then by the position.
-/

namespace Saarathi
namespace Arrangement

variable {α β γ κ : Type} [LinearOrder κ]

/-- `list.map(f).filter(Boolean).sort(…)`; the comparison is of the second with the first or equal. -/
def arrange (f : α → ℕ → Option β) (le : β → β → Bool) (list : List α) : List β :=
  (list.mapIdx fun i a => f a i).reduceOption.mergeSort le

/-- The values of exactly the elements that have one, by key and then by position. -/
structure Arranges (f : α → ℕ → Option β) (order : β → κ) (index : β → ℕ) (list : List α) (bs : List β) : Prop where
  mem : ∀ b, b ∈ bs ↔ ∃ a, list[index b]? = some a ∧ f a (index b) = some b
  sorted : bs.Pairwise fun b b' => order b < order b' ∨ order b = order b' ∧ index b < index b'

/-- The comparison is of the keys, and of the positions where they are equal. -/
def ByKey (le : β → β → Bool) (order : β → κ) (index : β → ℕ) : Prop :=
  ∀ b b', le b b' = true ↔ order b < order b' ∨ order b = order b' ∧ index b ≤ index b'

variable {f : α → ℕ → Option β} {le : β → β → Bool} {order : β → κ} {index : β → ℕ} {list : List α}

theorem ByKey.trans (h : ByKey le order index) (a b c : β) (hab : le a b = true) (hbc : le b c = true) :
    le a c = true := by
  rw [h] at hab hbc ⊢
  rcases hab with hab | ⟨hab,hi⟩
  · rcases hbc with hbc | ⟨hbc,-⟩
    · exact .inl (hab.trans hbc)
    · exact .inl (hbc ▸ hab)
  · rcases hbc with hbc | ⟨hbc,hi'⟩
    · exact .inl (hab ▸ hbc)
    · exact .inr ⟨hab.trans hbc,hi.trans hi'⟩

theorem ByKey.total (h : ByKey le order index) (a b : β) : (le a b || le b a) = true := by
  rw [Bool.or_eq_true,h,h]
  rcases lt_trichotomy (order a) (order b) with hlt | heq | hlt
  · exact .inl (.inl hlt)
  · rcases Nat.le_total (index a) (index b) with hi | hi
    · exact .inl (.inr ⟨heq,hi⟩)
    · exact .inr (.inr ⟨heq.symm,hi⟩)
  · exact .inr (.inl hlt)

section Numbered

variable (hindex : ∀ a i b, f a i = some b → index b = i)
include hindex

theorem mem_numbered {b : β} : b ∈ (list.mapIdx fun i a => f a i).reduceOption ↔
    ∃ a, list[index b]? = some a ∧ f a (index b) = some b := by
  rw [List.reduceOption_mem_iff,List.mem_mapIdx]
  constructor
  · rintro ⟨i,hi,hf⟩
    obtain rfl := hindex _ _ _ hf
    exact ⟨list[index b],List.getElem?_eq_getElem hi,hf⟩
  · rintro ⟨a,ha,hf⟩
    obtain ⟨hi,rfl⟩ := List.getElem?_eq_some_iff.mp ha
    exact ⟨index b,hi,hf⟩

/-- The positions increase. -/
theorem numbered_pairwise :
    (list.mapIdx fun i a => f a i).reduceOption.Pairwise fun b b' => index b < index b' := by
  rw [List.reduceOption,List.pairwise_filterMap,List.pairwise_iff_getElem]
  intro i j hi hj hij b hb b' hb'
  rw [List.getElem_mapIdx] at hb hb'
  rwa [hindex _ _ _ hb,hindex _ _ _ hb']

theorem arranges_arrange (hle : ByKey le order index) : Arranges f order index list (arrange f le list) := by
  have hperm := List.mergeSort_perm (list.mapIdx fun i a => f a i).reduceOption le
  constructor
  · intro b
    rw [arrange,hperm.mem_iff,mem_numbered hindex]
  · have hsorted := List.pairwise_mergeSort hle.trans hle.total (list.mapIdx fun i a => f a i).reduceOption
    have hne : (arrange f le list).Pairwise fun b b' => index b ≠ index b' :=
      (hperm.pairwise_iff fun h => Ne.symm h).mpr ((numbered_pairwise hindex).imp Nat.ne_of_lt)
    refine (hsorted.and hne).imp ?_
    rintro b b' ⟨hb,hne⟩
    rcases (hle b b').mp hb with hlt | ⟨heq,hi⟩
    · exact .inl hlt
    · exact .inr ⟨heq,Nat.lt_of_le_of_ne hi hne⟩

end Numbered

omit [LinearOrder κ] in
/-- The elements that have a value, each beside it. -/
theorem forall₂_reduceOption {R : α → β → Prop} {p : α → Bool} {f : α → ℕ → Option β}
    (h : ∀ a ∈ list, ∀ i, if p a then ∃ b, f a i = some b ∧ R a b else f a i = none) :
    List.Forall₂ R (list.filter p) (list.mapIdx fun i a => f a i).reduceOption := by
  induction list generalizing f with
  | nil => exact List.Forall₂.nil
  | cons a list ih =>
    have hrest := ih (f := fun a i => f a (i + 1)) fun b hb i => h b (List.mem_cons_of_mem _ hb) (i + 1)
    have ha := h a List.mem_cons_self 0
    rw [List.mapIdx_cons]
    cases hp : p a with
    | true =>
      rw [if_pos hp] at ha
      obtain ⟨b,hb,hR⟩ := ha
      rw [List.filter_cons_of_pos hp,hb,List.reduceOption_cons_of_some]
      exact List.Forall₂.cons hR hrest
    | false =>
      rw [hp,if_neg Bool.false_ne_true] at ha
      rw [List.filter_cons_of_neg (by simp [hp]),ha,List.reduceOption_cons_of_none]
      exact hrest

/-- Elements whose keys increase are kept in their order. -/
theorem forall₂_arrange {R : γ → β → Prop} {p : γ → Bool} {value : γ → α} (key : γ → κ) {list : List γ}
    (hindex : ∀ a i b, f a i = some b → index b = i) (hle : ByKey le order index)
    (h : ∀ c ∈ list, ∀ i, if p c then ∃ b, f (value c) i = some b ∧ R c b else f (value c) i = none)
    (hkey : ∀ c b, R c b → order b = key c) (hs : list.Pairwise fun c c' => key c ≤ key c') :
    List.Forall₂ R (list.filter p) (arrange f le (list.map value)) := by
  have hmap : ((list.map value).mapIdx fun i a => f a i) = list.mapIdx fun i c => f (value c) i := by
    apply List.ext_getElem
    · simp
    · intro i h₁ h₂
      simp
  have horder : ∀ c ∈ list, ∀ i b, f (value c) i = some b → order b = key c := by
    intro c hc i b hb
    have hone := h c hc i
    split at hone
    · obtain ⟨b',hb',hR⟩ := hone
      obtain rfl := Option.some.inj (hb'.symm.trans hb)
      exact hkey c b' hR
    · rw [hb] at hone
      cases hone
  have hsorted : (list.mapIdx fun i c => f (value c) i).reduceOption.Pairwise fun b b' => le b b' = true := by
    rw [List.reduceOption,List.pairwise_filterMap,List.pairwise_iff_getElem]
    intro i j hi hj hij b hb b' hb'
    rw [List.length_mapIdx] at hi hj
    rw [List.getElem_mapIdx] at hb hb'
    rw [hle,hindex _ _ _ hb,hindex _ _ _ hb',horder _ (List.getElem_mem hi) i b hb,
      horder _ (List.getElem_mem hj) j b' hb']
    rcases lt_or_eq_of_le (List.pairwise_iff_getElem.mp hs i j hi hj hij) with hlt | heq
    · exact .inl hlt
    · exact .inr ⟨heq,Nat.le_of_lt hij⟩
  rw [arrange,hmap,List.mergeSort_of_pairwise hsorted]
  exact forall₂_reduceOption h

/-- Values that are arranged already only get new positions. -/
theorem arrange_again {g : γ → ℕ → Option β} {value : β → γ} {place : ℕ → β → β} {bs : List β}
    (hle : ByKey le order index) (hg : ∀ b ∈ bs, ∀ i, g (value b) i = some (place i b))
    (horder : ∀ i b, order (place i b) = order b) (hplace : ∀ i b, index (place i b) = i)
    (hs : bs.Pairwise fun b b' => order b ≤ order b') :
    arrange g le (bs.map value) = bs.mapIdx place := by
  have hmap : ((bs.map value).mapIdx fun i c => g c i) = (bs.mapIdx place).map some := by
    apply List.ext_getElem
    · simp
    · intro i h₁ h₂
      simp only [List.getElem_mapIdx,List.getElem_map]
      exact hg _ (List.getElem_mem _) i
  have hsorted : (bs.mapIdx place).Pairwise fun b b' => le b b' = true := by
    rw [List.pairwise_iff_getElem]
    intro i j hi hj hij
    rw [List.length_mapIdx] at hi hj
    rw [hle,List.getElem_mapIdx,List.getElem_mapIdx,horder,horder,hplace,hplace]
    rcases lt_or_eq_of_le (List.pairwise_iff_getElem.mp hs i j hi hj hij) with hlt | heq
    · exact .inl hlt
    · exact .inr ⟨heq,Nat.le_of_lt hij⟩
  have hall : ((bs.mapIdx place).map some).reduceOption = bs.mapIdx place := by
    rw [List.reduceOption,List.filterMap_map]
    exact List.filterMap_some
  rw [arrange,hmap,hall,List.mergeSort_of_pairwise hsorted]

end Arrangement
end Saarathi
