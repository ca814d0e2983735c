import Mathlib.Data.List.Nodup
import Mathlib.Data.List.Perm.Basic
import Mathlib.Data.Nat.Notation
import Mathlib.Tactic.Common

/-!
# Notes after the last of a class

Elements are put into a list, each directly after the last one of its class. As
long as the classes are different ones, the order of doing so does not matter.
-/

namespace Saarathi
namespace Anchoring

variable {α β κ : Type} [DecidableEq κ] {key : α → κ} {p : α → Bool} {k : κ} {a i : α}
  {as before after notes notes' : List α}

/-- The index of the last element that satisfies `p`. -/
def lastIndex (p : α → Bool) (as : List α) : Option ℕ :=
  (List.range as.length).reverse.find? fun i => (as[i]?).any p

/-- Put `a` directly after the last element whose key is `k`, or at the end. -/
def insertAfterLast (key : α → κ) (k : κ) (a : α) (as : List α) : List α :=
  match lastIndex (fun b => key b = k) as with
  | none => as ++ [a]
  | some i => as.take (i + 1) ++ a :: as.drop (i + 1)

/-- Every element that is the last one with its key, followed by the notes with that key. -/
def anchored (key : α → κ) (notes : List α) : List α → List α
  | [] => []
  | i :: rest =>
    i :: ((if ∀ j ∈ rest, key j ≠ key i then notes.filter fun n => key n = key i else []) ++
      anchored key notes rest)

section Classes

variable {f : β → κ} {l l' : List β} {b : β}

theorem filter_eq_singleton (hd : (l.map f).Nodup) (hb : b ∈ l) : l.filter (fun c => f c = f b) = [b] := by
  induction l with
  | nil => cases hb
  | cons c l ih =>
    rw [List.map_cons,List.nodup_cons] at hd
    rcases List.mem_cons.mp hb with rfl | hb
    · have hnil : l.filter (fun c => f c = f b) = [] := by
        rw [List.filter_eq_nil_iff]
        intro c hc heq
        exact hd.1 (List.mem_map.mpr ⟨c,hc,by simpa using heq⟩)
      rw [List.filter_cons_of_pos (by simp),hnil]
    · have hne : f c ≠ f b := fun heq => hd.1 (List.mem_map.mpr ⟨b,hb,heq.symm⟩)
      rw [List.filter_cons_of_neg (by simpa using hne),ih hd.2 hb]

/-- A class of at most one element is the same in every order. -/
theorem filter_eq_of_perm (hp : l.Perm l') (hd : (l.map f).Nodup) (k : κ) :
    l.filter (fun c => f c = k) = l'.filter fun c => f c = k := by
  by_cases hk : ∃ b ∈ l, f b = k
  · obtain ⟨b,hb,rfl⟩ := hk
    rw [filter_eq_singleton hd hb,filter_eq_singleton ((hp.map f).nodup_iff.mp hd) (hp.mem_iff.mp hb)]
  · push Not at hk
    rw [List.filter_eq_nil_iff.mpr (by simpa using hk),
      List.filter_eq_nil_iff.mpr (by simpa [← hp.mem_iff] using hk)]

end Classes

section LastIndex

theorem lastIndex_cons : lastIndex p (a :: as) = match lastIndex p as with
    | some i => some (i + 1)
    | none => if p a then some 0 else none := by
  have htail : (fun i => Option.any p (a :: as)[i]?) ∘ Nat.succ = fun i => Option.any p as[i]? := by
    funext i
    simp
  unfold lastIndex
  rw [List.length_cons,List.range_succ_eq_map,List.reverse_cons,List.find?_append,← List.map_reverse,
    List.find?_map,htail]
  cases List.find? (fun i => Option.any p as[i]?) (List.range as.length).reverse with
  | some i => rfl
  | none => cases hp : p a <;> simp [hp]

theorem lastIndex_isSome : (lastIndex p as).isSome = as.any p := by
  induction as with
  | nil => rfl
  | cons a as ih =>
    rw [lastIndex_cons,List.any_cons,← ih]
    cases lastIndex p as with
    | some i => simp
    | none => cases p a <;> rfl

theorem lastIndex_eq_none : lastIndex p as = none ↔ ∀ b ∈ as, p b = false := by
  rw [← Option.not_isSome_iff_eq_none,lastIndex_isSome]
  simp

end LastIndex

section Insert

theorem insertAfterLast_of_absent (h : ∀ b ∈ as, key b ≠ k) : insertAfterLast key k a as = as ++ [a] := by
  have hnone : lastIndex (fun b => key b = k) as = none :=
    lastIndex_eq_none.mpr fun b hb => by simpa using h b hb
  rw [insertAfterLast,hnone]

/-- An element before one with the key stays in front. -/
theorem insertAfterLast_cons_of_mem (h : ∃ b ∈ as, key b = k) :
    insertAfterLast key k a (i :: as) = i :: insertAfterLast key k a as := by
  obtain ⟨b,hb,hk⟩ := h
  have hsome : lastIndex (fun b => key b = k) as ≠ none := by
    rw [Ne,lastIndex_eq_none]
    intro hall
    simpa [hk] using hall b hb
  obtain ⟨n,hn⟩ := Option.ne_none_iff_exists'.mp hsome
  rw [insertAfterLast,insertAfterLast,lastIndex_cons,hn]
  rfl

theorem insertAfterLast_append_of_mem (h : ∃ b ∈ after, key b = k) :
    insertAfterLast key k a (before ++ after) = before ++ insertAfterLast key k a after := by
  induction before with
  | nil => rfl
  | cons i before ih =>
    obtain ⟨b,hb,hk⟩ := h
    rw [List.cons_append,insertAfterLast_cons_of_mem ⟨b,List.mem_append_right _ hb,hk⟩,ih,List.cons_append]

theorem insertAfterLast_cons_last (hk : key i = k) (h : ∀ b ∈ as, key b ≠ k) :
    insertAfterLast key k a (i :: as) = i :: a :: as := by
  have hnone : lastIndex (fun b => key b = k) as = none :=
    lastIndex_eq_none.mpr fun b hb => by simpa using h b hb
  rw [insertAfterLast,lastIndex_cons,hnone]
  simp [hk]

theorem insertAfterLast_perm : (insertAfterLast key k a as).Perm (a :: as) := by
  rw [insertAfterLast]
  split
  · exact List.perm_append_singleton a as
  · refine List.perm_middle.trans ?_
    rw [List.take_append_drop]

theorem foldl_insertAfterLast_perm (as notes : List α) :
    (notes.foldl (fun as a => insertAfterLast key (key a) a as) as).Perm (as ++ notes) := by
  induction notes generalizing as with
  | nil => rw [List.foldl_nil,List.append_nil]
  | cons a notes ih => exact (ih _).trans ((insertAfterLast_perm.append_right notes).trans List.perm_middle.symm)

end Insert

section Anchored

theorem anchored_nil (as : List α) : anchored key [] as = as := by
  induction as with
  | nil => rfl
  | cons i as ih => simp [anchored,ih]

theorem anchored_cons_of_mem (h : ∃ j ∈ as, key j = key i) :
    anchored key notes (i :: as) = i :: anchored key notes as := by
  have hneg : ¬∀ j ∈ as, key j ≠ key i := by
    push Not
    exact h
  rw [anchored,if_neg hneg,List.nil_append]

theorem anchored_cons_last (h : ∀ j ∈ as, key j ≠ key i) : anchored key notes (i :: as) =
    i :: (notes.filter (fun n => key n = key i) ++ anchored key notes as) := by
  rw [anchored,if_pos h]

theorem mem_anchored (h : a ∈ anchored key notes as) :
    a ∈ as ∨ a ∈ notes ∧ ∃ j ∈ as, key j = key a := by
  induction as with
  | nil => cases h
  | cons i as ih =>
    rw [anchored] at h
    rcases List.mem_cons.mp h with rfl | h
    · exact .inl List.mem_cons_self
    · rcases List.mem_append.mp h with h | h
      · split at h
        · obtain ⟨hn,hk⟩ := List.mem_filter.mp h
          exact .inr ⟨hn,i,List.mem_cons_self,by simpa [eq_comm] using hk⟩
        · cases h
      · rcases ih h with h | ⟨hn,j,hj,hk⟩
        · exact .inl (List.mem_cons_of_mem _ h)
        · exact .inr ⟨hn,j,List.mem_cons_of_mem _ hj,hk⟩

/-- The elements keep their order. -/
theorem sublist_anchored (as notes : List α) : as.Sublist (anchored key notes as) := by
  induction as with
  | nil => exact List.Sublist.refl _
  | cons i as ih =>
    rw [anchored]
    exact (List.sublist_append_of_sublist_right ih).cons_cons i

/-- A note whose key no element has goes nowhere. -/
theorem anchored_concat_of_absent (h : ∀ j ∈ as, key j ≠ key a) :
    anchored key (notes ++ [a]) as = anchored key notes as := by
  induction as with
  | nil => rfl
  | cons i as ih =>
    have hi : key a ≠ key i := fun heq => h i List.mem_cons_self heq.symm
    rw [anchored,anchored,List.filter_append,ih fun j hj => h j (List.mem_cons_of_mem _ hj)]
    simp [hi]

/-- One more note, of a class that has none yet. -/
theorem insertAfterLast_anchored (hmem : ∃ j ∈ as, key j = key a) (hnew : ∀ n ∈ notes, key n ≠ key a) :
    insertAfterLast key (key a) a (anchored key notes as) = anchored key (notes ++ [a]) as := by
  induction as with
  | nil =>
    obtain ⟨j,hj,-⟩ := hmem
    cases hj
  | cons i as ih =>
    by_cases hrest : ∃ j ∈ as, key j = key a
    · obtain ⟨j,hj,hk⟩ := hrest
      have hin : ∃ j ∈ anchored key notes as, key j = key a := ⟨j,(sublist_anchored as notes).subset hj,hk⟩
      by_cases hi : ∃ j ∈ as, key j = key i
      · rw [anchored_cons_of_mem hi,anchored_cons_of_mem hi,insertAfterLast_cons_of_mem hin,ih ⟨j,hj,hk⟩]
      · push Not at hi
        have hne : key a ≠ key i := fun heq => hi j hj (hk.trans heq)
        have hfilter : (notes ++ [a]).filter (fun n => key n = key i) = notes.filter fun n => key n = key i := by
          simp [List.filter_append,hne]
        rw [anchored_cons_last hi,anchored_cons_last hi,hfilter,← ih ⟨j,hj,hk⟩]
        obtain ⟨j',hj',hk'⟩ := hin
        rw [insertAfterLast_cons_of_mem ⟨j',List.mem_append_right _ hj',hk'⟩,
          insertAfterLast_append_of_mem ⟨j',hj',hk'⟩]
    · push Not at hrest
      have hi : key i = key a := by
        obtain ⟨j,hj,hk⟩ := hmem
        rcases List.mem_cons.mp hj with rfl | hj
        · exact hk
        · exact absurd hk (hrest j hj)
      have hlast : ∀ j ∈ as, key j ≠ key i := by rwa [hi]
      have hnone : notes.filter (fun n => key n = key i) = [] := by
        rw [List.filter_eq_nil_iff,hi]
        simpa using hnew
      have hafter : ∀ b ∈ anchored key notes as, key b ≠ key a := by
        intro b hb
        rcases mem_anchored hb with hb | hb
        · exact hrest b hb
        · exact hnew b hb.1
      rw [anchored_cons_last hlast,anchored_cons_last hlast,anchored_concat_of_absent hrest,List.filter_append,
        hnone,List.nil_append,List.nil_append,insertAfterLast_cons_last hi hafter]
      simp [hi]

/-- Notes of different classes, each put after the last element of its class. -/
theorem foldl_insertAfterLast (hd : ((notes ++ notes').map key).Nodup)
    (hin : ∀ a ∈ notes', ∃ j ∈ as, key j = key a) :
    notes'.foldl (fun as a => insertAfterLast key (key a) a as) (anchored key notes as) =
      anchored key (notes ++ notes') as := by
  induction notes' generalizing notes with
  | nil => rw [List.foldl_nil,List.append_nil]
  | cons a notes' ih =>
    have hnew : ∀ n ∈ notes, key n ≠ key a := by
      rw [List.map_append,List.nodup_append] at hd
      exact fun n hn => hd.2.2 _ (List.mem_map_of_mem hn) _ (List.mem_map_of_mem List.mem_cons_self)
    rw [List.foldl_cons,insertAfterLast_anchored (hin a List.mem_cons_self) hnew]
    rw [List.append_cons] at hd
    have hrest := ih hd fun b hb => hin b (List.mem_cons_of_mem _ hb)
    rwa [← List.append_cons] at hrest

/-- Where a note stands: directly after an element of its class that was the last one. -/
theorem anchored_split (hd : (notes.map key).Nodup) (ha : a ∈ notes) (hin : ∃ j ∈ as, key j = key a) :
    ∃ before last after, anchored key notes as = before ++ last :: a :: after ∧ last ∈ as ∧
      key last = key a ∧ ∀ j ∈ after, key j ≠ key a := by
  induction as with
  | nil =>
    obtain ⟨j,hj,-⟩ := hin
    cases hj
  | cons i as ih =>
    by_cases hrest : ∃ j ∈ as, key j = key a
    · obtain ⟨before,last,after,heq,hlast,hk,hafter⟩ := ih hrest
      rw [anchored,heq,← List.append_assoc,← List.cons_append]
      exact ⟨_,last,after,rfl,List.mem_cons_of_mem _ hlast,hk,hafter⟩
    · push Not at hrest
      have hi : key i = key a := by
        obtain ⟨j,hj,hk⟩ := hin
        rcases List.mem_cons.mp hj with rfl | hj
        · exact hk
        · exact absurd hk (hrest j hj)
      have hsingle : notes.filter (fun n => key n = key i) = [a] := by
        rw [hi]
        exact filter_eq_singleton hd ha
      refine ⟨[],i,anchored key notes as,?_,List.mem_cons_self,hi,?_⟩
      · rw [anchored_cons_last (by rwa [hi]),hsingle]
        rfl
      · intro j hj hk
        rcases mem_anchored hj with hj | ⟨-,j',hj',hk'⟩
        · exact hrest j hj hk
        · exact hrest j' hj' (hk'.trans hk)

/-- Notes that are alike class by class make lists that are alike. -/
theorem forall₂_anchored {R : α → α → Prop} (hrefl : ∀ a, R a a)
    (h : ∀ k, List.Forall₂ R (notes.filter fun n => key n = k) (notes'.filter fun n => key n = k)) :
    List.Forall₂ R (anchored key notes as) (anchored key notes' as) := by
  induction as with
  | nil => exact .nil
  | cons i as ih =>
    rw [anchored,anchored]
    refine .cons (hrefl i) (List.rel_append ?_ ih)
    split
    · exact h (key i)
    · exact .nil

end Anchored

end Anchoring
end Saarathi
