import Mathlib.Data.List.Basic
import Mathlib.Data.List.Range
import Mathlib.Data.Nat.Notation
import Mathlib.Tactic.Common

/-!
# Pages of a numbered list that grows

The entries of a list have the numbers from 1 on, in order, and new ones are added
at its end. A page starts after a number, and says from which one to go on; a reader
who goes on from page to page at later and later moments gets the list.
-/

namespace Saarathi
namespace NumberedPages

variable {A M : Type} {num : A → ℕ} {as bs : List A} {after limit start : ℕ}

/-- The entries have the numbers from 1 on, in order. -/
def Counted (num : A → ℕ) (as : List A) : Prop := as.map num = List.range' 1 as.length

structure Page (A : Type) where
  rows : List A
  next : Option ℕ

/-- A page of at most `limit` rows; there is a next one if it was given more. -/
def page (num : A → ℕ) (limit : ℕ) (rows : List A) : Page A where
  rows := rows.take limit
  next := if limit < rows.length then (rows.take limit).getLast?.map num else none

/-- The page after a number, of a query for one row more than the page holds. -/
def pageAfter (num : A → ℕ) (after limit : ℕ) (as : List A) : Page A :=
  page num limit ((as.filter fun a => after < num a).take (limit + 1))

/-- The rows that a reader is given from `after` on, who goes on from each page's `next` at some later
moment until there is none. -/
inductive ReadThrough (read : ℕ → M → Page A) (later : M → M → Prop) : ℕ → M → List A → M → Prop
  | last {after m} (h : (read after m).next = none) : ReadThrough read later after m (read after m).rows m
  | more {after n m m' m'' rest} (h : (read after m).next = some n) (hl : later m m')
      (hf : ReadThrough read later n m' rest m'') : ReadThrough read later after m ((read after m).rows ++ rest) m''

theorem num_bounds (h : as.map num = List.range' start as.length) {a : A} (ha : a ∈ as) :
    start ≤ num a ∧ num a < start + as.length := by
  have hmem : num a ∈ List.range' start as.length := h ▸ List.mem_map_of_mem ha
  exact List.mem_range'_1.mp hmem

theorem filter_eq_drop_from : ∀ {as : List A} {start : ℕ}, as.map num = List.range' (start + 1) as.length →
    (as.filter fun a => after < num a) = as.drop (after - start)
  | [],_,_ => by simp
  | a :: as,start,h => by
    rw [List.map_cons,List.length_cons,List.range'_succ] at h
    obtain ⟨ha,has⟩ := List.cons.inj h
    have ih := filter_eq_drop_from has
    by_cases hlt : after < num a
    · have hrest : after - (start + 1) = 0 := by omega
      have hnone : after - start = 0 := by omega
      rw [List.filter_cons_of_pos (by simpa using hlt),ih,hrest,hnone,List.drop_zero,List.drop_zero]
    · have hsucc : after - start = after - (start + 1) + 1 := by omega
      rw [List.filter_cons_of_neg (by simpa using hlt),ih,hsucc,List.drop_succ_cons]

theorem prefix_of_subset_from : ∀ {as bs : List A} {start : ℕ}, as.map num = List.range' start as.length →
    bs.map num = List.range' start bs.length → (∀ a ∈ as, a ∈ bs) → as <+: bs
  | [],_,_,_,_,_ => List.nil_prefix
  | a :: as,bs,start,ha,hb,hsub => by
    cases bs with
    | nil => exact absurd (hsub a List.mem_cons_self) List.not_mem_nil
    | cons b bs =>
      rw [List.map_cons,List.length_cons,List.range'_succ] at ha hb
      obtain ⟨ha,has⟩ := List.cons.inj ha
      obtain ⟨hb,hbs⟩ := List.cons.inj hb
      -- the entries after the first have larger numbers
      have hab : a = b := by
        rcases List.mem_cons.mp (hsub a List.mem_cons_self) with hab | hmem
        · exact hab
        · have := (num_bounds hbs hmem).1
          omega
      subst hab
      refine List.cons_prefix_cons.mpr ⟨rfl,prefix_of_subset_from has hbs fun a' ha' => ?_⟩
      rcases List.mem_cons.mp (hsub a' (List.mem_cons_of_mem _ ha')) with rfl | hmem
      · have := (num_bounds has ha').1
        omega
      · exact hmem

namespace Counted

theorem filter_eq_drop (h : Counted num as) (after : ℕ) :
    (as.filter fun a => after < num a) = as.drop after := by
  have hzero : as.map num = List.range' (0 + 1) as.length := h
  exact filter_eq_drop_from hzero

/-- A counted list whose entries are among those of another is where the other begins. -/
theorem prefix_of_subset (ha : Counted num as) (hb : Counted num bs) (h : ∀ a ∈ as, a ∈ bs) : as <+: bs :=
  prefix_of_subset_from ha hb h

theorem getElem? (h : Counted num as) {i : ℕ} (hi : i < as.length) : as[i]?.map num = some (i + 1) := by
  rw [← List.getElem?_map,h,List.getElem?_range' hi]
  simp [Nat.add_comm]

/-- The page after a number has the rows that come then, and the next one starts after its last. -/
theorem pageAfter_eq (h : Counted num as) (hpos : 0 < limit) (after : ℕ) : pageAfter num after limit as =
    ⟨(as.drop after).take limit,if after + limit < as.length then some (after + limit) else none⟩ := by
  have htake : ((as.drop after).take (limit + 1)).take limit = (as.drop after).take limit := by
    rw [List.take_take,Nat.min_eq_left (Nat.le_succ limit)]
  have hmore : limit < ((as.drop after).take (limit + 1)).length ↔ after + limit < as.length := by
    rw [List.length_take,List.length_drop]
    omega
  rw [pageAfter,page,h.filter_eq_drop,htake]
  by_cases hlt : after + limit < as.length
  · have hlast : ((as.drop after).take limit).getLast? = as[after + limit - 1]? := by
      have hlen : ((as.drop after).take limit).length = limit := by
        rw [List.length_take,List.length_drop]
        omega
      rw [List.getLast?_eq_getElem?,hlen,List.getElem?_take_of_lt (by omega),List.getElem?_drop,
        Nat.add_sub_assoc hpos]
    have hnum : after + limit - 1 + 1 = after + limit := by omega
    rw [if_pos (hmore.mpr hlt),if_pos hlt,hlast,h.getElem? (by omega),hnum]
  · rw [if_neg (fun hm => hlt (hmore.mp hm)),if_neg hlt]

end Counted

namespace ReadThrough

variable {read : ℕ → M → Page A} {later : M → M → Prop} {view : M → List A} {m m' : M} {rows : List A}

/-- Meanwhile the list has only grown. -/
theorem grown (hg : ∀ m m', later m m' → view m <+: view m') (h : ReadThrough read later after m rows m') :
    view m <+: view m' := by
  induction h with
  | last => exact List.prefix_rfl
  | more _ hl _ ih => exact (hg _ _ hl).trans ih

/-- The pages, one after another, are what the list is at the last of them, each entry once. -/
theorem rows_eq (hread : ∀ after m, read after m = pageAfter num after limit (view m))
    (hc : ∀ m, Counted num (view m)) (hg : ∀ m m', later m m' → view m <+: view m') (hpos : 0 < limit)
    (h : ReadThrough read later after m rows m') : rows = (view m').drop after := by
  have hpage : ∀ after m, read after m = ⟨((view m).drop after).take limit,
      if after + limit < (view m).length then some (after + limit) else none⟩ :=
    fun after m => (hread after m).trans ((hc m).pageAfter_eq hpos after)
  induction h with
  | last hnext =>
    rename_i after m
    rw [hpage] at hnext ⊢
    have hle : (view m).length ≤ after + limit := by
      by_contra hlt
      simp [Nat.not_le.mp hlt] at hnext
    refine List.take_of_length_le ?_
    rw [List.length_drop]
    omega
  | more hnext hl hf ih =>
    rename_i after n m m₁ m' rest
    rw [hpage] at hnext ⊢
    obtain ⟨hlt,hn⟩ : after + limit < (view m).length ∧ after + limit = n := by simpa using hnext
    subst hn
    obtain ⟨added,hadded⟩ := (hg m m₁ hl).trans (hf.grown hg)
    have hsame : ((view m).drop after).take limit = ((view m').drop after).take limit := by
      rw [← hadded,List.drop_append_of_le_length (by omega),
        List.take_append_of_le_length (by rw [List.length_drop]; omega)]
    have hrest : (view m').drop (after + limit) = ((view m').drop after).drop limit := List.drop_drop.symm
    show ((view m).drop after).take limit ++ rest = _
    rw [ih,hsame,hrest,List.take_append_drop]

end ReadThrough

end NumberedPages
end Saarathi
