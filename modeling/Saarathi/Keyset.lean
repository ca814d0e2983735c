import Mathlib.Data.List.Sort
import Mathlib.Data.Nat.Notation
import Mathlib.Tactic.Common

/-!
# Keyset paging

Rows in descending order of a key that several of them may share. Each page starts
strictly after the key of the last row of the page before it, and rows with equal
keys come in any order.
-/

namespace Saarathi
namespace Keyset

variable {α κ : Type} [LinearOrder κ] {key : α → κ} {rows as bs : List α} {answer : Option κ → List α}
  {limit fuel : ℕ} {cursor : Option κ} {c : κ}

def Descending (key : α → κ) (as : List α) : Prop := as.Pairwise fun a b => key b ≤ key a

/-- The rows that come after the cursor. -/
def after (key : α → κ) (cursor : Option κ) (rows : List α) : List α :=
  rows.filter fun a => match cursor with
    | none => true
    | some c => key a < c

/-- Every query is answered with the rows after its cursor, in descending order. -/
def Answers (key : α → κ) (rows : List α) (answer : Option κ → List α) : Prop :=
  ∀ cursor, (answer cursor).Perm (after key cursor rows) ∧ Descending key (answer cursor)

/-- A page of the answer, and the cursor of the next one where there are more rows. -/
def page (key : α → κ) (limit : ℕ) (as : List α) : List α × Option κ :=
  (as.take limit,if limit < as.length then (as.take limit).getLast?.map key else none)

/-- The pages from the cursor on, if they end before the fuel does. -/
def follow (key : α → κ) (answer : Option κ → List α) (limit : ℕ) : ℕ → Option κ → Option (List (List α))
  | 0, _ => none
  | fuel + 1, cursor =>
    let (rows,next) := page key limit (answer cursor)
    match next with
    | none => some [rows]
    | some c => (follow key answer limit fuel (some c)).map (rows :: ·)

/-- The keys in descending order. -/
def keys (key : α → κ) (rows : List α) : List κ := (rows.map key).mergeSort fun a b => b ≤ a

/-- No page of `limit` keys ends between equal ones. -/
def Cut (limit : ℕ) (ks : List κ) : Prop :=
  ∀ i a b, ks[(i + 1) * limit - 1]? = some a → ks[(i + 1) * limit]? = some b → b ≠ a

section Cut

omit [LinearOrder κ]

theorem Cut.of_length (h : as.length ≤ limit) : Cut limit (as.map key) := by
  intro i a b _ hb
  have hlt := (List.getElem?_eq_some_iff.mp hb).1
  have hle : limit ≤ (i + 1) * limit := Nat.le_mul_of_pos_left _ (Nat.succ_pos _)
  rw [List.length_map] at hlt
  omega

/-- The end of the first page, and of those after it. -/
theorem cut_iff {ks : List κ} (hpos : 0 < limit) : Cut limit ks ↔
    (∀ a b, ks[limit - 1]? = some a → ks[limit]? = some b → b ≠ a) ∧ Cut limit (ks.drop limit) := by
  have hlast : ∀ i, limit + ((i + 1) * limit - 1) = (i + 1 + 1) * limit - 1 := by
    intro i
    have hle : limit ≤ (i + 1) * limit := Nat.le_mul_of_pos_left _ (Nat.succ_pos _)
    rw [Nat.add_mul (i + 1),Nat.one_mul]
    omega
  have hnext : ∀ i, limit + (i + 1) * limit = (i + 1 + 1) * limit := by
    intro i
    rw [Nat.add_mul (i + 1),Nat.one_mul,Nat.add_comm]
  constructor
  · intro h
    refine ⟨fun a b ha hb => h 0 a b (by simpa using ha) (by simpa using hb),?_⟩
    intro i a b ha hb
    rw [List.getElem?_drop,hlast] at ha
    rw [List.getElem?_drop,hnext] at hb
    exact h (i + 1) a b ha hb
  · rintro ⟨h₀,h⟩ i a b ha hb
    cases i with
    | zero => exact h₀ a b (by simpa using ha) (by simpa using hb)
    | succ i =>
      refine h i a b ?_ ?_
      · rw [List.getElem?_drop,hlast]
        exact ha
      · rw [List.getElem?_drop,hnext]
        exact hb

end Cut

section Descending

/-- Rows in descending order have the same keys in whatever order they were. -/
theorem Descending.map_eq (h : Descending key as) (h' : Descending key bs) (hp : as.Perm bs) :
    as.map key = bs.map key :=
  List.Perm.eq_of_pairwise (fun _ _ _ _ hle hle' => le_antisymm hle' hle) (List.pairwise_map.mpr h)
    (List.pairwise_map.mpr h') (hp.map key)

theorem Descending.map_eq_keys (h : Descending key as) (hp : as.Perm rows) : as.map key = keys key rows := by
  have hsort : (keys key rows).Pairwise fun a b => b ≤ a := by
    have hp : (keys key rows).Pairwise fun a b => decide (b ≤ a) = true := by
      refine List.pairwise_mergeSort (fun a b c hab hbc => ?_) (fun a b => ?_) (rows.map key)
      · rw [decide_eq_true_eq] at *
        exact le_trans hbc hab
      · simpa using le_total b a
    simpa only [decide_eq_true_eq] using hp
  exact List.Perm.eq_of_pairwise (fun _ _ _ _ hle hle' => le_antisymm hle' hle) (List.pairwise_map.mpr h)
    hsort ((hp.map key).trans (List.mergeSort_perm _ _).symm)

theorem Descending.take_drop (h : Descending key as) (n : ℕ) :
    ∀ a ∈ as.take n, ∀ b ∈ as.drop n, key b ≤ key a := by
  have happ : Descending key (as.take n ++ as.drop n) := by rwa [List.take_append_drop]
  exact (List.pairwise_append.mp happ).2.2

theorem filter_perm_iff {p : α → Bool} : (as.filter p).Perm as ↔ ∀ a ∈ as, p a = true := by
  constructor
  · intro hp
    exact List.length_filter_eq_length_iff.mp hp.length_eq
  · intro h
    rw [List.filter_eq_self.mpr h]

/-- No row after the first `n` shares the key of the last of these: the next row does not. -/
theorem Descending.ties_iff (h : Descending key as) {n : ℕ} (hn : 0 < n) (hc : (as.map key)[n - 1]? = some c) :
    ((as.drop n).filter fun a => key a < c).Perm (as.drop n) ↔
      ∀ a b, (as.map key)[n - 1]? = some a → (as.map key)[n]? = some b → b ≠ a := by
  rw [filter_perm_iff]
  constructor
  · intro hall a b ha hb
    obtain rfl : c = a := Option.some.inj (hc.symm.trans ha)
    rw [List.getElem?_map,Option.map_eq_some_iff] at hb
    obtain ⟨d,hd,rfl⟩ := hb
    have hmem : d ∈ as.drop n := List.mem_of_getElem? (i := 0) (by rw [List.getElem?_drop]; exact hd)
    exact ne_of_lt (by simpa using hall d hmem)
  · intro hne d hd
    rw [List.getElem?_map,Option.map_eq_some_iff] at hc
    obtain ⟨l,hl,rfl⟩ := hc
    have hdrop : as.drop n ≠ [] := List.ne_nil_of_mem hd
    obtain ⟨e,rest,heq⟩ := List.exists_cons_of_ne_nil hdrop
    have he : as[n]? = some e := by
      have hzero := congrArg (fun l : List α => l[0]?) heq
      simpa [List.getElem?_drop] using hzero
    have hlt : key e < key l := by
      refine lt_of_le_of_ne ?_ (hne (key l) (key e) (by rw [List.getElem?_map,hl]; rfl)
        (by rw [List.getElem?_map,he]; rfl))
      have htake : l ∈ as.take n := List.mem_of_getElem? (i := n - 1)
        (by rw [List.getElem?_take_of_lt (by omega)]; exact hl)
      exact h.take_drop n l htake e (by rw [heq]; exact List.mem_cons_self)
    have hle : key d ≤ key e := by
      have hsub : Descending key (e :: rest) := heq ▸ h.sublist (List.drop_sublist _ _)
      rw [heq] at hd
      rcases List.mem_cons.mp hd with rfl | hd
      · exact le_refl _
      · exact (List.pairwise_cons.mp hsub).1 d hd
    simpa using lt_of_le_of_lt hle hlt

end Descending

section Follow

variable (h : Answers key rows answer)
include h

theorem mem_answer {a : α} (ha : a ∈ answer cursor) : ∀ c, cursor = some c → key a < c := by
  rintro c rfl
  have hmem := (h (some c)).1.mem_iff.mp ha
  simpa using (List.mem_filter.mp hmem).2

/-- What comes after a page: the rest of the answer but for the rows that share the cursor's key. -/
theorem answer_next (hpos : 0 < limit) (hlt : limit < (answer cursor).length) :
    ∃ c, (page key limit (answer cursor)).2 = some c ∧
      (answer (some c)).Perm (((answer cursor).drop limit).filter fun a => key a < c) ∧
      ((answer cursor).map key)[limit - 1]? = some c := by
  have hne : (answer cursor).take limit ≠ [] := by
    intro hnil
    have hlen := congrArg List.length hnil
    rw [List.length_take,List.length_nil] at hlen
    omega
  obtain ⟨l,hl⟩ := Option.ne_none_iff_exists'.mp (mt List.getLast?_eq_none_iff.mp hne)
  have hlast : (answer cursor)[limit - 1]? = some l := by
    rw [List.getLast?_eq_getElem?,List.length_take,Nat.min_eq_left (by omega),
      List.getElem?_take_of_lt (by omega)] at hl
    exact hl
  refine ⟨key l,?_,?_,?_⟩
  · rw [page,if_pos hlt,hl]
    rfl
  · have hl' : l ∈ answer cursor := List.mem_of_getElem? hlast
    have hstart : ((answer cursor).take limit).filter (fun a => key a < key l) = [] := by
      rw [List.filter_eq_nil_iff]
      intro a ha
      obtain ⟨before,heq⟩ := List.getLast?_eq_some_iff.mp hl
      have hd : Descending key (before ++ [l]) := by
        rw [← heq]
        exact (h cursor).2.sublist (List.take_sublist _ _)
      rw [heq] at ha
      rcases List.mem_append.mp ha with ha | ha
      · have hle := (List.pairwise_append.mp hd).2.2 a ha l List.mem_cons_self
        simpa using hle
      · rw [List.mem_singleton.mp ha]
        simp
    have hsame : (after key cursor rows).filter (fun a => key a < key l) = after key (some (key l)) rows := by
      rw [after,after,List.filter_filter]
      apply List.filter_congr
      intro a _
      cases cursor with
      | none => simp
      | some t =>
        have hlt : key l < t := mem_answer h hl' t rfl
        by_cases ha : key a < key l
        · simp [ha,ha.trans hlt]
        · simp [ha]
    have hsplit : (answer cursor).filter (fun a => key a < key l) =
        ((answer cursor).drop limit).filter fun a => key a < key l := by
      conv_lhs => rw [← List.take_append_drop limit (answer cursor)]
      rw [List.filter_append,hstart,List.nil_append]
    rw [← hsplit]
    refine (h (some (key l))).1.trans ?_
    rw [← hsame]
    exact ((h cursor).1.filter _).symm
  · rw [List.getElem?_map,hlast]
    rfl

/-- The pages end, they hold no row more often than the answer does, in descending order, and they
hold all of them exactly where no page ends between equal keys. -/
theorem follow_spec (hpos : 0 < limit) (hf : (answer cursor).length < fuel) :
    ∃ pages, follow key answer limit fuel cursor = some pages ∧
      pages.flatten.Subperm (answer cursor) ∧ Descending key pages.flatten ∧
      (pages.flatten.Perm (answer cursor) ↔ Cut limit ((answer cursor).map key)) := by
  induction fuel generalizing cursor with
  | zero => omega
  | succ fuel ih =>
    by_cases hlt : limit < (answer cursor).length
    · obtain ⟨c,hpage,hnext,hc⟩ := answer_next h hpos hlt
      have hle : (answer (some c)).Subperm ((answer cursor).drop limit) :=
        hnext.subperm.trans List.filter_sublist.subperm
      have hlen : (answer (some c)).length < fuel := by
        have hdrop := hle.length_le
        rw [List.length_drop] at hdrop
        omega
      obtain ⟨pages,hfollow,hsub,hdesc,hall⟩ := ih hlen
      have hd := (h cursor).2
      refine ⟨(answer cursor).take limit :: pages,?_,?_,?_,?_⟩
      · rw [follow]
        simp only [hpage,hfollow]
        rfl
      · rw [List.flatten_cons]
        conv_rhs => rw [← List.take_append_drop limit (answer cursor)]
        exact (List.subperm_append_left _).mpr (hsub.trans hle)
      · rw [List.flatten_cons]
        refine List.pairwise_append.mpr ⟨hd.sublist (List.take_sublist _ _),hdesc,?_⟩
        intro a ha b hb
        exact hd.take_drop limit a ha b ((hsub.trans hle).subset hb)
      · have hrest : pages.flatten.Perm ((answer cursor).drop limit) ↔
            pages.flatten.Perm (answer (some c)) ∧ (answer (some c)).Perm ((answer cursor).drop limit) := by
          constructor
          · intro hp
            have hback := hsub.perm_of_length_le (hp.length_eq ▸ hle.length_le)
            exact ⟨hback,hback.symm.trans hp⟩
          · rintro ⟨hp,hp'⟩
            exact hp.trans hp'
        have hties := hd.ties_iff hpos hc
        have hnext' : (answer (some c)).Perm ((answer cursor).drop limit) ↔
            (((answer cursor).drop limit).filter fun a => key a < c).Perm ((answer cursor).drop limit) :=
          ⟨hnext.symm.trans,hnext.trans⟩
        have hsplit : ((answer cursor).take limit ++ pages.flatten).Perm (answer cursor) ↔
            pages.flatten.Perm ((answer cursor).drop limit) := by
          conv_rhs => rw [← List.perm_append_left_iff ((answer cursor).take limit),List.take_append_drop]
        have hcut : Cut limit ((answer cursor).map key) ↔ _ := cut_iff hpos
        rw [List.flatten_cons,hsplit,hrest,hall,hnext',hties,hcut,and_comm]
        refine and_congr_right fun hne => ?_
        have hkeys := (h (some c)).2.map_eq (hd.sublist (List.drop_sublist limit _)) (hnext'.mpr (hties.mpr hne))
        rw [hkeys,List.map_drop]
    · have hpage : (page key limit (answer cursor)).2 = none := by rw [page,if_neg hlt]
      have hwhole : (answer cursor).take limit = answer cursor := List.take_of_length_le (by omega)
      refine ⟨[answer cursor],?_,?_,?_,?_⟩
      · rw [follow]
        simp only [hpage]
        rw [page,hwhole]
      · simpa using List.Subperm.refl _
      · simpa using (h cursor).2
      · simpa using Cut.of_length (by omega)

end Follow

end Keyset
end Saarathi
