import Mathlib.Data.List.TakeDrop
import Mathlib.Data.Nat.Notation
import Mathlib.Tactic.Common

/-!
# Limit and offset paging

Pages of a list that others append to, one element at a time, between and during
the requests for them.
-/

namespace Saarathi
namespace Paging

variable {A : Type}

/-- The answer to a request: how many rows there are, and some of them. -/
structure Page (A : Type) where
  count : ℕ
  results : List A

def page (rows : List A) (limit offset : ℕ) : Page A where
  count := rows.length
  results := (rows.drop offset).take limit

/-- The last `k` rows, or all of them. -/
def last (k : ℕ) (rows : List A) : List A := rows.drop (rows.length - k)

/-- What the list is at each moment. -/
def Growing (h : ℕ → List A) : Prop := ∀ t, h (t + 1) = h t ∨ ∃ a, h (t + 1) = h t ++ [a]

theorem length_last (k : ℕ) (rows : List A) : (last k rows).length = min k rows.length := by
  simp only [last,List.length_drop]
  omega

theorem last_sublist (k : ℕ) (rows : List A) : (last k rows).Sublist rows := List.drop_sublist _ _

/-- The last row of a page from the start is that of the list only if the page holds the list. -/
theorem getLast?_page {rows : List A} {limit : ℕ} (h : 0 < limit) : (page rows limit 0).results.getLast? =
    if rows.length ≤ limit then rows.getLast? else rows[limit - 1]? := by
  rw [page,List.drop_zero,List.getLast?_eq_getElem?,List.length_take]
  split
  · rename_i hle
    rw [List.take_of_length_le hle,Nat.min_eq_right hle,← List.getLast?_eq_getElem?]
  · rename_i hlt
    rw [Nat.min_eq_left (by omega),List.getElem?_take_of_lt (by omega)]

namespace Growing

variable {h : ℕ → List A} {t t₁ t₂ : ℕ}

theorem prefix_of_le (hg : Growing h) (hle : t₁ ≤ t₂) : h t₁ <+: h t₂ := by
  induction hle with
  | refl => exact List.prefix_refl _
  | step hle ih =>
    rename_i t
    rcases hg t with heq | ⟨a,heq⟩
    · rwa [heq]
    · rw [heq]
      exact ih.trans (List.prefix_append ..)

/-- The list had every length on the way. -/
theorem exists_take (hg : Growing h) (hle : t₁ ≤ t₂) {n : ℕ} (h₁ : (h t₁).length ≤ n)
    (h₂ : n ≤ (h t₂).length) : ∃ m, t₁ ≤ m ∧ m ≤ t₂ ∧ h m = (h t₂).take n := by
  induction hle with
  | refl => exact ⟨t₁,Nat.le_refl _,Nat.le_refl _,(List.take_of_length_le h₁).symm⟩
  | step hle ih =>
    rename_i t
    have hle : t₁ ≤ t := hle
    by_cases hn : n ≤ (h t).length
    · obtain ⟨m,hm₁,hm₂,hm⟩ := ih hn
      obtain ⟨rest,hrest⟩ := hg.prefix_of_le (Nat.le_succ t)
      refine ⟨m,hm₁,by omega,?_⟩
      rw [hm,← hrest,List.take_append_of_le_length hn]
    · refine ⟨t + 1,by omega,Nat.le_refl _,(List.take_of_length_le ?_).symm⟩
      rcases hg t with heq | ⟨a,heq⟩
      · rw [heq]
        omega
      · rw [heq,List.length_append,List.length_singleton]
        omega

/-- The page at the offset that an earlier count gives holds the last rows of some moment since: of
the count's own if it reached `k`, and otherwise of the one when the page became as long as it is. -/
theorem page_eq_last (hg : Growing h) (hle : t₁ ≤ t₂) (k : ℕ) : ∃ m, t₁ ≤ m ∧ m ≤ t₂ ∧
    (page (h t₂) k ((h t₁).length - k)).results = last k (h m) := by
  obtain ⟨rest,hrest⟩ := hg.prefix_of_le hle
  have hlen : (h t₁).length + rest.length = (h t₂).length := by rw [← hrest,List.length_append]
  by_cases hk : k ≤ (h t₁).length
  · refine ⟨t₁,Nat.le_refl _,hle,?_⟩
    have htake : (h t₁ ++ rest).take (h t₁).length = h t₁ := List.take_left
    have hsum : (h t₁).length - k + k = (h t₁).length := by omega
    rw [page,last,← hrest]
    show ((h t₁ ++ rest).drop ((h t₁).length - k)).take k = _
    rw [List.take_drop,hsum,htake]
  · obtain ⟨m,hm₁,hm₂,hm⟩ := hg.exists_take hle (n := min k (h t₂).length) (by omega) (by omega)
    refine ⟨m,hm₁,hm₂,?_⟩
    have hoff : (h t₁).length - k = 0 := by omega
    have hmlen : (h m).length - k = 0 := by
      rw [hm,List.length_take]
      omega
    rw [page,last,hoff,hmlen,List.drop_zero,List.drop_zero,hm]
    exact List.take_eq_take_min

end Growing

end Paging
end Saarathi
