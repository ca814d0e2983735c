import Saarathi.FrameParser

/-!
# The ids of options

An option is named by what its object says of itself, and where it says nothing by
its position. This module says when the ids of a list tell its options apart.
-/

namespace Saarathi
namespace FrameParser

/-- What a choice is named by. -/
def choiceName (item : List (String × Json)) : Json := (Json.get item "id").orElse (Json.get item "value")

/-- What a source is named by. -/
def citationName (item : List (String × Json)) : Json := (Json.get item "url").orElse (Json.get item "id")

/-- The list that an `extra_content` is normalised from, and what its objects are named by. -/
def listed : Json → Option ((List (String × Json) → Json) × List Json)
  | .obj extra => match Json.lookup extra "options" with
    | some (.arr items) => some (choiceName,items)
    | _ => match Json.lookup extra "problem_statement" with
      | some _ => none
      | none => match Json.lookup extra "sources" with
        | some (.arr items) => some (citationName,items)
        | _ => none
  | _ => none

/-- The ids that the objects of a list have of their own. -/
def explicitIds (items : List Json) : List Json := items.filterMap fun
  | .obj item => Json.lookup item "id"
  | _ => none

section Apart

variable (b : Builtins) (name : List (String × Json) → Json) (items : List Json)

/-- The names print differently, and none prints the position of an object that has no name. -/
structure ToldApart : Prop where
  names : ∀ (i j : ℕ) x y, items[i]? = some (.obj x) → items[j]? = some (.obj y) → i ≠ j →
    name x ≠ .null → name y ≠ .null → coerceStr b (name x) ≠ coerceStr b (name y)
  positions : ∀ (i j : ℕ) x y, items[i]? = some (.obj x) → items[j]? = some (.obj y) →
    name x ≠ .null → name y = .null → coerceStr b (name x) ≠ toString j

variable {b name items}

theorem coerceStr_default {v : Json} {default : String} (h : v ≠ .null) : coerceStr b v default = coerceStr b v := by
  cases v with
  | null => exact absurd rfl h
  | _ => rfl

theorem toString_injective {i j : ℕ} (h : toString i = toString j) : i = j := by
  have hdigits : Nat.toDigits 10 i = Nat.toDigits 10 j := by
    rw [← Nat.toList_repr,← Nat.toList_repr]
    exact congrArg String.toList h
  rw [← Nat.ofDigitChars_ten_toDigits (n := i),hdigits,Nat.ofDigitChars_ten_toDigits]

/-- The ids of two objects, the earlier and the later one. -/
theorem optionsOf_nodup_iff {option : ℕ → List (String × Json) → TurnOption}
    (hid : ∀ i item, (option i item).id = coerceStr b (name item) (toString i)) :
    ((optionsOf option items).map (·.id)).Nodup ↔ ∀ (i j : ℕ) x y, i < j → items[i]? = some (.obj x) →
      items[j]? = some (.obj y) → coerceStr b (name x) (toString i) ≠ coerceStr b (name y) (toString j) := by
  rw [List.Nodup,optionsOf,List.pairwise_map,List.pairwise_filterMap,List.pairwise_iff_getElem]
  constructor
  · intro h i j x y hij hx hy
    obtain ⟨hi,hxi⟩ := List.getElem?_eq_some_iff.mp hx
    obtain ⟨hj,hyj⟩ := List.getElem?_eq_some_iff.mp hy
    have hne := h i j (by simpa using hi) (by simpa using hj) hij (option i x) (by simp [hxi]) (option j y)
      (by simp [hyj])
    rwa [hid,hid] at hne
  · intro h i j hi hj hij o ho o' ho'
    rw [List.length_zipIdx] at hi hj
    rw [List.getElem_zipIdx,Nat.zero_add] at ho ho'
    cases hx : items[i] with
    | obj x =>
      cases hy : items[j] with
      | obj y =>
        obtain rfl : option i x = o := by simpa [hx] using ho
        obtain rfl : option j y = o' := by simpa [hy] using ho'
        rw [hid,hid]
        exact h i j x y hij (by rw [List.getElem?_eq_getElem hi,hx]) (by rw [List.getElem?_eq_getElem hj,hy])
      | _ => simp [hy] at ho'
    | _ => simp [hx] at ho

theorem toldApart_iff : ToldApart b name items ↔ ∀ (i j : ℕ) x y, i < j → items[i]? = some (.obj x) →
    items[j]? = some (.obj y) → coerceStr b (name x) (toString i) ≠ coerceStr b (name y) (toString j) := by
  constructor
  · intro h i j x y hij hx hy
    by_cases hnx : name x = .null
    · by_cases hny : name y = .null
      · rw [hnx,hny]
        exact fun he => absurd (toString_injective he) (by omega)
      · rw [hnx,coerceStr_default hny]
        exact (h.positions j i y x hy hx hny hnx).symm
    · rw [coerceStr_default hnx]
      by_cases hny : name y = .null
      · rw [hny]
        exact h.positions i j x y hx hy hnx hny
      · rw [coerceStr_default hny]
        exact h.names i j x y hx hy (by omega) hnx hny
  · intro h
    constructor
    · intro i j x y hx hy hij hnx hny
      rcases Nat.lt_or_gt_of_ne hij with hlt | hlt
      · have hne := h i j x y hlt hx hy
        rwa [coerceStr_default hnx,coerceStr_default hny] at hne
      · have hne := h j i y x hlt hy hx
        rw [coerceStr_default hnx,coerceStr_default hny] at hne
        exact hne.symm
    · intro i j x y hx hy hnx hny
      rcases Nat.lt_trichotomy i j with hlt | rfl | hlt
      · have hne := h i j x y hlt hx hy
        rwa [coerceStr_default hnx,hny] at hne
      · obtain rfl : x = y := by simpa using hx.symm.trans hy
        exact absurd hny hnx
      · have hne := h j i y x hlt hy hx
        rw [coerceStr_default hnx,hny] at hne
        exact hne.symm

end Apart

/-- The ids of the options are pairwise distinct exactly when the list that they come from tells its
objects apart. -/
theorem normaliseOptions_nodup_iff (b : Builtins) (extra : Json) :
    ((normaliseOptions b extra).map (·.id)).Nodup ↔
      ∀ name items, listed extra = some (name,items) → ToldApart b name items := by
  have hlist : ∀ (option : ℕ → List (String × Json) → TurnOption) (name items),
      (∀ i item, (option i item).id = coerceStr b (name item) (toString i)) →
      normaliseOptions b extra = optionsOf option items → listed extra = some (name,items) →
      (((normaliseOptions b extra).map (·.id)).Nodup ↔
        ∀ name items, listed extra = some (name,items) → ToldApart b name items) := by
    intro option name items hid hopts hlisted
    rw [hopts,optionsOf_nodup_iff hid,← toldApart_iff,hlisted]
    constructor
    · rintro h _ _ ⟨⟩
      exact h
    · exact fun h => h name items rfl
  have hnone : normaliseOptions b extra = [] → listed extra = none →
      (((normaliseOptions b extra).map (·.id)).Nodup ↔
        ∀ name items, listed extra = some (name,items) → ToldApart b name items) := by
    intro hopts hlisted
    rw [hopts,hlisted]
    simp
  cases extra with
  | obj fields =>
    -- Without a list of options, an evaluation offers nothing and a free answer its sources.
    have hother : (∀ items, Json.lookup fields "options" ≠ some (.arr items)) →
        (((normaliseOptions b (.obj fields)).map (·.id)).Nodup ↔
          ∀ name items, listed (.obj fields) = some (name,items) → ToldApart b name items) := by
      intro hopts
      cases hproblem : Json.lookup fields "problem_statement" with
      | some v => exact hnone (by simp [normaliseOptions,hproblem]) (by simp [listed,hproblem])
      | none =>
        by_cases hsources : ∃ items, Json.lookup fields "sources" = some (.arr items)
        · obtain ⟨items,hsources⟩ := hsources
          exact hlist (citation b) citationName items (fun _ _ => rfl)
            (by simp [normaliseOptions,sourcesOf,hproblem,hsources])
            (by simp [listed,hproblem,hsources])
        · have hne : ∀ items, Json.lookup fields "sources" ≠ some (.arr items) := fun items h => hsources ⟨items,h⟩
          exact hnone (by simp [normaliseOptions,sourcesOf,hproblem]) (by simp [listed,hproblem])
    by_cases hopts : ∃ items, Json.lookup fields "options" = some (.arr items)
    · obtain ⟨items,hopts⟩ := hopts
      exact hlist (choice b) choiceName items (fun _ _ => rfl) (by simp only [normaliseOptions,hopts])
        (by simp only [listed,hopts])
    · exact hother fun items h => hopts ⟨items,h⟩
  | _ => exact hnone rfl rfl

/-- A choice with the id `"1"`, before one that is named by its position. -/
def shiftedIds : List Json := [.obj [("id",.str "1"),("label",.str "Yes")],.obj [("label",.str "No")]]

/-- Two sources with ids of their own, on one page. -/
def sharedPage : List Json :=
  [.obj [("id",.str "a"),("url",.str "https://example.com")],.obj [("id",.str "b"),("url",.str "https://example.com")]]

/-- Distinct ids of their own do not keep two choices apart, nor two sources. -/
theorem distinct_ids_collide : explicitIds shiftedIds = [.str "1"] ∧
    ¬ ((normaliseOptions (knowing "" .null fun _ => none) (.obj [("options",.arr shiftedIds)])).map (·.id)).Nodup ∧
    explicitIds sharedPage = [.str "a",.str "b"] ∧
    ¬ ((normaliseOptions (knowing "" .null fun _ => none) (.obj [("sources",.arr sharedPage)])).map (·.id)).Nodup :=
  ⟨rfl,by decide,rfl,by decide⟩

end FrameParser
end Saarathi
