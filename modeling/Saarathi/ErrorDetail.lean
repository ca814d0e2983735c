import Mathlib.Data.List.Infix
import Saarathi.RestClient

/-!
# The detail of a failed response

What `_extract_error_detail` takes from Mitra's error envelope, and where the
Origin credential may stand in it.
-/

namespace Saarathi
namespace Text

variable {s sub : String} {n i : ℕ}

/-- `sub` stands in `s` from position `i` on. -/
def OccursAt (s sub : String) (i : ℕ) : Prop := sub.toList <+: s.toList.drop i

/-- `s[:n]`. -/
def takeChars (n : ℕ) (s : String) : String := String.ofList (s.toList.take n)

instance : Decidable (OccursAt s sub i) := inferInstanceAs (Decidable (_ <+: _))

theorem contains_iff : contains s sub = true ↔ ∃ i, OccursAt s sub i := by
  simp only [contains,List.any_eq_true,List.mem_tails,List.isPrefixOf_iff_prefix,OccursAt]
  constructor
  · rintro ⟨t,hsuffix,hbefore⟩
    exact ⟨_,by rwa [← List.suffix_iff_eq_drop.mp hsuffix]⟩
  · rintro ⟨i,h⟩
    exact ⟨_,List.drop_suffix i _,h⟩

/-- What stands in a text cut off at `n` stands in the text and ends before `n`. -/
theorem occursAt_takeChars (hne : sub ≠ "") :
    OccursAt (takeChars n s) sub i ↔ OccursAt s sub i ∧ i + sub.length ≤ n := by
  have hpos : 0 < sub.toList.length := by
    rw [List.length_pos_iff]
    simpa using hne
  rw [OccursAt,OccursAt,takeChars,String.toList_ofList,List.drop_take,List.prefix_take_iff,String.length_toList]
  rw [String.length_toList] at hpos
  refine and_congr_right fun _ => ?_
  omega

end Text

namespace MitraRestClient

open FrameParser Text

variable (b : Builtins)

/-- The keys of Mitra's error envelope. -/
def errorKeys : List String := ["error_message","error_type","detail"]

def errorParts (body : List (String × Json)) : List String :=
  (errorKeys.filter fun key => (Json.get body key).truthy).map fun key => str b (Json.get body key)

/-- The error text of a response, from its JSON body if it has one. -/
def errorText : Option Json → String
  | some (.obj body) => " | ".intercalate (errorParts b body)
  | _ => ""

def detailLimit : ℕ := 300

/-- `_extract_error_detail`, with the credential of the fixed headers. -/
def extractErrorDetail (origin : String) : Option Json → Option String
  | some (.obj body) =>
    if errorParts b body = [] then none
    else
      let detail := takeChars detailLimit (errorText b (some (.obj body)))
      if origin ≠ "" ∧ contains detail origin = true then none else some detail
  | _ => none

section Detail

variable {b} {origin : String} {body : Option Json}

theorem errorText_eq_of_nil {fields : List (String × Json)} (h : errorParts b fields = []) :
    errorText b (some (.obj fields)) = "" := by
  rw [errorText,h]
  rfl

/-- The credential is looked for in the first part of the text only. -/
theorem extractErrorDetail_eq_none (hne : origin ≠ "")
    (h : ∃ i, OccursAt (errorText b body) origin i ∧ i + origin.length ≤ detailLimit) :
    extractErrorDetail b origin body = none := by
  obtain ⟨i,hi,hle⟩ := h
  unfold extractErrorDetail
  split
  · split
    · rfl
    · have hcut := contains_iff.mpr ⟨i,(occursAt_takeChars hne).mpr ⟨hi,hle⟩⟩
      exact if_pos ⟨hne,hcut⟩
  · rfl

theorem extractErrorDetail_eq_some (hne : origin ≠ "") {i : ℕ} (hi : OccursAt (errorText b body) origin i)
    (h : ∀ i, OccursAt (errorText b body) origin i → detailLimit < i + origin.length) :
    extractErrorDetail b origin body = some (takeChars detailLimit (errorText b body)) := by
  have hempty : errorText b body ≠ "" := by
    intro hempty
    rw [hempty,OccursAt,String.toList_empty,List.drop_nil,List.prefix_nil,String.toList_eq_nil_iff] at hi
    exact hne hi
  match body,hempty,h with
  | some (.obj fields),hempty,h =>
    have hparts : errorParts b fields ≠ [] := fun hnil => hempty (errorText_eq_of_nil hnil)
    rw [extractErrorDetail,if_neg hparts]
    refine if_neg ?_
    rintro ⟨-,hcontains⟩
    obtain ⟨j,hj⟩ := contains_iff.mp hcontains
    obtain ⟨hj,hle⟩ := (occursAt_takeChars hne).mp hj
    have hlt := h j hj
    omega

/-- The credential is kept out of an error detail, whole or cut off, exactly where one of its places in
the text of the error is before the cut, or it has none. -/
theorem extractErrorDetail_iff (b : Builtins) {origin : String} (hne : origin ≠ "") (body : Option Json) :
    ((contains (errorText b body) origin = true → extractErrorDetail b origin body = none) ∧
      ∀ detail, extractErrorDetail b origin body = some detail → ∀ i, OccursAt (errorText b body) origin i →
        ¬ (i < detailLimit ∧ detailLimit < i + origin.length)) ↔
    ((∃ i, OccursAt (errorText b body) origin i) →
      ∃ i, OccursAt (errorText b body) origin i ∧ i + origin.length ≤ detailLimit) := by
  rw [contains_iff]
  constructor
  · rintro ⟨hnone,-⟩ ⟨i,hi⟩
    by_contra hno
    have hbeyond : ∀ i, OccursAt (errorText b body) origin i → detailLimit < i + origin.length := by
      intro j hj
      by_contra hle
      exact hno ⟨j,hj,by omega⟩
    rw [extractErrorDetail_eq_some hne hi hbeyond] at hnone
    cases hnone ⟨i,hi⟩
  · intro h
    refine ⟨fun hoccurs => extractErrorDetail_eq_none hne (h hoccurs),fun detail hsome i hi => ?_⟩
    rw [extractErrorDetail_eq_none hne (h ⟨i,hi⟩)] at hsome
    cases hsome

end Detail

def origin : String := "https://app.example.org"

/-- A refusal that reflects the credential after `n` other characters. -/
def reflected (n : ℕ) : Option Json :=
  some (.obj [("detail",.str (String.ofList (List.replicate n 'x' ++ origin.toList)))])

theorem errorText_reflected {n : ℕ} (hn : 0 < n) :
    errorText (knowing "" .null fun _ => none) (reflected n) =
      String.ofList (List.replicate n 'x' ++ origin.toList) := by
  obtain ⟨n,rfl⟩ := Nat.exists_eq_succ_of_ne_zero hn.ne'
  simp [reflected,errorText,errorParts,errorKeys,Json.get,Json.lookup,Json.truthy,str,List.replicate_succ]

/-- The credential stands there only where it was reflected. -/
theorem le_of_occursAt_reflected {n i : ℕ}
    (h : OccursAt (String.ofList (List.replicate n 'x' ++ origin.toList)) origin i) : n ≤ i := by
  by_contra hlt
  rw [OccursAt,String.toList_ofList,List.drop_append_of_le_length (by simp; omega),List.drop_replicate] at h
  obtain ⟨k,hk⟩ : ∃ k, n - i = k + 1 := ⟨n - i - 1,by omega⟩
  rw [hk,List.replicate_succ,origin] at h
  simp at h

theorem occursAt_reflected (n : ℕ) :
    OccursAt (String.ofList (List.replicate n 'x' ++ origin.toList)) origin n := by
  rw [OccursAt,String.toList_ofList,List.drop_left' (by simp)]

/-- A credential that is reflected early is noticed. -/
theorem extractErrorDetail_iff_early :
    extractErrorDetail (knowing "" .null fun _ => none) origin (reflected 5) = none := by
  have hoccurs := occursAt_reflected 5
  rw [← errorText_reflected (by decide)] at hoccurs
  exact ((extractErrorDetail_iff (knowing "" .null fun _ => none) (by decide) (reflected 5)).mpr
    fun _ => ⟨5,hoccurs,by decide⟩).1 (contains_iff.mpr ⟨5,hoccurs⟩)

/-- A credential that is reflected across the cut is not, and the detail ends with its first part. -/
theorem extractErrorDetail_cut :
    contains (errorText (knowing "" .null fun _ => none) (reflected 290)) origin = true ∧
    extractErrorDetail (knowing "" .null fun _ => none) origin (reflected 290) =
      some (String.ofList (List.replicate 290 'x' ++ "https://ap".toList)) := by
  have hoccurs := occursAt_reflected 290
  rw [← errorText_reflected (by decide)] at hoccurs
  have hbeyond : ∀ i, OccursAt (errorText (knowing "" .null fun _ => none) (reflected 290)) origin i →
      detailLimit < i + origin.length := by
    intro i hi
    rw [errorText_reflected (by decide)] at hi
    have hle := le_of_occursAt_reflected hi
    have hlength : origin.length = 23 := by decide
    rw [hlength,detailLimit]
    omega
  refine ⟨contains_iff.mpr ⟨290,hoccurs⟩,?_⟩
  rw [extractErrorDetail_eq_some (by decide) hoccurs hbeyond,errorText_reflected (by decide),takeChars,
    String.toList_ofList,detailLimit,List.take_append,List.length_replicate,List.take_replicate]
  have hcut : origin.toList.take (300 - 290) = "https://ap".toList := by decide
  rw [hcut,Nat.min_eq_right (by decide)]

end MitraRestClient
end Saarathi
