import Saarathi.Anchoring
import Saarathi.Text

/-!
# Reconciling a lost turn

What Mitra's own record says about a text whose reply was not heard.
-/

namespace Saarathi

inductive TurnOutcome where
  | answered
  | pending
  | notDelivered
  deriving DecidableEq, Repr

/-- One normalised row of Mitra's transcript. -/
structure ChatRow where
  id : ℕ
  fromUser : Bool
  message : String
  translatedMessage : String := ""
  stage : String := ""

/-- The row carries the text, in the original or in translation. -/
def ChatRow.matches (r : ChatRow) (text : String) : Bool :=
  let needle := Text.strip text
  if needle = "" then false
  else needle == Text.strip r.message || needle == Text.strip r.translatedMessage

structure Reconciliation where
  outcome : TurnOutcome
  botText : String := ""
  stage : String := ""
  lastRowId : Option ℕ := none

/-- The index of the last user row that matches. -/
def lastMatch (rows : List ChatRow) (text : String) : Option ℕ :=
  (List.range rows.length).reverse.find? fun i =>
    (rows[i]?).any fun r => r.fromUser && r.matches text

/-- The fate of `sentText`, from the tail of Mitra's transcript in chronological order. -/
def reconcile (rows : List ChatRow) (sentText : String) : Reconciliation :=
  match lastMatch rows sentText with
  | none => { outcome := .notDelivered, lastRowId := rows.getLast?.map (·.id) }
  | some i => match (rows.drop (i + 1)).find? fun r => !r.fromUser with
    | some r => { outcome := .answered, botText := Text.strip r.message, stage := r.stage,
                  lastRowId := some r.id }
    | none => { outcome := .pending, lastRowId := rows.getLast?.map (·.id) }

/-- The bot row that answers the text: the first one after the last user row that carries it. -/
def answering (text : String) : List ChatRow → Option ChatRow
  | [] => none
  | r :: rows =>
    if rows.any fun r => r.fromUser && r.matches text then answering text rows
    else if r.fromUser && r.matches text then rows.find? fun r => !r.fromUser
    else none

section Answering

variable {rows : List ChatRow} {text : String}

theorem lastMatch_cons (r : ChatRow) : lastMatch (r :: rows) text = match lastMatch rows text with
    | some i => some (i + 1)
    | none => if r.fromUser && r.matches text then some 0 else none :=
  Anchoring.lastIndex_cons (p := fun r : ChatRow => r.fromUser && r.matches text)

theorem lastMatch_isSome : (lastMatch rows text).isSome = rows.any fun r => r.fromUser && r.matches text :=
  Anchoring.lastIndex_isSome (p := fun r : ChatRow => r.fromUser && r.matches text)

theorem answering_eq : answering text rows =
    (lastMatch rows text).bind fun i => (rows.drop (i + 1)).find? fun r => !r.fromUser := by
  induction rows with
  | nil => rfl
  | cons r rows ih =>
    rw [answering,lastMatch_cons,← lastMatch_isSome,ih]
    cases lastMatch rows text with
    | some i => rfl
    | none => cases r.fromUser && r.matches text <;> rfl

/-- A text that is answered is answered with the row's own message. -/
theorem reconcile_of_answering {r : ChatRow} (h : answering text rows = some r) : reconcile rows text =
    { outcome := .answered, botText := Text.strip r.message, stage := r.stage, lastRowId := some r.id } := by
  rw [answering_eq] at h
  unfold reconcile
  cases hi : lastMatch rows text with
  | none => simp [hi] at h
  | some i =>
    have hfind : (rows.drop (i + 1)).find? (fun r => !r.fromUser) = some r := by simpa [hi] using h
    simp only [hfind]

theorem not_answered_of_answering (h : answering text rows = none) : (reconcile rows text).outcome ≠ .answered := by
  rw [answering_eq] at h
  unfold reconcile
  cases hi : lastMatch rows text with
  | none => simp
  | some i =>
    have hfind : (rows.drop (i + 1)).find? (fun r => !r.fromUser) = none := by simpa [hi] using h
    simp [hfind]

end Answering

section Exact

variable (rows : List ChatRow) (text : String)

/-- The row at `i` is the last user row that matches. -/
def LastCarrying (i : ℕ) : Prop :=
  (∃ r, rows[i]? = some r ∧ r.fromUser = true ∧ r.matches text = true) ∧
    ∀ k r, i < k → rows[k]? = some r → r.fromUser = true → r.matches text = false

/-- `r` is the first bot row after the row at `i`. -/
def FirstReply (i : ℕ) (r : ChatRow) : Prop :=
  ∃ j, i < j ∧ rows[j]? = some r ∧ r.fromUser = false ∧
    ∀ k s, i < k → k < j → rows[k]? = some s → s.fromUser = true

variable {rows text}

theorem lastCarrying_zero {r : ChatRow} : LastCarrying (r :: rows) text 0 ↔
    (r.fromUser = true ∧ r.matches text = true) ∧ (rows.any fun r => r.fromUser && r.matches text) = false := by
  constructor
  · rintro ⟨⟨s,hs,hu,hm⟩,hlast⟩
    obtain rfl : r = s := by simpa using hs
    refine ⟨⟨hu,hm⟩,?_⟩
    rw [List.any_eq_false]
    intro t ht hcarries
    obtain ⟨k,hk⟩ := List.mem_iff_getElem?.mp ht
    simp only [Bool.and_eq_true] at hcarries
    have hf : t.matches text = false := hlast (k + 1) t (by omega) (by simpa using hk) hcarries.1
    simp [hf] at hcarries
  · rintro ⟨⟨hu,hm⟩,hnone⟩
    refine ⟨⟨r,rfl,hu,hm⟩,?_⟩
    intro k s hk hs hsu
    obtain ⟨k,rfl⟩ : ∃ k', k = k' + 1 := ⟨k - 1,by omega⟩
    have hmem : s ∈ rows := List.mem_iff_getElem?.mpr ⟨k,by simpa using hs⟩
    simpa [hsu] using List.any_eq_false.mp hnone s hmem

theorem lastCarrying_succ {r : ChatRow} {i : ℕ} :
    LastCarrying (r :: rows) text (i + 1) ↔ LastCarrying rows text i := by
  constructor
  · rintro ⟨hi,hlast⟩
    refine ⟨by simpa using hi,?_⟩
    intro k s hk hs
    exact hlast (k + 1) s (by omega) (by simpa using hs)
  · rintro ⟨hi,hlast⟩
    refine ⟨by simpa using hi,?_⟩
    intro k s hk hs
    obtain ⟨k,rfl⟩ : ∃ k', k = k' + 1 := ⟨k - 1,by omega⟩
    exact hlast k s (by omega) (by simpa using hs)

/-- The backward scan stops at the last user row that matches. -/
theorem lastMatch_eq_some_iff {i : ℕ} : lastMatch rows text = some i ↔ LastCarrying rows text i := by
  induction rows generalizing i with
  | nil => simp [lastMatch,LastCarrying]
  | cons r rows ih =>
    have hany : (lastMatch rows text).isSome = rows.any fun r => r.fromUser && r.matches text := lastMatch_isSome
    rw [lastMatch_cons]
    cases hl : lastMatch rows text with
    | some n =>
      have hn : (rows.any fun r => r.fromUser && r.matches text) = true := by rw [← hany,hl,Option.isSome_some]
      cases i with
      | zero => simp [lastCarrying_zero,hn]
      | succ i =>
        rw [lastCarrying_succ,← ih,hl]
        simp
    | none =>
      have hn : (rows.any fun r => r.fromUser && r.matches text) = false := by rw [← hany,hl,Option.isSome_none]
      cases i with
      | zero => simp only [lastCarrying_zero,hn,and_true,ite_eq_left_iff,Bool.and_eq_true,reduceCtorEq,imp_false,not_not]
      | succ i =>
        rw [lastCarrying_succ,← ih,hl]
        simp

/-- The forward scan stops at the first bot row after it. -/
theorem find?_drop_eq_some_iff {i : ℕ} {r : ChatRow} :
    (rows.drop (i + 1)).find? (fun r => !r.fromUser) = some r ↔ FirstReply rows i r := by
  rw [List.find?_eq_some_iff_getElem]
  constructor
  · rintro ⟨hr,n,hn,hget,hbefore⟩
    have hr' : r.fromUser = false := by simpa using hr
    have hget' : rows[i + 1 + n]? = some r := by
      rw [← List.getElem?_drop,← hget]
      exact List.getElem?_eq_getElem hn
    refine ⟨i + 1 + n,by omega,hget',hr',?_⟩
    intro k s hik hk hs
    have hkn : k - (i + 1) < n := by omega
    have hk' : (rows.drop (i + 1))[k - (i + 1)]? = some s := by
      rw [List.getElem?_drop,← hs]
      congr 1
      omega
    obtain ⟨hlen,hs'⟩ := List.getElem?_eq_some_iff.mp hk'
    simpa [hs'] using hbefore (k - (i + 1)) hkn
  · rintro ⟨j,hij,hj,hr,hbefore⟩
    have hget : (rows.drop (i + 1))[j - (i + 1)]? = some r := by
      rw [List.getElem?_drop,← hj]
      congr 1
      omega
    obtain ⟨hlt,hget⟩ := List.getElem?_eq_some_iff.mp hget
    refine ⟨by simpa using hr,j - (i + 1),hlt,hget,?_⟩
    intro k hk
    have hs := hbefore (i + 1 + k) _ (by omega) (by omega) (List.getElem?_drop ▸ List.getElem?_eq_getElem (by omega))
    simpa using hs

theorem outcome_eq : (reconcile rows text).outcome = match lastMatch rows text with
    | none => .notDelivered
    | some i => match (rows.drop (i + 1)).find? fun r => !r.fromUser with
      | some _ => .answered
      | none => .pending := by
  unfold reconcile
  cases lastMatch rows text with
  | none => rfl
  | some i =>
    cases hf : (rows.drop (i + 1)).find? fun r => !r.fromUser <;> simp only [hf]

theorem outcome_answered_iff : (reconcile rows text).outcome = .answered ↔
    ∃ i, LastCarrying rows text i ∧ ∃ r, FirstReply rows i r := by
  simp only [← lastMatch_eq_some_iff,← find?_drop_eq_some_iff,outcome_eq]
  cases lastMatch rows text with
  | none => simp
  | some i =>
    cases hf : (rows.drop (i + 1)).find? fun r => !r.fromUser <;> simp [hf]

/-- No bot row follows the row at `i`. -/
theorem no_reply_iff {i : ℕ} : (¬ ∃ r, FirstReply rows i r) ↔
    ∀ j r, i < j → rows[j]? = some r → r.fromUser = true := by
  simp only [← find?_drop_eq_some_iff,← Option.isSome_iff_exists,Bool.not_eq_true,Option.isSome_eq_false_iff,
    Option.isNone_iff_eq_none,List.find?_eq_none]
  constructor
  · intro h j r hij hj
    have hmem : r ∈ rows.drop (i + 1) := by
      refine List.mem_iff_getElem?.mpr ⟨j - (i + 1),?_⟩
      rw [List.getElem?_drop,← hj]
      congr 1
      omega
    simpa using h r hmem
  · intro h r hmem
    obtain ⟨k,hk⟩ := List.mem_iff_getElem?.mp hmem
    rw [List.getElem?_drop] at hk
    simpa using h (i + 1 + k) r (by omega) hk

theorem outcome_pending_iff : (reconcile rows text).outcome = .pending ↔
    ∃ i, LastCarrying rows text i ∧ ∀ j r, i < j → rows[j]? = some r → r.fromUser = true := by
  simp only [← no_reply_iff,← lastMatch_eq_some_iff,← find?_drop_eq_some_iff,outcome_eq]
  cases lastMatch rows text with
  | none => simp
  | some i =>
    cases hf : (rows.drop (i + 1)).find? fun r => !r.fromUser <;> simp [hf]

theorem outcome_notDelivered_iff : (reconcile rows text).outcome = .notDelivered ↔
    ∀ r ∈ rows, r.fromUser = true → r.matches text = false := by
  have hnone : (reconcile rows text).outcome = .notDelivered ↔ lastMatch rows text = none := by
    rw [outcome_eq]
    cases lastMatch rows text with
    | none => simp
    | some i =>
      cases hf : (rows.drop (i + 1)).find? fun r => !r.fromUser <;> simp [hf]
  rw [hnone,← Option.isNone_iff_eq_none,← Option.isSome_eq_false_iff,lastMatch_isSome]
  simp

theorem lastRowId_of_not_answered (h : (reconcile rows text).outcome ≠ .answered) :
    (reconcile rows text).lastRowId = rows.getLast?.map (·.id) := by
  unfold reconcile at h ⊢
  cases hi : lastMatch rows text with
  | none => rfl
  | some i =>
    cases hf : (rows.drop (i + 1)).find? fun r => !r.fromUser with
    | none => simp only [hf]
    | some r => simp [hi,hf] at h

theorem reconcile_of_reply {i : ℕ} {r : ChatRow} (hi : LastCarrying rows text i) (hr : FirstReply rows i r) :
    reconcile rows text =
      { outcome := .answered, botText := Text.strip r.message, stage := r.stage, lastRowId := some r.id } := by
  rw [← lastMatch_eq_some_iff] at hi
  rw [← find?_drop_eq_some_iff] at hr
  exact reconcile_of_answering (by rw [answering_eq,hi,Option.bind_some,hr])

theorem not_matches_of_blank (h : Text.strip text = "") (r : ChatRow) : r.matches text = false := by
  simp [ChatRow.matches,h]

/-- What the reconciliation says, in terms of the positions of the rows: the last user row that
matches, and the first bot row after it. -/
theorem reconcile_exact (rows : List ChatRow) (text : String) :
    ((reconcile rows text).outcome = .answered ↔ ∃ i, LastCarrying rows text i ∧ ∃ r, FirstReply rows i r) ∧
    (∀ i r, LastCarrying rows text i → FirstReply rows i r → reconcile rows text =
      { outcome := .answered, botText := Text.strip r.message, stage := r.stage, lastRowId := some r.id }) ∧
    ((reconcile rows text).outcome = .pending ↔
      ∃ i, LastCarrying rows text i ∧ ∀ j r, i < j → rows[j]? = some r → r.fromUser = true) ∧
    ((reconcile rows text).outcome = .notDelivered ↔
      ∀ r ∈ rows, r.fromUser = true → r.matches text = false) ∧
    ((reconcile rows text).outcome ≠ .answered →
      (reconcile rows text).lastRowId = rows.getLast?.map (·.id)) ∧
    (Text.strip text = "" → ∀ r : ChatRow, r.matches text = false) :=
  ⟨outcome_answered_iff,fun _ _ => reconcile_of_reply,outcome_pending_iff,outcome_notDelivered_iff,
    lastRowId_of_not_answered,not_matches_of_blank⟩

end Exact

end Saarathi
