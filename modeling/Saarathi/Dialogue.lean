import Mathlib.Data.List.TakeWhile
import Mathlib.Tactic.Common

/-!
# Calls and their answers in a list of messages

Some messages make calls and some answer one. A list is answered where the calls
of each message that makes any are answered, one by one and in order, before the
next message that may make calls.
-/

namespace Saarathi
namespace Dialogue

variable {M I : Type} {asks : M → Option (List I)} {answers : M → Option I} {ms rs : List M} {m : M}

/-- What is answered before the next message that may make calls. -/
def replies (asks : M → Option (List I)) (answers : M → Option I) (ms : List M) : List I :=
  (ms.takeWhile fun m => (asks m).isNone).filterMap answers

/-- Nothing is answered before the first message that may make calls, and after each one exactly
its own calls are. -/
structure Answered (asks : M → Option (List I)) (answers : M → Option I) (ms : List M) : Prop where
  unasked : replies asks answers ms = []
  asked : ∀ pre m post calls, ms = pre ++ m :: post → asks m = some calls → replies asks answers post = calls

@[simp] theorem replies_nil : replies asks answers [] = [] := rfl

theorem replies_of_quiet (h : ∀ m ∈ ms, asks m = none) : replies asks answers ms = ms.filterMap answers := by
  rw [replies,List.takeWhile_eq_self_iff.mpr fun m hm => by rw [h m hm,Option.isNone_none]]

theorem replies_append_asking {calls : List I} (h : asks m = some calls) :
    replies asks answers (ms ++ m :: rs) = replies asks answers ms := by
  unfold replies
  induction ms with
  | nil => simp [h]
  | cons m' ms ih =>
    rcases hm : asks m' with _ | calls'
    · rcases ha : answers m' with _ | i
      · simpa [hm,ha] using ih
      · simpa [hm,ha] using ih
    · simp [hm]

theorem replies_append_quiet (h : ∀ m ∈ rs, asks m = none) (ha : ∀ m ∈ rs, answers m = none) :
    replies asks answers (ms ++ rs) = replies asks answers ms := by
  have hnone : rs.filterMap answers = [] := List.filterMap_eq_nil_iff.mpr ha
  induction ms with
  | nil => rw [List.nil_append,replies_of_quiet h,hnone,replies_nil]
  | cons m ms ih =>
    unfold replies at ih ⊢
    rcases hm : asks m with _ | calls
    · rcases han : answers m with _ | i
      · simpa [hm,han] using ih
      · simpa [hm,han] using ih
    · simp [hm]

namespace Answered

theorem nil : Answered asks answers [] where
  unasked := rfl
  asked pre m post calls h := by simp at h

/-- Messages that neither make calls nor answer any. -/
theorem append_quiet (h : Answered asks answers ms) (hq : ∀ m ∈ rs, asks m = none)
    (ha : ∀ m ∈ rs, answers m = none) : Answered asks answers (ms ++ rs) where
  unasked := (replies_append_quiet hq ha).trans h.unasked
  asked pre m post calls hsplit hm := by
    rcases List.append_eq_append_iff.mp hsplit with ⟨mid,-,hrs⟩ | ⟨mid,rfl,hmid⟩
    · have hmem : m ∈ rs := hrs ▸ List.mem_append_right mid List.mem_cons_self
      rw [hq m hmem] at hm
      cases hm
    · cases mid with
      | nil =>
        have hmem : m ∈ rs := by
          rw [List.nil_append] at hmid
          exact hmid ▸ List.mem_cons_self
        rw [hq m hmem] at hm
        cases hm
      | cons m' mid =>
        obtain ⟨rfl,rfl⟩ := List.cons.inj (hmid.trans (List.cons_append ..))
        rw [replies_append_quiet hq ha]
        exact h.asked pre m mid calls (by simp) hm

/-- A message that makes calls, and its answers. -/
theorem append_asking {calls : List I} (h : Answered asks answers ms) (hm : asks m = some calls)
    (hq : ∀ r ∈ rs, asks r = none) (hr : rs.filterMap answers = calls) :
    Answered asks answers (ms ++ m :: rs) where
  unasked := (replies_append_asking hm).trans h.unasked
  asked pre m' post calls' hsplit hm' := by
    rcases List.append_eq_append_iff.mp hsplit with ⟨mid,-,hrs⟩ | ⟨mid,rfl,hmid⟩
    · cases mid with
      | nil =>
        obtain ⟨rfl,rfl⟩ := List.cons.inj hrs
        rw [replies_of_quiet hq,hr]
        exact Option.some.inj (hm.symm.trans hm')
      | cons m₂ mid =>
        obtain ⟨-,hrest⟩ := List.cons.inj (hrs.trans (List.cons_append ..))
        have hmem : m' ∈ rs := hrest ▸ List.mem_append_right mid List.mem_cons_self
        rw [hq m' hmem] at hm'
        cases hm'
    · cases mid with
      | nil =>
        obtain ⟨rfl,rfl⟩ := List.cons.inj hmid
        rw [replies_of_quiet hq,hr]
        exact Option.some.inj (hm.symm.trans hm')
      | cons m₂ mid =>
        obtain ⟨rfl,rfl⟩ := List.cons.inj (hmid.trans (List.cons_append ..))
        rw [replies_append_asking hm]
        exact h.asked pre m' mid calls' (by simp) hm'

end Answered

end Dialogue
end Saarathi
