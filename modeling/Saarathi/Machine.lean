import Mathlib.Tactic.Common

/-!
# Machines and their runs

A machine takes actions, each of which may be disabled. A condition on the
actions selects the runs that are considered.
-/

namespace Saarathi
namespace Machine

variable {S A : Type}

/-- The states reached by actions that each meet the condition `ok` where they are taken. -/
inductive Reach (step : S → A → Option S) (ok : S → A → Prop) (s₀ : S) : S → Prop
  | refl : Reach step ok s₀ s₀
  | next {s s' a} (h : Reach step ok s₀ s) (hok : ok s a) (hs : step s a = some s') :
      Reach step ok s₀ s'

/-- Every action is considered. -/
def anyAct : S → A → Prop := fun _ _ => True

instance (s : S) (a : A) : Decidable (anyAct s a) := isTrue trivial

variable {step : S → A → Option S} {ok ok' : S → A → Prop} {s₀ s₁ s₂ s : S}

theorem Reach.mono (h : Reach step ok s₀ s) (hok : ∀ s a, ok s a → ok' s a) :
    Reach step ok' s₀ s := by
  induction h with
  | refl => exact .refl
  | next _ hok' hs ih => exact ih.next (hok _ _ hok') hs

theorem Reach.trans (h₁ : Reach step ok s₀ s₁) (h₂ : Reach step ok s₁ s₂) :
    Reach step ok s₀ s₂ := by
  induction h₂ with
  | refl => exact h₁
  | next _ hok hs ih => exact ih.next hok hs

/-- An assertion that every considered action keeps holds in every state reached. -/
theorem Reach.invariant {Inv : S → Prop} (h : Reach step ok s₀ s) (h₀ : Inv s₀)
    (hstep : ∀ s a s', Inv s → ok s a → step s a = some s' → Inv s') : Inv s := by
  induction h with
  | refl => exact h₀
  | next _ hok hs ih => exact hstep _ _ _ ih hok hs

/-- What every considered action keeps may be assumed of the states where actions are taken. -/
theorem Reach.with_invariant {Inv : S → Prop} (h : Reach step ok s₀ s) (h₀ : Inv s₀)
    (hstep : ∀ s a s', Inv s → ok s a → step s a = some s' → Inv s') :
    Reach step (fun s a => ok s a ∧ Inv s) s₀ s := by
  induction h with
  | refl => exact .refl
  | next h hok hs ih => exact ih.next ⟨hok,h.invariant h₀ hstep⟩ hs

/-- Take a list of actions, each of which must meet the condition and be enabled. -/
def run (step : S → A → Option S) (ok : S → A → Prop) [∀ s a, Decidable (ok s a)] :
    S → List A → Option S
  | s, [] => some s
  | s, a :: as => if ok s a then match step s a with
      | some s' => run step ok s' as
      | none => none
    else none

section Run

variable [∀ s a, Decidable (ok s a)]

theorem reach_of_run {as : List A} (h : run step ok s₀ as = some s) : Reach step ok s₀ s := by
  induction as generalizing s₀ with
  | nil =>
    obtain rfl : s₀ = s := by simpa [run] using h
    exact .refl
  | cons a as ih =>
    rw [run] at h
    split at h
    · rename_i hok
      split at h
      · rename_i s₁ hs
        have h₁ : Reach step ok s₀ s₁ := Reach.refl.next hok hs
        exact h₁.trans (ih h)
      · cases h
    · cases h

/-- A run whose last state passes a test reaches a state that passes it. -/
theorem exists_reach_of_run {as : List A} {P : S → Bool}
    (h : (run step ok s₀ as).any P = true) : ∃ s, Reach step ok s₀ s ∧ P s = true := by
  cases hr : run step ok s₀ as with
  | none => simp [hr] at h
  | some s => exact ⟨s,reach_of_run hr,by simpa [hr] using h⟩

end Run

end Machine
end Saarathi
