import Mathlib.Data.Rat.Defs
import Mathlib.Algebra.Order.Ring.Rat
import Mathlib.Tactic.Common

/-!
# Floats

The values of a Python float and their comparison, in which a NaN is neither
above nor below anything.
-/

namespace Saarathi

inductive PyFloat where
  | nan
  | infinite (negative : Bool)
  | finite (q : ℚ)
  deriving DecidableEq

namespace PyFloat

instance : Coe ℚ PyFloat := ⟨finite⟩

instance (n : ℕ) : OfNat PyFloat n := ⟨finite n⟩

/-- `a <= b`. -/
def le : PyFloat → PyFloat → Bool
  | nan,_ => false
  | _,nan => false
  | infinite negative,infinite negative' => negative || !negative'
  | infinite negative,finite _ => negative
  | finite _,infinite negative => !negative
  | finite p,finite q => p ≤ q

instance : LE PyFloat := ⟨fun a b => le a b = true⟩

instance (a b : PyFloat) : Decidable (a ≤ b) := inferInstanceAs (Decidable (le a b = true))

@[simp] theorem finite_le_finite {p q : ℚ} : finite p ≤ finite q ↔ p ≤ q := decide_eq_true_iff

/-- What is at least `q` is at least everything below `q`. -/
theorem finite_le_of_le {p q : ℚ} {a : PyFloat} (hpq : p ≤ q) (h : finite q ≤ a) : finite p ≤ a := by
  cases a with
  | nan => cases h
  | infinite negative => exact h
  | finite r => exact finite_le_finite.mpr (hpq.trans (finite_le_finite.mp h))

end PyFloat
end Saarathi
