import Mathlib.Data.List.Basic
import Mathlib.Tactic.Common

/-!
# Histories

A state machine that keeps a journal, whose replay gives the state back; and
requests that leave no trace in what a projection shows, which can be left out of
a history.
-/

namespace Saarathi
namespace Histories

/-- Requests of `A` change the state and add entries to a journal; an entry can be played on a view of
the state, unless it does not fit there. -/
structure Journal (S A E T : Type) where
  step : S → A → S × List E
  view : S → T
  play : T → E → Option T

namespace Journal

variable {S A E T : Type} (j : Journal S A E T)

/-- The state after a history, and what the journal has kept of it. -/
def run : S → List A → S × List E
  | s,[] => (s,[])
  | s,a :: as => ((run (j.step s a).1 as).1,(j.step s a).2 ++ (run (j.step s a).1 as).2)

/-- Play a journal. -/
def replay : T → List E → Option T
  | t,[] => some t
  | t,e :: es => (j.play t e).bind fun t' => replay t' es

/-- What one request adds, played, is what it does to the view. -/
def Faithful (Inv : S → Prop) : Prop :=
  ∀ s a, Inv s → Inv (j.step s a).1 ∧ j.replay (j.view s) (j.step s a).2 = some (j.view (j.step s a).1)

variable {j} {Inv : S → Prop}

theorem replay_singleton (t : T) (e : E) : j.replay t [e] = j.play t e := Option.bind_fun_some _

theorem replay_append (t : T) (es es' : List E) :
    j.replay t (es ++ es') = (j.replay t es).bind fun t' => j.replay t' es' := by
  induction es generalizing t with
  | nil => rfl
  | cons e es ih =>
    rw [List.cons_append,replay,replay,Option.bind_assoc]
    exact congrArg _ (funext fun t' => ih t')

theorem Faithful.inv (h : j.Faithful Inv) {s : S} (hs : Inv s) (as : List A) : Inv (j.run s as).1 := by
  induction as generalizing s with
  | nil => exact hs
  | cons a as ih => exact ih (h s a hs).1

/-- The journal of a whole history gives its outcome. -/
theorem Faithful.replay (h : j.Faithful Inv) {s : S} (hs : Inv s) (as : List A) :
    j.replay (j.view s) (j.run s as).2 = some (j.view (j.run s as).1) := by
  induction as generalizing s with
  | nil => rfl
  | cons a as ih =>
    obtain ⟨hinv,hone⟩ := h s a hs
    rw [run,replay_append,hone,Option.bind_some]
    exact ih hinv

end Journal

section Purge

variable {S A : Type} {step : S → A → S} {erase : S → S} {mine : A → Bool} (ok : S → List A → Prop)

/-- A history is shown as if the requests that leave no trace had never been made. -/
theorem erase_after (hok : ∀ s a as, ok s (a :: as) → ok (step s a) as)
    (hmine : ∀ s a as, ok s (a :: as) → mine a = true → erase (step s a) = erase s)
    (hother : ∀ s a as, ok s (a :: as) → mine a = false → erase (step s a) = step (erase s) a)
    {s : S} {as : List A} (h : ok s as) :
    erase (as.foldl step s) = (as.filter fun a => !mine a).foldl step (erase s) := by
  induction as generalizing s with
  | nil => rfl
  | cons a as ih =>
    rw [List.foldl_cons,ih (hok s a as h)]
    cases ha : mine a with
    | true => rw [hmine s a as h ha,List.filter_cons_of_neg (by simp [ha])]
    | false => rw [hother s a as h ha,List.filter_cons_of_pos (by simp [ha]),List.foldl_cons]

end Purge

end Histories
end Saarathi
