import Mathlib.Data.List.Basic
import Mathlib.Tactic.Common

/-!
# Scanners

Scanners that take a word off the front of a text, and what does not change when
the text goes on with something that no word of theirs has.
-/

namespace Saarathi

/-- The word at the front of a text, and the rest of it. -/
abbrev Scanner (α : Type) := List α → Option (List α × List α)

namespace Scanner

variable {α : Type} {p : α → Bool} {s t : Scanner α}

/-- One character. -/
def one (p : α → Bool) : Scanner α
  | c :: cs => if p c then some ([c],cs) else none
  | [] => none

/-- A run of characters that is not empty. -/
def run (p : α → Bool) : Scanner α := fun cs =>
  if cs.takeWhile p = [] then none else some (cs.takeWhile p,cs.dropWhile p)

/-- A word of `s`, or none. -/
def opt (s : Scanner α) : Scanner α := fun cs => (s cs).or (some ([],cs))

def either (s t : Scanner α) : Scanner α := fun cs => (s cs).or (t cs)

/-- A word of `s` and one of `t`. -/
def seq (s t : Scanner α) : Scanner α := fun cs =>
  (s cs).bind fun w => (t w.2).map fun w' => (w.1 ++ w'.1,w'.2)

/-- The text has no character of the kind at its front. -/
def Stops (p : α → Bool) (rest : List α) : Prop := ∀ c ∈ rest.head?, p c = false

/-- Before a text that stops it, the scanner finds what it finds at the end of a text. -/
def Local (p : α → Bool) (s : Scanner α) : Prop :=
  ∀ cs rest, Stops p rest → s (cs ++ rest) = (s cs).map fun w => (w.1,w.2 ++ rest)

@[simp] theorem stops_nil : Stops p [] := nofun

@[simp] theorem stops_cons {c : α} {cs : List α} : Stops p (c :: cs) ↔ p c = false := by simp [Stops]

theorem Stops.of_imp {q : α → Bool} {c : α} {cs : List α} (hq : ∀ c, q c → p c) (h : Stops p (c :: cs)) : q c = false := by
  by_contra hc
  have hp := hq c (by simpa using hc)
  rw [stops_cons.mp h] at hp
  cases hp

theorem takeWhile_append {q : α → Bool} {rest : List α} (hq : ∀ c, q c → p c) (h : Stops p rest) (cs : List α) :
    (cs ++ rest).takeWhile q = cs.takeWhile q ∧ (cs ++ rest).dropWhile q = cs.dropWhile q ++ rest := by
  induction cs with
  | nil =>
    cases rest with
    | nil => simp
    | cons c rest => simp [h.of_imp hq]
  | cons c cs ih =>
    cases hc : q c with
    | true => simp [hc,ih]
    | false => simp [hc]

theorem Local.one {q : α → Bool} (hq : ∀ c, q c → p c) : Local p (Scanner.one q) := by
  intro cs rest h
  cases cs with
  | cons c cs =>
    by_cases hc : q c
    · simp [Scanner.one,hc]
    · simp [Scanner.one,hc]
  | nil =>
    cases rest with
    | nil => rfl
    | cons c rest => simp [Scanner.one,h.of_imp hq]

theorem Local.run {q : α → Bool} (hq : ∀ c, q c → p c) : Local p (Scanner.run q) := by
  intro cs rest h
  obtain ⟨htake,hdrop⟩ := takeWhile_append hq h cs
  rw [Scanner.run,Scanner.run,htake,hdrop]
  split <;> rfl

theorem Local.either (hs : Local p s) (ht : Local p t) : Local p (Scanner.either s t) := by
  intro cs rest h
  rw [Scanner.either,Scanner.either,hs cs rest h,ht cs rest h]
  cases s cs <;> rfl

theorem Local.opt (hs : Local p s) : Local p (Scanner.opt s) := by
  intro cs rest h
  rw [Scanner.opt,Scanner.opt,hs cs rest h]
  cases s cs <;> rfl

theorem Local.seq (hs : Local p s) (ht : Local p t) : Local p (Scanner.seq s t) := by
  intro cs rest h
  rw [Scanner.seq,Scanner.seq,hs cs rest h]
  cases s cs with
  | none => rfl
  | some w =>
    simp only [Option.map_some,Option.bind_some]
    rw [ht w.2 rest h]
    cases t w.2 <;> rfl

end Scanner
end Saarathi
