import Mathlib.Tactic.Common

/-!
# Programs over a signature of operations

A program is a tree of calls. Each call may answer with a value or raise, and
the rest of the program is a function of that outcome, so `try`, `finally` and
early exits are ordinary continuations. The weakest precondition is taken
relative to a specification of the operations and to a relation that says what
the environment may do between two calls.
-/

namespace Saarathi
namespace Program

/-- A program that calls operations in `ι`, answered in `ρ`, raising `ε`. -/
inductive Prog (ι : Type) (ρ : ι → Type) (ε α : Type) where
  | done (a : α)
  | fail (e : ε)
  | call (o : ι) (k : Except ε (ρ o) → Prog ι ρ ε α)

variable {ι : Type} {ρ : ι → Type} {ε α β : Type}

namespace Prog

def bind : Prog ι ρ ε α → (α → Prog ι ρ ε β) → Prog ι ρ ε β
  | done a, f => f a
  | fail e, _ => fail e
  | call o k, f => call o fun r => (k r).bind f

/-- `except`: the handler runs on the exception and may raise again. -/
def catching : Prog ι ρ ε α → (ε → Prog ι ρ ε α) → Prog ι ρ ε α
  | done a, _ => done a
  | fail e, h => h e
  | call o k, h => call o fun r => (k r).catching h

/-- The outcome of a program, as a value. -/
def attempt : Prog ι ρ ε α → Prog ι ρ ε (Except ε α)
  | done a => done (.ok a)
  | fail e => done (.error e)
  | call o k => call o fun r => (k r).attempt

/-- Continue with an outcome that is already known. -/
def settle : Except ε α → Prog ι ρ ε α
  | .ok a => done a
  | .error e => fail e

/-- Call one operation and answer with what it answers. -/
def perform (o : ι) : Prog ι ρ ε (ρ o) := call o settle

instance : Monad (Prog ι ρ ε) where
  pure := done
  bind := bind

instance : MonadExceptOf ε (Prog ι ρ ε) where
  throw := fail
  tryCatch := catching

/-- `finally`: `fin` runs whatever `p` did, and its own exception wins. -/
def ensuring (p : Prog ι ρ ε α) (fin : Prog ι ρ ε Unit) : Prog ι ρ ε α := do
  let r ← p.attempt
  fin
  settle r

end Prog

open Prog

/-- What each operation needs, what it answers and does to the state, and what the
environment may do to the state in between. -/
structure Spec (ι : Type) (ρ : ι → Type) (ε L : Type) where
  pre : ι → L → Prop
  post : (o : ι) → L → Except ε (ρ o) → L → Prop
  rely : L → L → Prop := Eq

variable {L : Type}

/-- From `l`, every call of the program meets its precondition and the outcome meets `Q`. -/
def wp (S : Spec ι ρ ε L) : Prog ι ρ ε α → (Except ε α → L → Prop) → L → Prop
  | done a, Q, l => Q (.ok a) l
  | fail e, Q, l => Q (.error e) l
  | call o k, Q, l => ∀ l₁, S.rely l l₁ →
      S.pre o l₁ ∧ ∀ r l₂, S.post o l₁ r l₂ → wp S (k r) Q l₂

section WP

variable (S : Spec ι ρ ε L)

@[simp] theorem wp_done (a : α) (Q : Except ε α → L → Prop) (l : L) :
    wp S (done a) Q l ↔ Q (.ok a) l := Iff.rfl
@[simp] theorem wp_pure (a : α) (Q : Except ε α → L → Prop) (l : L) :
    wp S (pure a) Q l ↔ Q (.ok a) l := Iff.rfl
@[simp] theorem wp_fail (e : ε) (Q : Except ε α → L → Prop) (l : L) :
    wp S (fail e) Q l ↔ Q (.error e) l := Iff.rfl
@[simp] theorem wp_throw (e : ε) (Q : Except ε α → L → Prop) (l : L) :
    wp S (throw e) Q l ↔ Q (.error e) l := Iff.rfl
@[simp] theorem wp_settle (r : Except ε α) (Q : Except ε α → L → Prop) (l : L) :
    wp S (settle r) Q l ↔ Q r l := by cases r <;> rfl

variable {S}

theorem wp_mono {p : Prog ι ρ ε α} {Q Q' : Except ε α → L → Prop} {l : L}
    (h : wp S p Q l) (hQ : ∀ r l', Q r l' → Q' r l') : wp S p Q' l := by
  induction p generalizing l with
  | done a => exact hQ _ _ h
  | fail e => exact hQ _ _ h
  | call o k ih =>
    intro l₁ hl
    obtain ⟨hpre,hk⟩ := h l₁ hl
    exact ⟨hpre,fun r l₂ hpost => ih r (hk r l₂ hpost)⟩

theorem wp_and {p : Prog ι ρ ε α} {Q Q' : Except ε α → L → Prop} {l : L} (h : wp S p Q l)
    (h' : wp S p Q' l) : wp S p (fun r l' => Q r l' ∧ Q' r l') l := by
  induction p generalizing l with
  | done a => exact ⟨h,h'⟩
  | fail e => exact ⟨h,h'⟩
  | call o k ih =>
    intro l₁ hl
    obtain ⟨hpre,hk⟩ := h l₁ hl
    exact ⟨hpre,fun r l₂ hpost => ih r (hk r l₂ hpost) ((h' l₁ hl).2 r l₂ hpost)⟩

theorem wp_bind {p : Prog ι ρ ε α} {f : α → Prog ι ρ ε β} {Q : Except ε β → L → Prop} {l : L} :
    wp S (p >>= f) Q l ↔ wp S p (fun r l' => match r with
      | .ok a => wp S (f a) Q l'
      | .error e => Q (.error e) l') l := by
  change wp S (p.bind f) Q l ↔ _
  induction p generalizing l with
  | done a => exact Iff.rfl
  | fail e => exact Iff.rfl
  | call o k ih =>
    simp only [Prog.bind,wp,ih]

theorem wp_catching {p : Prog ι ρ ε α} {h : ε → Prog ι ρ ε α} {Q : Except ε α → L → Prop} {l : L} :
    wp S (tryCatch p h) Q l ↔ wp S p (fun r l' => match r with
      | .ok a => Q (.ok a) l'
      | .error e => wp S (h e) Q l') l := by
  change wp S (p.catching h) Q l ↔ _
  induction p generalizing l with
  | done a => exact Iff.rfl
  | fail e => exact Iff.rfl
  | call o k ih =>
    simp only [Prog.catching,wp,ih]

theorem wp_attempt {p : Prog ι ρ ε α} {Q : Except ε (Except ε α) → L → Prop} {l : L} :
    wp S p.attempt Q l ↔ wp S p (fun r l' => Q (.ok r) l') l := by
  induction p generalizing l with
  | done a => exact Iff.rfl
  | fail e => exact Iff.rfl
  | call o k ih =>
    simp only [Prog.attempt,wp,ih]

theorem wp_ensuring {p : Prog ι ρ ε α} {fin : Prog ι ρ ε Unit} {Q : Except ε α → L → Prop} {l : L} :
    wp S (p.ensuring fin) Q l ↔ wp S p (fun r l' => wp S fin (fun r' l'' => match r' with
      | .ok _ => Q r l''
      | .error e => Q (.error e) l'') l') l := by
  unfold Prog.ensuring
  simp only [wp_bind,wp_attempt,wp_settle]
  constructor
  all_goals
    intro h
    refine wp_mono h fun r l' h' => wp_mono h' ?_
    rintro (e | u) l'' h''
    all_goals exact h''

theorem wp_perform {o : ι} {Q : Except ε (ρ o) → L → Prop} {l : L} :
    wp S (perform o) Q l ↔ ∀ l₁, S.rely l l₁ →
      S.pre o l₁ ∧ ∀ r l₂, S.post o l₁ r l₂ → Q r l₂ := by
  simp only [perform,wp,wp_settle]

end WP

/-- What the program comes to where each operation has one answer. -/
def Prog.answered (f : (o : ι) → Except ε (ρ o)) : Prog ι ρ ε α → Except ε α
  | .done a => .ok a
  | .fail e => .error e
  | .call o k => (k (f o)).answered f

section Answered

variable {f : (o : ι) → Except ε (ρ o)}

@[simp] theorem answered_pure (a : α) : (pure a : Prog ι ρ ε α).answered f = .ok a := rfl
@[simp] theorem answered_throw (e : ε) : (throw e : Prog ι ρ ε α).answered f = .error e := rfl
@[simp] theorem answered_settle (r : Except ε α) : (settle r : Prog ι ρ ε α).answered f = r := by
  cases r <;> rfl
@[simp] theorem answered_perform (o : ι) : (perform o : Prog ι ρ ε (ρ o)).answered f = f o :=
  answered_settle (f o)

@[simp] theorem answered_bind (p : Prog ι ρ ε α) (g : α → Prog ι ρ ε β) :
    (p >>= g).answered f = match p.answered f with
      | .ok a => (g a).answered f
      | .error e => .error e := by
  change (p.bind g).answered f = _
  induction p with
  | done a => rfl
  | fail e => rfl
  | call o k ih => exact ih (f o)

theorem answered_bind_ok {p : Prog ι ρ ε α} {g : α → Prog ι ρ ε β} {a : α} (h : p.answered f = .ok a) :
    (p >>= g).answered f = (g a).answered f := by
  rw [answered_bind,h]

theorem answered_bind_error {p : Prog ι ρ ε α} {g : α → Prog ι ρ ε β} {e : ε}
    (h : p.answered f = .error e) : (p >>= g).answered f = .error e := by
  rw [answered_bind,h]

@[simp] theorem answered_attempt (p : Prog ι ρ ε α) : p.attempt.answered f = .ok (p.answered f) := by
  induction p with
  | done a => rfl
  | fail e => rfl
  | call o k ih => exact ih (f o)

/-- Answers that the specification admits are one of the outcomes. -/
theorem wp_answered {S : Spec ι ρ ε L} (hrely : ∀ l, S.rely l l) {p : Prog ι ρ ε α}
    {Q : Except ε α → L → Prop} {l : L} (hf : ∀ o, S.post o l (f o) l) (h : wp S p Q l) :
    Q (p.answered f) l := by
  induction p with
  | done a => exact h
  | fail e => exact h
  | call o k ih => exact ih (f o) ((h l (hrely l)).2 (f o) l (hf o))

end Answered

/-- The calls that the program makes where each operation has one answer. -/
def Prog.calls (f : (o : ι) → Except ε (ρ o)) : Prog ι ρ ε α → List ι
  | .done _ => []
  | .fail _ => []
  | .call o k => o :: (k (f o)).calls f

section Calls

variable {f : (o : ι) → Except ε (ρ o)}

theorem calls_bind (p : Prog ι ρ ε α) (g : α → Prog ι ρ ε β) :
    (p >>= g).calls f = p.calls f ++ match p.answered f with
      | .ok a => (g a).calls f
      | .error _ => [] := by
  change (p.bind g).calls f = _
  induction p with
  | done a => rfl
  | fail e => rfl
  | call o k ih => exact congrArg (o :: ·) (ih (f o))

theorem calls_bind_ok {p : Prog ι ρ ε α} {g : α → Prog ι ρ ε β} {a : α} (h : p.answered f = .ok a) :
    (p >>= g).calls f = p.calls f ++ (g a).calls f := by
  rw [calls_bind,h]

end Calls

/-- Every value that the program returns satisfies `P`, every exception that it raises `E`. -/
def Ends (S : Spec ι ρ ε L) (P : α → Prop) (E : ε → Prop) (p : Prog ι ρ ε α) : Prop :=
  ∀ l, wp S p (fun r _ => (∀ a, r = .ok a → P a) ∧ ∀ e, r = .error e → E e) l

namespace Ends

variable {S : Spec ι ρ ε L} {P P' : α → Prop} {E E' : ε → Prop}

theorem mono {p : Prog ι ρ ε α} (h : Ends S P E p) (hP : ∀ a, P a → P' a) (hE : ∀ e, E e → E' e) :
    Ends S P' E' p := by
  intro l
  refine wp_mono (h l) ?_
  rintro r l' ⟨ha,he⟩
  exact ⟨fun a hr => hP a (ha a hr),fun e hr => hE e (he e hr)⟩

theorem pure {a : α} (h : P a) : Ends S P E (Pure.pure a : Prog ι ρ ε α) := by
  intro l
  refine ⟨?_,by simp⟩
  rintro b ⟨⟩
  exact h

theorem throw {e : ε} (h : E e) : Ends S P E (MonadExcept.throw e : Prog ι ρ ε α) := by
  intro l
  refine ⟨by simp,?_⟩
  rintro e' ⟨⟩
  exact h

theorem bind {Q : β → Prop} {p : Prog ι ρ ε α} {f : α → Prog ι ρ ε β} (hp : Ends S P E p)
    (hf : ∀ a, P a → Ends S Q E (f a)) : Ends S Q E (p >>= f) := by
  intro l
  refine wp_bind.mpr (wp_mono (hp l) ?_)
  rintro (e | a) l' ⟨ha,he⟩
  · refine ⟨by simp,?_⟩
    rintro e' ⟨⟩
    exact he e rfl
  · exact hf a (ha a rfl) l'

theorem branch {b : Prop} [Decidable b] {p q : Prog ι ρ ε α} (hp : Ends S P E p)
    (hq : Ends S P E q) : Ends S P E (if b then p else q) := by
  split
  · exact hp
  · exact hq

theorem attempt {p : Prog ι ρ ε α} (hp : Ends S P E p) :
    Ends S (fun r => (∀ a, r = .ok a → P a) ∧ ∀ e, r = .error e → E e) E' p.attempt := by
  intro l
  refine wp_attempt.mpr (wp_mono (hp l) ?_)
  intro r l' h
  refine ⟨?_,by simp⟩
  rintro a ⟨⟩
  exact h

theorem perform {o : ι} {P : ρ o → Prop} (h : ∀ l l', S.rely l l' → S.pre o l' ∧
    ∀ r l'', S.post o l' r l'' → (∀ a, r = .ok a → P a) ∧ ∀ e, r = .error e → E e) :
    Ends S P E (Prog.perform o) :=
  fun l => wp_perform.mpr fun l' hl => h l l' hl

/-- A program that can return only `a` returns what satisfies `P` exactly when `a` does. -/
theorem iff_of_eq {f : (o : ι) → Except ε (ρ o)} {p : Prog ι ρ ε α} {a : α} {l : L}
    (hrely : ∀ l, S.rely l l) (hf : ∀ o, S.post o l (f o) l)
    (hp : Ends S (fun b => b = a) (fun _ => False) p) : Ends S P (fun _ => False) p ↔ P a := by
  constructor
  · intro h
    obtain ⟨hvalue,hraise⟩ := wp_answered hrely hf (hp l)
    obtain ⟨hvalue',-⟩ := wp_answered hrely hf (h l)
    cases hrun : p.answered f with
    | error e => exact (hraise e hrun).elim
    | ok b =>
      rw [← hvalue b hrun]
      exact hvalue' b hrun
  · intro h
    refine hp.mono ?_ fun _ he => he
    rintro b rfl
    exact h

end Ends

/-- Every call the program can make, whatever the earlier answers, satisfies `K`. -/
def All (K : ι → Prop) : Prog ι ρ ε α → Prop
  | done _ => True
  | fail _ => True
  | call o k => K o ∧ ∀ r, All K (k r)

section All

variable {K K' : ι → Prop}

@[simp] theorem all_done (a : α) : All K (done a : Prog ι ρ ε α) := trivial
@[simp] theorem all_pure (a : α) : All K (pure a : Prog ι ρ ε α) := trivial
@[simp] theorem all_fail (e : ε) : All K (fail e : Prog ι ρ ε α) := trivial
@[simp] theorem all_throw (e : ε) : All K (throw e : Prog ι ρ ε α) := trivial
@[simp] theorem all_settle (r : Except ε α) : All K (settle r : Prog ι ρ ε α) := by
  cases r <;> trivial
@[simp] theorem all_perform (o : ι) : All K (perform o : Prog ι ρ ε (ρ o)) ↔ K o :=
  ⟨fun h => h.1,fun h => ⟨h,all_settle⟩⟩

theorem All.of_mem_calls {f : (o : ι) → Except ε (ρ o)} {p : Prog ι ρ ε α} (h : All K p) {o : ι}
    (ho : o ∈ p.calls f) : K o := by
  induction p with
  | done a => cases ho
  | fail e => cases ho
  | call o' k ih =>
    rcases List.mem_cons.mp ho with rfl | ho
    · exact h.1
    · exact ih (f o') (h.2 _) ho

theorem All.mono {p : Prog ι ρ ε α} (h : All K p) (hK : ∀ o, K o → K' o) : All K' p := by
  induction p with
  | done a => trivial
  | fail e => trivial
  | call o k ih => exact ⟨hK o h.1,fun r => ih r (h.2 r)⟩

theorem All.and {p : Prog ι ρ ε α} (h : All K p) (h' : All K' p) : All (fun o => K o ∧ K' o) p := by
  induction p with
  | done a => trivial
  | fail e => trivial
  | call o k ih => exact ⟨⟨h.1,h'.1⟩,fun r => ih r (h.2 r) (h'.2 r)⟩

theorem All.bind {p : Prog ι ρ ε α} {f : α → Prog ι ρ ε β} (hp : All K p) (hf : ∀ a, All K (f a)) :
    All K (p >>= f) := by
  change All K (p.bind f)
  induction p with
  | done a => exact hf a
  | fail e => trivial
  | call o k ih => exact ⟨hp.1,fun r => ih r (hp.2 r)⟩

theorem All.catching {p : Prog ι ρ ε α} {h : ε → Prog ι ρ ε α} (hp : All K p)
    (hh : ∀ e, All K (h e)) : All K (tryCatch p h) := by
  change All K (p.catching h)
  induction p with
  | done a => trivial
  | fail e => exact hh e
  | call o k ih => exact ⟨hp.1,fun r => ih r (hp.2 r)⟩

theorem All.attempt {p : Prog ι ρ ε α} (hp : All K p) : All K p.attempt := by
  induction p with
  | done a => trivial
  | fail e => trivial
  | call o k ih => exact ⟨hp.1,fun r => ih r (hp.2 r)⟩

theorem All.ensuring {p : Prog ι ρ ε α} {fin : Prog ι ρ ε Unit} (hp : All K p) (hfin : All K fin) :
    All K (p.ensuring fin) :=
  hp.attempt.bind fun r => hfin.bind fun _ => all_settle r

end All

/-- The calls of a run, each with its answer. -/
abbrev Trace (ι : Type) (ρ : ι → Type) (ε : Type) := List ((o : ι) × Except ε (ρ o))

/-- A run of the program: what its calls were answered, and what it came to. -/
inductive Runs : Prog ι ρ ε α → Trace ι ρ ε → Except ε α → Prop
  | done (a : α) : Runs (done a) [] (.ok a)
  | fail (e : ε) : Runs (fail e) [] (.error e)
  | call {o : ι} {k : Except ε (ρ o) → Prog ι ρ ε α} {r : Except ε (ρ o)} {es : Trace ι ρ ε}
      {out : Except ε α} (h : Runs (k r) es out) : Runs (call o k) (⟨o,r⟩ :: es) out

namespace Runs

variable {es : Trace ι ρ ε}

theorem of_pure {a : α} {out : Except ε α} (h : Runs (pure a) es out) : es = [] ∧ out = .ok a := by
  cases h
  exact ⟨rfl,rfl⟩

theorem of_throw {e : ε} {out : Except ε α} (h : Runs (throw e) es out) : es = [] ∧ out = .error e := by
  cases h
  exact ⟨rfl,rfl⟩

theorem of_settle {r out : Except ε α} (h : Runs (settle r) es out) : es = [] ∧ out = r := by
  cases r with
  | ok a => exact of_pure h
  | error e => exact of_throw h

theorem of_perform {o : ι} {out : Except ε (ρ o)} (h : Runs (perform o) es out) : es = [⟨o,out⟩] := by
  change Runs (Prog.call o settle) es out at h
  cases h with
  | call h =>
    obtain ⟨rfl,rfl⟩ := of_settle h
    rfl

/-- A run of `p >>= f` is a run of `p` that raises, or one that returns and a run of `f` after it. -/
theorem of_bind {p : Prog ι ρ ε α} {f : α → Prog ι ρ ε β} {out : Except ε β} (h : Runs (p >>= f) es out) :
    (∃ e, Runs p es (.error e) ∧ out = .error e) ∨
      ∃ a es₁ es₂, Runs p es₁ (.ok a) ∧ Runs (f a) es₂ out ∧ es = es₁ ++ es₂ := by
  change Runs (p.bind f) es out at h
  induction p generalizing es with
  | done a => exact .inr ⟨a,[],es,.done a,h,rfl⟩
  | fail e =>
    obtain ⟨rfl,rfl⟩ := of_throw h
    exact .inl ⟨e,.fail e,rfl⟩
  | call o k ih =>
    cases h with
    | call h =>
      rcases ih _ h with ⟨e,hp,rfl⟩ | ⟨a,es₁,es₂,hp,hf,rfl⟩
      · exact .inl ⟨e,.call hp,rfl⟩
      · exact .inr ⟨a,_ :: es₁,es₂,.call hp,hf,rfl⟩

theorem of_attempt {p : Prog ι ρ ε α} {out : Except ε (Except ε α)} (h : Runs p.attempt es out) :
    ∃ r, Runs p es r ∧ out = .ok r := by
  induction p generalizing es with
  | done a =>
    obtain ⟨rfl,rfl⟩ := of_pure h
    exact ⟨.ok a,.done a,rfl⟩
  | fail e =>
    obtain ⟨rfl,rfl⟩ := of_pure h
    exact ⟨.error e,.fail e,rfl⟩
  | call o k ih =>
    cases h with
    | call h =>
      obtain ⟨r,hp,rfl⟩ := ih _ h
      exact ⟨r,.call hp,rfl⟩

theorem of_ensuring {p : Prog ι ρ ε α} {fin : Prog ι ρ ε Unit} {out : Except ε α}
    (h : Runs (p.ensuring fin) es out) : ∃ r r' es₁ es₂, Runs p es₁ r ∧ Runs fin es₂ r' ∧ es = es₁ ++ es₂ ∧
      (∀ u, r' = .ok u → out = r) := by
  rcases of_bind h with ⟨e,hp,-⟩ | ⟨r,es₁,es₂,hp,h₂,rfl⟩
  · obtain ⟨r,-,hr⟩ := of_attempt hp
    cases hr
  · obtain ⟨r',hrun,hr⟩ := of_attempt hp
    obtain rfl := Except.ok.inj hr
    rcases of_bind h₂ with ⟨e,hfin,-⟩ | ⟨u,es₃,es₄,hfin,h₄,rfl⟩
    · exact ⟨r,.error e,es₁,es₂,hrun,hfin,rfl,by simp⟩
    · obtain ⟨rfl,rfl⟩ := of_settle h₄
      exact ⟨out,.ok u,es₁,es₃,hrun,hfin,by rw [List.append_nil],fun _ _ => rfl⟩

/-- What every call satisfies holds of the calls of a run. -/
theorem all {K : ι → Prop} {p : Prog ι ρ ε α} {out : Except ε α} (h : Runs p es out) (hp : All K p) :
    ∀ e ∈ es, K e.1 := by
  induction h with
  | done a => simp
  | fail e => simp
  | call h ih =>
    intro e he
    rcases List.mem_cons.mp he with rfl | he
    · exact hp.1
    · exact ih (hp.2 _) e he

/-- The run where each operation has one answer. -/
theorem answered (f : (o : ι) → Except ε (ρ o)) (p : Prog ι ρ ε α) :
    Runs p ((p.calls f).map fun o => ⟨o,f o⟩) (p.answered f) := by
  induction p with
  | done a => exact .done a
  | fail e => exact .fail e
  | call o k ih => exact .call (ih (f o))

end Runs

/-- Every value that the program can return satisfies `P`, whatever its calls answer. -/
def Returns (P : α → Prop) : Prog ι ρ ε α → Prop
  | done a => P a
  | fail _ => True
  | call _ k => ∀ r, Returns P (k r)

namespace Returns

variable {P P' : α → Prop}

theorem of_all {p : Prog ι ρ ε α} (h : ∀ a, P a) : Returns P p := by
  induction p with
  | done a => exact h a
  | fail e => trivial
  | call o k ih => exact ih

theorem any (p : Prog ι ρ ε α) : Returns (fun _ => True) p := of_all fun _ => trivial

theorem settle {r : Except ε α} (h : ∀ a, r = .ok a → P a) : Returns P (Prog.settle r : Prog ι ρ ε α) := by
  cases r with
  | error e => trivial
  | ok a => exact h a rfl

theorem bind {Q : β → Prop} {p : Prog ι ρ ε α} {f : α → Prog ι ρ ε β} (hp : Returns P p)
    (hf : ∀ a, P a → Returns Q (f a)) : Returns Q (p >>= f) := by
  change Returns Q (p.bind f)
  induction p with
  | done a => exact hf a hp
  | fail e => trivial
  | call o k ih => exact fun r => ih r (hp r)

theorem attempt {p : Prog ι ρ ε α} (hp : Returns P p) :
    Returns (fun r => ∀ a, r = .ok a → P a) p.attempt := by
  induction p with
  | done a =>
    rintro b ⟨⟩
    exact hp
  | fail e => exact fun a h => by cases h
  | call o k ih => exact fun r => ih r (hp r)

theorem ensuring {p : Prog ι ρ ε α} {fin : Prog ι ρ ε Unit} (hp : Returns P p) :
    Returns P (p.ensuring fin) := by
  have hrest : ∀ r : Except ε α, (∀ a, r = .ok a → P a) →
      Returns P (do fin; Prog.settle r : Prog ι ρ ε α) := fun r hr =>
    bind (any fin) fun _ _ => settle hr
  exact bind hp.attempt hrest

theorem wp {S : Spec ι ρ ε L} {p : Prog ι ρ ε α} {Q : Except ε α → L → Prop} {l : L}
    (hp : Returns P p) (h : wp S p Q l) : wp S p (fun r l' => Q r l' ∧ ∀ a, r = .ok a → P a) l := by
  induction p generalizing l with
  | done a =>
    refine ⟨h,?_⟩
    rintro b ⟨⟩
    exact hp
  | fail e => exact ⟨h,fun a he => by cases he⟩
  | call o k ih =>
    intro l₁ hl
    obtain ⟨hpre,hk⟩ := h l₁ hl
    exact ⟨hpre,fun r l₂ h₂ => ih r (hp r) (hk r l₂ h₂)⟩

end Returns

/-- An exception in `X` that a call in `F` raises ends the program. -/
def Propagates (F : ι → Prop) (X : ε → Prop) : Prog ι ρ ε α → Prop
  | done _ => True
  | fail _ => True
  | call o k => (F o → ∀ e, X e → k (.error e) = fail e) ∧ ∀ r, Propagates F X (k r)

namespace Propagates

variable {F : ι → Prop} {X : ε → Prop}

theorem settle (r : Except ε α) : Propagates F X (Prog.settle r : Prog ι ρ ε α) := by
  cases r <;> trivial

theorem perform (o : ι) : Propagates F X (Prog.perform o : Prog ι ρ ε (ρ o)) :=
  ⟨fun _ _ _ => rfl,settle⟩

theorem bind {p : Prog ι ρ ε α} {f : α → Prog ι ρ ε β} (hp : Propagates F X p)
    (hf : ∀ a, Propagates F X (f a)) : Propagates F X (p >>= f) := by
  change Propagates F X (p.bind f)
  induction p with
  | done a => exact hf a
  | fail e => trivial
  | call o k ih =>
    refine ⟨fun ho e he => ?_,fun r => ih r (hp.2 r)⟩
    change (k (.error e)).bind f = fail e
    rw [hp.1 ho e he]
    rfl

/-- A handler that raises the exceptions of `X` again. -/
theorem catching {p : Prog ι ρ ε α} {h : ε → Prog ι ρ ε α} (hp : Propagates F X p)
    (hh : ∀ e, Propagates F X (h e)) (hX : ∀ e, X e → h e = fail e) :
    Propagates F X (tryCatch p h) := by
  change Propagates F X (p.catching h)
  induction p with
  | done a => trivial
  | fail e => exact hh e
  | call o k ih =>
    refine ⟨fun ho e he => ?_,fun r => ih r (hp.2 r)⟩
    change (k (.error e)).catching h = fail e
    rw [hp.1 ho e he]
    exact hX e he

/-- Nothing in `F` is called. -/
theorem of_all {p : Prog ι ρ ε α} (hp : All (fun o => ¬ F o) p) : Propagates F X p := by
  induction p with
  | done a => trivial
  | fail e => trivial
  | call o k ih => exact ⟨fun ho => absurd ho hp.1,fun r => ih r (hp.2 r)⟩

/-- Where a call in `F` that raises leads from `A` to `B`, and every other call keeps `A`, the
program ends in `B` or leaves `A` as it was. -/
theorem wp {S : Spec ι ρ ε L} {A B : L → Prop} {K : ι → Prop} {p : Prog ι ρ ε α}
    (hp : Propagates F X p) (hK : All K p)
    (hrely : ∀ l l', A l → S.rely l l' → A l')
    (hcall : ∀ o l, K o → A l → S.pre o l ∧ ∀ r l', S.post o l r l' →
      A l' ∨ (F o ∧ ∃ e, X e ∧ r = .error e ∧ B l')) {l : L} (hl : A l) :
    wp S p (fun r l' => A l' ∨ ∃ e, X e ∧ r = .error e ∧ B l') l := by
  induction p generalizing l with
  | done a => exact .inl hl
  | fail e => exact .inl hl
  | call o k ih =>
    intro l₁ h₁
    obtain ⟨hpre,hpost⟩ := hcall o l₁ hK.1 (hrely l l₁ hl h₁)
    refine ⟨hpre,fun r l₂ h₂ => ?_⟩
    rcases hpost r l₂ h₂ with hA | ⟨ho,e,he,rfl,hB⟩
    · exact ih r (hp.2 r) (hK.2 r) hA
    · rw [hp.1 ho e he]
      exact .inr ⟨e,he,rfl,hB⟩

end Propagates

/-- The program leaves the assertion as it found it, however it ends. -/
def Keeps (S : Spec ι ρ ε L) (A : L → Prop) (p : Prog ι ρ ε α) : Prop :=
  ∀ l, A l → wp S p (fun _ l' => A l') l

namespace Keeps

variable {S : Spec ι ρ ε L} {A : L → Prop} {K : ι → Prop}

/-- The operations that keep the assertion, wherever the environment keeps it too. -/
def Call (S : Spec ι ρ ε L) (A : L → Prop) (o : ι) : Prop :=
  ∀ l, A l → ∀ l₁, S.rely l l₁ → S.pre o l₁ ∧ ∀ r l₂, S.post o l₁ r l₂ → A l₂

theorem of_all {p : Prog ι ρ ε α} (hp : All K p) (hK : ∀ o, K o → Call S A o) : Keeps S A p := by
  induction p with
  | done a => exact fun l hl => hl
  | fail e => exact fun l hl => hl
  | call o k ih =>
    intro l hl l₁ h₁
    obtain ⟨hpre,hpost⟩ := hK o hp.1 l hl l₁ h₁
    exact ⟨hpre,fun r l₂ h₂ => ih r (hp.2 r) l₂ (hpost r l₂ h₂)⟩

theorem bind {p : Prog ι ρ ε α} {f : α → Prog ι ρ ε β} (hp : Keeps S A p)
    (hf : ∀ a, Keeps S A (f a)) : Keeps S A (p >>= f) := by
  intro l hl
  refine wp_bind.mpr (wp_mono (hp l hl) ?_)
  rintro (e | a) l' hl'
  · exact hl'
  · exact hf a l' hl'

theorem attempt {p : Prog ι ρ ε α} (hp : Keeps S A p) : Keeps S A p.attempt :=
  fun l hl => wp_attempt.mpr (hp l hl)

theorem catching {p : Prog ι ρ ε α} {h : ε → Prog ι ρ ε α} (hp : Keeps S A p)
    (hh : ∀ e, Keeps S A (h e)) : Keeps S A (tryCatch p h) := by
  intro l hl
  refine wp_catching.mpr (wp_mono (hp l hl) ?_)
  rintro (e | a) l' hl'
  · exact hh e l' hl'
  · exact hl'

theorem ensuring {p : Prog ι ρ ε α} {fin : Prog ι ρ ε Unit} (hp : Keeps S A p)
    (hfin : Keeps S A fin) : Keeps S A (p.ensuring fin) := by
  intro l hl
  refine wp_ensuring.mpr (wp_mono (hp l hl) fun r l' hl' => wp_mono (hfin l' hl') ?_)
  rintro (e | u) l'' hl''
  · exact hl''
  · exact hl''

theorem pure (a : α) : Keeps S A (Pure.pure a : Prog ι ρ ε α) := fun _ hl => hl

theorem throw (e : ε) : Keeps S A (MonadExcept.throw e : Prog ι ρ ε α) := fun _ hl => hl

theorem perform {o : ι} (h : Call S A o) : Keeps S A (Prog.perform o) :=
  fun l hl => wp_perform.mpr fun l₁ h₁ => h l hl l₁ h₁

end Keeps

/-- From `A`, the program ends in `P` of its value, unless it raises. -/
def Triple (S : Spec ι ρ ε L) (A : L → Prop) (p : Prog ι ρ ε α) (P : α → L → Prop) : Prop :=
  ∀ l, A l → wp S p (fun r l' => ∀ a, r = .ok a → P a l') l

namespace Triple

variable {S : Spec ι ρ ε L} {A B : L → Prop} {P P' : α → L → Prop}

theorem mono {p : Prog ι ρ ε α} (h : Triple S A p P) (hA : ∀ l, B l → A l) (hP : ∀ a l, P a l → P' a l) :
    Triple S B p P' :=
  fun l hl => wp_mono (h l (hA l hl)) fun _ l' h' a ha => hP a l' (h' a ha)

theorem pure {a : α} (h : ∀ l, A l → P a l) : Triple S A (Pure.pure a : Prog ι ρ ε α) P := by
  intro l hl
  change ∀ b, Except.ok a = Except.ok b → P b l
  rintro b ⟨⟩
  exact h l hl

theorem throw (e : ε) : Triple S A (MonadExcept.throw e : Prog ι ρ ε α) P := by
  intro l _
  change ∀ b, Except.error e = Except.ok b → P b l
  rintro b ⟨⟩

theorem bind {p : Prog ι ρ ε α} {f : α → Prog ι ρ ε β} {Q : β → L → Prop} (hp : Triple S A p P)
    (hf : ∀ a, Triple S (P a) (f a) Q) : Triple S A (p >>= f) Q := by
  intro l hl
  refine wp_bind.mpr (wp_mono (hp l hl) ?_)
  rintro (e | a) l' h'
  · rintro b ⟨⟩
  · exact hf a l' (h' a rfl)

theorem branch {b : Prop} [Decidable b] {p q : Prog ι ρ ε α} (hp : Triple S A p P) (hq : Triple S A q P) :
    Triple S A (if b then p else q) P := by
  split
  · exact hp
  · exact hq

theorem of_keeps {p : Prog ι ρ ε α} (h : Keeps S A p) : Triple S A p fun _ => A :=
  fun l hl => wp_mono (h l hl) fun _ _ h' _ _ => h'

theorem perform {o : ι} {P : ρ o → L → Prop} (h : ∀ l, A l → ∀ l₁, S.rely l l₁ →
    S.pre o l₁ ∧ ∀ a l₂, S.post o l₁ (.ok a) l₂ → P a l₂) : Triple S A (Prog.perform o) P := by
  intro l hl
  refine wp_perform.mpr fun l₁ h₁ => ?_
  obtain ⟨hpre,hpost⟩ := h l hl l₁ h₁
  refine ⟨hpre,?_⟩
  rintro r l₂ h₂ a rfl
  exact hpost a l₂ h₂

end Triple

end Program
end Saarathi
