import Saarathi.Machine
import Saarathi.Program
import Mathlib.Logic.Function.Basic

/-!
# Interleaved processes over a shared world

Any number of processes each serve one request at a time. A run is a list of
actions: a request starts, a process makes its next call, a finished process
becomes free, or the environment moves. The rule at the end derives what every
reachable configuration satisfies from one lemma for each kind of action.
-/

namespace Saarathi
namespace Interleaving

open Machine Program

/-- How calls act on a shared world. A choice `C` resolves what the world leaves open;
`none` means that the call cannot go through now. -/
structure Interp (W X Req C E ι : Type) (ρ : ι → Type) (ε α : Type) where
  prog : X → Req → Prog ι ρ ε α
  begin : W → X → Req → W
  exec : W → X → (o : ι) → C → Option (Except ε (ρ o) × W)
  env : W → E → Option W

inductive Act (X Req C E : Type) where
  | start (x : X) (req : Req)
  | call (x : X) (c : C)
  | finish (x : X)
  | env (e : E)

structure Config (W X ι : Type) (ρ : ι → Type) (ε α : Type) where
  world : W
  procs : X → Option (Prog ι ρ ε α)

variable {W X Req C E ι : Type} {ρ : ι → Type} {ε α : Type} [DecidableEq X]

/-- No process is running. -/
def idle (w : W) : Config W X ι ρ ε α := ⟨w,fun _ => none⟩

/-- One action; `none` where it is not enabled. -/
def step (I : Interp W X Req C E ι ρ ε α) (c : Config W X ι ρ ε α) :
    Act X Req C E → Option (Config W X ι ρ ε α)
  | .start x req => match c.procs x with
    | none => some ⟨I.begin c.world x req,Function.update c.procs x (some (I.prog x req))⟩
    | some _ => none
  | .call x ch => match c.procs x with
    | some (.call o k) => match I.exec c.world x o ch with
      | some (r,w) => some ⟨w,Function.update c.procs x (some (k r))⟩
      | none => none
    | _ => none
  | .finish x => match c.procs x with
    | some (.done _) => some ⟨c.world,Function.update c.procs x none⟩
    | some (.fail _) => some ⟨c.world,Function.update c.procs x none⟩
    | _ => none
  | .env e => match I.env c.world e with
    | some w => some ⟨w,c.procs⟩
    | none => none

/-- What one action can do. -/
inductive Stepped (I : Interp W X Req C E ι ρ ε α) (c : Config W X ι ρ ε α) :
    Act X Req C E → Config W X ι ρ ε α → Prop
  | start {x req} (hx : c.procs x = none) :
      Stepped I c (.start x req)
        ⟨I.begin c.world x req,Function.update c.procs x (some (I.prog x req))⟩
  | call {x ch o k r w} (hx : c.procs x = some (.call o k)) (hw : I.exec c.world x o ch = some (r,w)) :
      Stepped I c (.call x ch) ⟨w,Function.update c.procs x (some (k r))⟩
  | finish {x p} (hx : c.procs x = some p) (hp : ∀ o k, p ≠ .call o k) :
      Stepped I c (.finish x) ⟨c.world,Function.update c.procs x none⟩
  | env {e w} (hw : I.env c.world e = some w) : Stepped I c (.env e) ⟨w,c.procs⟩

theorem stepped_of_step {I : Interp W X Req C E ι ρ ε α} {c c' : Config W X ι ρ ε α}
    {a : Act X Req C E} (h : step I c a = some c') : Stepped I c a c' := by
  cases a with
  | start x req =>
    cases hx : c.procs x with
    | none =>
      obtain rfl : _ = c' := by simpa [step,hx] using h
      exact .start hx
    | some p => simp [step,hx] at h
  | call x ch =>
    rcases hx : c.procs x with _ | (_ | _ | ⟨o,k⟩)
    · simp [step,hx] at h
    · simp [step,hx] at h
    · simp [step,hx] at h
    · rcases hw : I.exec c.world x o ch with _ | ⟨r,w⟩
      · simp [step,hx,hw] at h
      · obtain rfl : _ = c' := by simpa [step,hx,hw] using h
        exact .call hx hw
  | finish x =>
    rcases hx : c.procs x with _ | (a | e | ⟨o,k⟩)
    · simp [step,hx] at h
    · obtain rfl : _ = c' := by simpa [step,hx] using h
      exact .finish hx (by simp)
    · obtain rfl : _ = c' := by simpa [step,hx] using h
      exact .finish hx (by simp)
    · simp [step,hx] at h
  | env e =>
    cases hw : I.env c.world e with
    | none => simp [step,hw] at h
    | some w =>
      obtain rfl : _ = c' := by simpa [step,hw] using h
      exact .env hw

/-- Let process `x` make its next calls, at most `n`, with the choices that `answer` gives. -/
def serve (I : Interp W X Req C E ι ρ ε α) (ok : Config W X ι ρ ε α → Act X Req C E → Prop)
    [∀ c a, Decidable (ok c a)] (x : X) (answer : W → ι → C) :
    ℕ → Config W X ι ρ ε α → Option (Config W X ι ρ ε α)
  | 0, c => some c
  | n + 1, c => match c.procs x with
    | some (.call o _) =>
      if ok c (.call x (answer c.world o)) then match step I c (.call x (answer c.world o)) with
        | some c' => serve I ok x answer n c'
        | none => none
      else none
    | _ => some c

theorem reach_of_serve {I : Interp W X Req C E ι ρ ε α}
    {ok : Config W X ι ρ ε α → Act X Req C E → Prop} [∀ c a, Decidable (ok c a)] {x : X}
    {answer : W → ι → C} {n : ℕ} {c c' : Config W X ι ρ ε α} (h : serve I ok x answer n c = some c') :
    Reach (step I) ok c c' := by
  induction n generalizing c with
  | zero =>
    obtain rfl : c = c' := by simpa [serve] using h
    exact .refl
  | succ n ih =>
    rw [serve] at h
    split at h
    · split at h
      · rename_i hok
        split at h
        · rename_i c₁ hs
          have h₁ : Reach (step I) ok c c₁ := Reach.refl.next hok hs
          exact h₁.trans (ih h)
        · cases h
      · cases h
    · obtain rfl : c = c' := by simpa using h
      exact .refl

/-- A piece of a concrete run: one action, or the next calls of one process. -/
inductive Cue (W X Req C E ι : Type) where
  | act (a : Act X Req C E)
  | serve (x : X) (answer : W → ι → C) (n : ℕ)

def play (I : Interp W X Req C E ι ρ ε α) (ok : Config W X ι ρ ε α → Act X Req C E → Prop)
    [∀ c a, Decidable (ok c a)] : List (Cue W X Req C E ι) → Config W X ι ρ ε α →
      Option (Config W X ι ρ ε α)
  | [], c => some c
  | .act a :: cues, c =>
    if ok c a then match step I c a with
      | some c' => play I ok cues c'
      | none => none
    else none
  | .serve x answer n :: cues, c => match serve I ok x answer n c with
    | some c' => play I ok cues c'
    | none => none

theorem reach_of_play {I : Interp W X Req C E ι ρ ε α}
    {ok : Config W X ι ρ ε α → Act X Req C E → Prop} [∀ c a, Decidable (ok c a)]
    {cues : List (Cue W X Req C E ι)} {c c' : Config W X ι ρ ε α}
    (h : play I ok cues c = some c') : Reach (step I) ok c c' := by
  induction cues generalizing c with
  | nil =>
    obtain rfl : c = c' := by simpa [play] using h
    exact .refl
  | cons cue cues ih =>
    cases cue with
    | act a =>
      rw [play] at h
      split at h
      · rename_i hok
        split at h
        · rename_i c₁ hs
          have h₁ : Reach (step I) ok c c₁ := Reach.refl.next hok hs
          exact h₁.trans (ih h)
        · cases h
      · cases h
    | serve x answer n =>
      rw [play] at h
      split at h
      · rename_i c₁ hs
        exact (reach_of_serve hs).trans (ih h)
      · cases h

/-- A concrete run whose last configuration passes a test reaches one that passes it. -/
theorem exists_reach_of_play {I : Interp W X Req C E ι ρ ε α}
    {ok : Config W X ι ρ ε α → Act X Req C E → Prop} [∀ c a, Decidable (ok c a)]
    {cues : List (Cue W X Req C E ι)} {c : Config W X ι ρ ε α} {P : Config W X ι ρ ε α → Bool}
    (h : (play I ok cues c).any P = true) : ∃ c', Reach (step I) ok c c' ∧ P c' = true := by
  cases hr : play I ok cues c with
  | none => simp [hr] at h
  | some c' => exact ⟨c',reach_of_play hr,by simpa [hr] using h⟩

/-- Every process makes only calls in `K`. -/
def Guarded (K : ι → Prop) (c : Config W X ι ρ ε α) : Prop := ∀ x p, c.procs x = some p → All K p

omit [DecidableEq X] in
theorem guarded_idle {K : ι → Prop} (w : W) : Guarded K (idle w : Config W X ι ρ ε α) := by
  intro x p h
  cases h

theorem Guarded.update {K : ι → Prop} {c : Config W X ι ρ ε α} {w : W} {x : X}
    {p : Option (Prog ι ρ ε α)} (h : Guarded K c) (hp : ∀ q, p = some q → All K q) :
    Guarded K ⟨w,Function.update c.procs x p⟩ := by
  intro y q hq
  by_cases hy : y = x
  · subst hy
    exact hp q (by simpa using hq)
  · have hq' : c.procs y = some q := by simpa [Function.update_of_ne hy] using hq
    exact h y q hq'

section Guards

variable {I : Interp W X Req C E ι ρ ε α} {K : ι → Prop} {G : W → Prop}

/-- A property of the world that every permitted call keeps is kept by every step. -/
theorem guarded_step (hprog : ∀ x req, All K (I.prog x req))
    (hbegin : ∀ w x req, G w → G (I.begin w x req))
    (hexec : ∀ w x o ch r w', K o → G w → I.exec w x o ch = some (r,w') → G w')
    (henv : ∀ w e w', G w → I.env w e = some w' → G w') {c c' : Config W X ι ρ ε α}
    {a : Act X Req C E} (hs : Stepped I c a c') (hK : Guarded K c) (hG : G c.world) :
    Guarded K c' ∧ G c'.world := by
  cases hs with
  | start hx =>
    exact ⟨hK.update fun q hq => Option.some.inj hq ▸ hprog _ _,hbegin _ _ _ hG⟩
  | call hx hw =>
    have hp := hK _ _ hx
    exact ⟨hK.update fun q hq => Option.some.inj hq ▸ hp.2 _,hexec _ _ _ _ _ _ hp.1 hG hw⟩
  | finish hx hp => exact ⟨hK.update fun q hq => (by cases hq),hG⟩
  | env hw => exact ⟨hK,henv _ _ _ hG hw⟩

/-- A property of the world that every permitted call keeps holds in every state reached. -/
theorem invariant_of_all {ok : Config W X ι ρ ε α → Act X Req C E → Prop}
    (hprog : ∀ x req, All K (I.prog x req)) (hbegin : ∀ w x req, G w → G (I.begin w x req))
    (hexec : ∀ w x o ch r w', K o → G w → I.exec w x o ch = some (r,w') → G w')
    (henv : ∀ w e w', G w → I.env w e = some w' → G w') {c₀ c : Config W X ι ρ ε α}
    (h : Reach (step I) ok c₀ c) (hK : Guarded K c₀) (hG : G c₀.world) :
    Guarded K c ∧ G c.world := by
  let Inv (c : Config W X ι ρ ε α) : Prop := Guarded K c ∧ G c.world
  have h₀ : Inv c₀ := ⟨hK,hG⟩
  refine h.invariant h₀ ?_
  rintro c a c' ⟨hK,hG⟩ - hs
  exact guarded_step hprog hbegin hexec henv (stepped_of_step hs) hK hG

end Guards

/-- The next call of process `x`. -/
def Config.nextCall (c : Config W X ι ρ ε α) (x : X) : Option ι :=
  match c.procs x with
  | some (.call o _) => some o
  | _ => none

omit [DecidableEq X] in
theorem Config.nextCall_eq {c : Config W X ι ρ ε α} {x : X} {o : ι} {k : Except ε (ρ o) → Prog ι ρ ε α}
    (h : c.procs x = some (.call o k)) : c.nextCall x = some o := by
  simp [nextCall,h]

omit [DecidableEq X] in
theorem Config.call_of_nextCall {c : Config W X ι ρ ε α} {x : X} {o : ι} (h : c.nextCall x = some o) :
    ∃ k, c.procs x = some (.call o k) := by
  unfold nextCall at h
  split at h
  · rename_i o' k hx
    obtain rfl := Option.some.inj h
    exact ⟨k,hx⟩
  · cases h

variable {L : Type}

/-- A thread-modular proof: each process sees the world through `loc`, is verified against
its own specification, and every action keeps the shared invariant `G` and moves the other
processes only as their `rely` allows. -/
structure Outline (I : Interp W X Req C E ι ρ ε α)
    (ok : Config W X ι ρ ε α → Act X Req C E → Prop) (L : Type) where
  loc : W → X → L
  spec : X → Spec ι ρ ε L
  G : W → Prop
  Free : X → L → Prop
  Q : X → Except ε α → L → Prop
  rely_refl : ∀ x l, (spec x).rely l l
  rely_trans : ∀ x l₁ l₂ l₃, (spec x).rely l₁ l₂ → (spec x).rely l₂ l₃ → (spec x).rely l₁ l₃
  free_rely : ∀ x l l', Free x l → (spec x).rely l l' → Free x l'
  free_end : ∀ x r l, Q x r l → Free x l
  begin_ok : ∀ c x req, G c.world → Free x (loc c.world x) → ok c (.start x req) →
    G (I.begin c.world x req) ∧
      wp (spec x) (I.prog x req) (Q x) (loc (I.begin c.world x req) x) ∧
      ∀ y, y ≠ x → (spec y).rely (loc c.world y) (loc (I.begin c.world x req) y)
  exec_ok : ∀ c x o k ch r w, G c.world → c.procs x = some (.call o k) → ok c (.call x ch) →
    (spec x).pre o (loc c.world x) → I.exec c.world x o ch = some (r,w) →
    G w ∧ (spec x).post o (loc c.world x) r (loc w x) ∧
      ∀ y, y ≠ x → (spec y).rely (loc c.world y) (loc w y)
  env_ok : ∀ c e w, G c.world → ok c (.env e) → I.env c.world e = some w →
    G w ∧ ∀ y, (spec y).rely (loc c.world y) (loc w y)

namespace Outline

variable {I : Interp W X Req C E ι ρ ε α} {ok : Config W X ι ρ ε α → Act X Req C E → Prop}
variable (O : Outline I ok L)

/-- What a process still has to do is verified from what it can see. -/
def Running (w : W) (x : X) : Option (Prog ι ρ ε α) → Prop
  | none => O.Free x (O.loc w x)
  | some p => ∃ l, (O.spec x).rely l (O.loc w x) ∧ wp (O.spec x) p (O.Q x) l

def Inv (c : Config W X ι ρ ε α) : Prop :=
  O.G c.world ∧ ∀ x, O.Running c.world x (c.procs x)

omit [DecidableEq X] in
theorem Running.rely {O : Outline I ok L} {w w' : W} {x : X} {p : Option (Prog ι ρ ε α)}
    (h : O.Running w x p) (hr : (O.spec x).rely (O.loc w x) (O.loc w' x)) : O.Running w' x p := by
  cases p with
  | none => exact O.free_rely x _ _ h hr
  | some p =>
    obtain ⟨l,hl,hp⟩ := h
    exact ⟨l,O.rely_trans x _ _ _ hl hr,hp⟩

theorem running_update {w w' : W} {x : X} {procs : X → Option (Prog ι ρ ε α)}
    {p : Option (Prog ι ρ ε α)} (h : ∀ y, O.Running w y (procs y)) (hx : O.Running w' x p)
    (hr : ∀ y, y ≠ x → (O.spec y).rely (O.loc w y) (O.loc w' y)) (y : X) :
    O.Running w' y (Function.update procs x p y) := by
  by_cases hy : y = x
  · subst hy
    simpa using hx
  · rw [Function.update_of_ne hy]
    exact (h y).rely (hr y hy)

theorem inv_step {c c' : Config W X ι ρ ε α} {a : Act X Req C E} (h : O.Inv c) (hok : ok c a)
    (hs : Stepped I c a c') : O.Inv c' := by
  obtain ⟨hG,hrun⟩ := h
  cases hs with
  | start hx =>
    rename_i x req
    have hfree : O.Free x (O.loc c.world x) := by simpa [Running,hx] using hrun x
    obtain ⟨hG',hwp,hr⟩ := O.begin_ok c x req hG hfree hok
    exact ⟨hG',O.running_update hrun ⟨_,O.rely_refl x _,hwp⟩ hr⟩
  | call hx hw =>
    rename_i x ch o k r w
    obtain ⟨l,hl,hwp⟩ : O.Running c.world x (some (.call o k)) := hx ▸ hrun x
    obtain ⟨hpre,hk⟩ := hwp _ hl
    obtain ⟨hG',hpost,hr⟩ := O.exec_ok c x o k ch r w hG hx hok hpre hw
    exact ⟨hG',O.running_update hrun ⟨_,O.rely_refl x _,hk r _ hpost⟩ hr⟩
  | finish hx hp =>
    rename_i x p
    have hx' : O.Running c.world x (some p) := hx ▸ hrun x
    have hfree : O.Free x (O.loc c.world x) := by
      obtain ⟨l,hl,hwp⟩ := hx'
      cases p with
      | done a => exact O.free_rely x _ _ (O.free_end x _ _ hwp) hl
      | fail e => exact O.free_rely x _ _ (O.free_end x _ _ hwp) hl
      | call o k => exact absurd rfl (hp o k)
    exact ⟨hG,O.running_update hrun hfree fun y _ => O.rely_refl y _⟩
  | env hw =>
    rename_i e w
    obtain ⟨hG',hr⟩ := O.env_ok c e w hG hok hw
    exact ⟨hG',fun y => (hrun y).rely (hr y)⟩

theorem inv_of_reach {w : W} {c : Config W X ι ρ ε α} (h : Reach (step I) ok (idle w) c) (hG : O.G w)
    (hfree : ∀ x, O.Free x (O.loc w x)) : O.Inv c :=
  h.invariant ⟨hG,hfree⟩ fun _ _ _ hi hok hs => O.inv_step hi hok (stepped_of_step hs)

omit [DecidableEq X] in
theorem pre_of_call {c : Config W X ι ρ ε α} (h : O.Inv c) {x : X} {o : ι}
    {k : Except ε (ρ o) → Prog ι ρ ε α} (hx : c.procs x = some (.call o k)) :
    (O.spec x).pre o (O.loc c.world x) := by
  obtain ⟨l,hl,hwp⟩ : O.Running c.world x (some (.call o k)) := hx ▸ h.2 x
  exact (hwp _ hl).1

end Outline

/-- A proof about one request of process `x`, whatever the others do. -/
structure Solo (I : Interp W X Req C E ι ρ ε α)
    (ok : Config W X ι ρ ε α → Act X Req C E → Prop) (x : X) (L : Type) where
  loc : W → L
  spec : Spec ι ρ ε L
  G : Config W X ι ρ ε α → Prop
  rely_refl : ∀ l, spec.rely l l
  rely_trans : ∀ l₁ l₂ l₃, spec.rely l₁ l₂ → spec.rely l₂ l₃ → spec.rely l₁ l₃
  G_step : ∀ c a c', G c → ok c a → Stepped I c a c' → G c'
  call_ok : ∀ c o k ch r w, G c → c.procs x = some (.call o k) → ok c (.call x ch) →
    spec.pre o (loc c.world) → I.exec c.world x o ch = some (r,w) → spec.post o (loc c.world) r (loc w)
  start_ok : ∀ c y req, y ≠ x → G c → ok c (.start y req) →
    spec.rely (loc c.world) (loc (I.begin c.world y req))
  other_ok : ∀ c y o k ch r w, y ≠ x → G c → c.procs y = some (.call o k) → ok c (.call y ch) →
    I.exec c.world y o ch = some (r,w) → spec.rely (loc c.world) (loc w)
  env_ok : ∀ c e w, G c → ok c (.env e) → I.env c.world e = some w →
    spec.rely (loc c.world) (loc w)

/-- The request of `x` has come to its end. -/
def Config.Ended (c : Config W X ι ρ ε α) (x : X) : Prop :=
  ∃ p, c.procs x = some p ∧ ∀ o k, p ≠ .call o k

namespace Config

def ended (c : Config W X ι ρ ε α) (x : X) : Bool :=
  match c.procs x with
  | some (.done _) => true
  | some (.fail _) => true
  | _ => false

omit [DecidableEq X] in
theorem ended_iff {c : Config W X ι ρ ε α} {x : X} : c.ended x = true ↔ c.Ended x := by
  rcases hp : c.procs x with _ | (a | e | ⟨o,k⟩) <;> simp [ended,Ended,hp]

instance (c : Config W X ι ρ ε α) (x : X) : Decidable (c.Ended x) :=
  decidable_of_iff _ ended_iff

end Config

/-- The actions that leave `x` with the request that it serves. -/
def Serving (ok : Config W X ι ρ ε α → Act X Req C E → Prop) (x : X) (c : Config W X ι ρ ε α)
    (a : Act X Req C E) : Prop := ok c a ∧ ∀ y, a = .finish y → y ≠ x

instance {ok : Config W X ι ρ ε α → Act X Req C E → Prop} [∀ c a, Decidable (ok c a)] (x : X)
    (c : Config W X ι ρ ε α) (a : Act X Req C E) : Decidable (Serving ok x c a) :=
  match a with
  | .finish y => decidable_of_iff (ok c (.finish y) ∧ y ≠ x) (by simp [Serving])
  | .start y req => decidable_of_iff (ok c (.start y req)) (by simp [Serving])
  | .call y ch => decidable_of_iff (ok c (.call y ch)) (by simp [Serving])
  | .env e => decidable_of_iff (ok c (.env e)) (by simp [Serving])

/-- A request that is served alone. -/
theorem exists_served {I : Interp W X Req C E ι ρ ε α}
    {ok : Config W X ι ρ ε α → Act X Req C E → Prop} [∀ c a, Decidable (ok c a)] {x : X} {req : Req}
    {answer : W → ι → C} {n : ℕ} {c₀ : Config W X ι ρ ε α} {P : Config W X ι ρ ε α → Bool}
    (h : ((step I c₀ (.start x req)).bind (serve I (Serving ok x) x answer n)).any P = true) :
    ∃ c₁ c₂, step I c₀ (.start x req) = some c₁ ∧ Reach (step I) (Serving ok x) c₁ c₂ ∧ P c₂ = true := by
  cases hs : step I c₀ (.start x req) with
  | none => simp [hs] at h
  | some c₁ =>
    cases hr : serve I (Serving ok x) x answer n c₁ with
    | none => simp [hs,hr] at h
    | some c₂ => exact ⟨c₁,c₂,rfl,reach_of_serve hr,by simpa [hs,hr] using h⟩

namespace Solo

variable {I : Interp W X Req C E ι ρ ε α} {ok : Config W X ι ρ ε α → Act X Req C E → Prop}
variable {x : X} (O : Solo I ok x L)

/-- What the request still has to do is verified from what it can see. -/
def Inv (Q : Except ε α → L → Prop) (c : Config W X ι ρ ε α) : Prop :=
  O.G c ∧ ∃ p l, c.procs x = some p ∧ O.spec.rely l (O.loc c.world) ∧ wp O.spec p Q l

theorem inv_step {Q : Except ε α → L → Prop} {c c' : Config W X ι ρ ε α} {a : Act X Req C E}
    (h : O.Inv Q c) (hok : Serving ok x c a) (hs : Stepped I c a c') : O.Inv Q c' := by
  obtain ⟨hG,p,l,hp,hl,hwp⟩ := h
  refine ⟨O.G_step _ _ _ hG hok.1 hs,?_⟩
  cases hs with
  | start hy =>
    rename_i y req
    have hyx : y ≠ x := fun e => by simp [e,hp] at hy
    refine ⟨p,l,?_,O.rely_trans _ _ _ hl (O.start_ok _ _ _ hyx hG hok.1),hwp⟩
    simpa [Function.update_of_ne hyx.symm] using hp
  | call hy hw =>
    rename_i y ch o k r w
    by_cases hyx : y = x
    · subst hyx
      obtain rfl : p = .call o k := Option.some.inj (hp.symm.trans hy)
      obtain ⟨hpre,hk⟩ := hwp _ hl
      have hpost := O.call_ok _ _ _ _ _ _ hG hy hok.1 hpre hw
      exact ⟨k r,O.loc w,by simp,O.rely_refl _,hk r _ hpost⟩
    · refine ⟨p,l,?_,O.rely_trans _ _ _ hl (O.other_ok _ _ _ _ _ _ _ hyx hG hy hok.1 hw),hwp⟩
      simpa [Function.update_of_ne (Ne.symm hyx)] using hp
  | finish hy hq =>
    rename_i y q
    have hyx : x ≠ y := (hok.2 y rfl).symm
    exact ⟨p,l,by simpa [Function.update_of_ne hyx] using hp,hl,hwp⟩
  | env hw => exact ⟨p,l,hp,O.rely_trans _ _ _ hl (O.env_ok _ _ _ hG hok.1 hw),hwp⟩

theorem inv_of_reach {Q : Except ε α → L → Prop} {c c' : Config W X ι ρ ε α}
    (h : Reach (step I) (Serving ok x) c c') (hc : O.Inv Q c) : O.Inv Q c' :=
  h.invariant hc fun _ _ _ hi hok hs => O.inv_step hi hok (stepped_of_step hs)

theorem inv_of_start {Q : Except ε α → L → Prop} {c c' : Config W X ι ρ ε α} {req : Req}
    (hs : step I c (.start x req) = some c') (hG : O.G c')
    (hp : wp O.spec (I.prog x req) Q (O.loc c'.world)) : O.Inv Q c' := by
  cases stepped_of_step hs with
  | start hx => exact ⟨hG,I.prog x req,_,by simp,O.rely_refl _,hp⟩

theorem pre_of_call {Q : Except ε α → L → Prop} {c : Config W X ι ρ ε α} (h : O.Inv Q c) {o : ι}
    {k : Except ε (ρ o) → Prog ι ρ ε α} (hx : c.procs x = some (.call o k)) :
    O.spec.pre o (O.loc c.world) := by
  obtain ⟨-,p,l,hp,hl,hwp⟩ := h
  obtain rfl : p = .call o k := Option.some.inj (hp.symm.trans hx)
  exact (hwp _ hl).1

/-- What holds before every call of a request and at its end holds all the time. -/
theorem always {P : L → Prop} {c₀ c₁ c₂ : Config W X ι ρ ε α} {req : Req}
    (hs : step I c₀ (.start x req) = some c₁) (hr : Reach (step I) (Serving ok x) c₁ c₂)
    (hG : O.G c₁) (hpre : ∀ o l, O.spec.pre o l → P l) (hrely : ∀ l l', P l → O.spec.rely l l' → P l')
    (hp : wp O.spec (I.prog x req) (fun _ l => P l) (O.loc c₁.world)) : P (O.loc c₂.world) := by
  have hinv := O.inv_of_reach hr (O.inv_of_start hs hG hp)
  obtain ⟨-,q,l,-,hl,hwp⟩ := hinv
  cases q with
  | done a => exact hrely _ _ hwp hl
  | fail e => exact hrely _ _ hwp hl
  | call o k => exact hpre o _ (hwp _ hl).1

/-- A request that has ended meets the postcondition that it was verified for. -/
theorem post_of_ended {Q : Except ε α → L → Prop} {c₀ c₁ c₂ : Config W X ι ρ ε α} {req : Req}
    (hs : step I c₀ (.start x req) = some c₁) (hr : Reach (step I) (Serving ok x) c₁ c₂)
    (hend : c₂.Ended x) (hG : O.G c₁) (hp : wp O.spec (I.prog x req) Q (O.loc c₁.world)) :
    ∃ r l, Q r l ∧ O.spec.rely l (O.loc c₂.world) := by
  have hinv := O.inv_of_reach hr (O.inv_of_start hs hG hp)
  obtain ⟨-,q,l,hq,hl,hwp⟩ := hinv
  obtain ⟨p,hp',hcall⟩ := hend
  obtain rfl : p = q := Option.some.inj (hp'.symm.trans hq)
  cases p with
  | done a => exact ⟨_,l,hwp,hl⟩
  | fail e => exact ⟨_,l,hwp,hl⟩
  | call o k => exact absurd rfl (hcall o k)

end Solo

section Noting

variable {H : Type} {I : Interp W X Req C E ι ρ ε α} {note : W → X → (o : ι) → Except ε (ρ o) → H → H}

/-- The same calls, with notes that every call may add to and that none reads. -/
def Interp.noting (I : Interp W X Req C E ι ρ ε α)
    (note : W → X → (o : ι) → Except ε (ρ o) → H → H) : Interp (W × H) X Req C E ι ρ ε α where
  prog := I.prog
  begin w x req := (I.begin w.1 x req,w.2)
  exec w x o ch := match I.exec w.1 x o ch with
    | some (r,w') => some (r,(w',note w.1 x o r w.2))
    | none => none
  env w e := match I.env w.1 e with
    | some w' => some (w',w.2)
    | none => none

/-- The configuration without its notes. -/
def Config.forget (c : Config (W × H) X ι ρ ε α) : Config W X ι ρ ε α := ⟨c.world.1,c.procs⟩

omit [DecidableEq X] in
theorem exec_noting {w w' : W × H} {x : X} {o : ι} {ch : C} {r : Except ε (ρ o)}
    (h : (I.noting note).exec w x o ch = some (r,w')) :
    I.exec w.1 x o ch = some (r,w'.1) ∧ w'.2 = note w.1 x o r w.2 := by
  simp only [Interp.noting] at h
  split at h
  · rename_i r' w₁ hw
    obtain ⟨rfl,rfl⟩ := Prod.mk.inj (Option.some.inj h)
    exact ⟨hw,rfl⟩
  · cases h

omit [DecidableEq X] in
theorem env_noting {w w' : W × H} {e : E} (h : (I.noting note).env w e = some w') :
    I.env w.1 e = some w'.1 ∧ w'.2 = w.2 := by
  simp only [Interp.noting] at h
  split at h
  · rename_i w₁ hw
    obtain rfl := Option.some.inj h
    exact ⟨hw,rfl⟩
  · cases h

theorem step_forget {c c' : Config (W × H) X ι ρ ε α} {a : Act X Req C E}
    (h : step (I.noting note) c a = some c') : step I c.forget a = some c'.forget := by
  cases stepped_of_step h with
  | start hx => simp [step,Config.forget,hx,Interp.noting]
  | call hx hw => simp [step,Config.forget,hx,(exec_noting hw).1]
  | finish hx hp =>
    rename_i x p
    cases p with
    | done a => simp [step,Config.forget,hx]
    | fail e => simp [step,Config.forget,hx]
    | call o k => exact absurd rfl (hp o k)
  | env hw => simp [step,Config.forget,(env_noting hw).1]

/-- A run with notes is a run. -/
theorem reach_forget {ok : Config (W × H) X ι ρ ε α → Act X Req C E → Prop}
    {c c' : Config (W × H) X ι ρ ε α} (h : Reach (step (I.noting note)) ok c c') :
    Reach (step I) anyAct c.forget c'.forget := by
  induction h with
  | refl => exact .refl
  | next _ _ hs ih => exact ih.next trivial (step_forget hs)

/-- The configuration with notes. -/
def Config.noted (c : Config W X ι ρ ε α) (n : H) : Config (W × H) X ι ρ ε α := ⟨(c.world,n),c.procs⟩

theorem step_noted {c c' : Config W X ι ρ ε α} {a : Act X Req C E} (h : step I c a = some c') (n : H) :
    ∃ n', step (I.noting note) (c.noted n) a = some (c'.noted n') := by
  cases stepped_of_step h with
  | start hx => exact ⟨n,by simp [step,Config.noted,hx,Interp.noting]⟩
  | call hx hw =>
    rename_i x ch o k r w
    exact ⟨note c.world x o r n,by simp [step,Config.noted,hx,Interp.noting,hw]⟩
  | finish hx hp =>
    rename_i x p
    refine ⟨n,?_⟩
    cases p with
    | done a => simp [step,Config.noted,hx]
    | fail e => simp [step,Config.noted,hx]
    | call o k => exact absurd rfl (hp o k)
  | env hw => exact ⟨n,by simp [step,Config.noted,Interp.noting,hw]⟩

/-- Notes can be taken of every run. -/
theorem reach_noted {ok : Config W X ι ρ ε α → Act X Req C E → Prop} {c c' : Config W X ι ρ ε α}
    (h : Reach (step I) ok c c') (n : H) : ∃ n', Reach (step (I.noting note)) anyAct (c.noted n) (c'.noted n') := by
  induction h with
  | refl => exact ⟨n,.refl⟩
  | next _ _ hs ih =>
    obtain ⟨n₁,hn₁⟩ := ih
    obtain ⟨n₂,hn₂⟩ := step_noted hs n₁
    exact ⟨n₂,hn₁.next trivial hn₂⟩

end Noting

section Observing

variable {H : Type} {I : Interp W X Req C E ι ρ ε α} {note : W → X → (o : ι) → Except ε (ρ o) → W → H → H}

/-- The same calls, with notes that see what a call did to the world. -/
def Interp.observing (I : Interp W X Req C E ι ρ ε α)
    (note : W → X → (o : ι) → Except ε (ρ o) → W → H → H) : Interp (W × H) X Req C E ι ρ ε α where
  prog := I.prog
  begin w x req := (I.begin w.1 x req,w.2)
  exec w x o ch := match I.exec w.1 x o ch with
    | some (r,w') => some (r,(w',note w.1 x o r w' w.2))
    | none => none
  env w e := match I.env w.1 e with
    | some w' => some (w',w.2)
    | none => none

omit [DecidableEq X] in
theorem exec_observing {w w' : W × H} {x : X} {o : ι} {ch : C} {r : Except ε (ρ o)}
    (h : (I.observing note).exec w x o ch = some (r,w')) :
    I.exec w.1 x o ch = some (r,w'.1) ∧ w'.2 = note w.1 x o r w'.1 w.2 := by
  simp only [Interp.observing] at h
  split at h
  · rename_i r' w₁ hw
    obtain ⟨rfl,rfl⟩ := Prod.mk.inj (Option.some.inj h)
    exact ⟨hw,rfl⟩
  · cases h

omit [DecidableEq X] in
theorem env_observing {w w' : W × H} {e : E} (h : (I.observing note).env w e = some w') :
    I.env w.1 e = some w'.1 ∧ w'.2 = w.2 := by
  simp only [Interp.observing] at h
  split at h
  · rename_i w₁ hw
    obtain rfl := Option.some.inj h
    exact ⟨hw,rfl⟩
  · cases h

theorem step_forget_observing {c c' : Config (W × H) X ι ρ ε α} {a : Act X Req C E}
    (h : step (I.observing note) c a = some c') : step I c.forget a = some c'.forget := by
  cases stepped_of_step h with
  | start hx => simp [step,Config.forget,hx,Interp.observing]
  | call hx hw => simp [step,Config.forget,hx,(exec_observing hw).1]
  | finish hx hp =>
    rename_i x p
    cases p with
    | done a => simp [step,Config.forget,hx]
    | fail e => simp [step,Config.forget,hx]
    | call o k => exact absurd rfl (hp o k)
  | env hw => simp [step,Config.forget,(env_observing hw).1]

end Observing

end Interleaving
end Saarathi
