import Saarathi.Program

/-!
# Facts that last

A fact that neither a call nor the environment takes away stays known through
the rest of a program, whatever it raises and catches. What a call answers adds
to the facts that the calls after it may rely on.
-/

namespace Saarathi
namespace Program

open Prog

variable {ι L : Type} {ρ : ι → Type} {ε α β : Type} {S : Spec ι ρ ε L} {up : L → L → Prop}

/-- Every move, the program's own and the environment's, is along `up`. -/
structure Spec.Rises (S : Spec ι ρ ε L) (up : L → L → Prop) : Prop where
  rely : ∀ l l', S.rely l l' → up l l'
  post : ∀ o l r l', S.pre o l → S.post o l r l' → up l l'

/-- No move along `up` takes the fact away. -/
def Lasting (up : L → L → Prop) (F : L → Prop) : Prop := ∀ l l', F l → up l l' → F l'

theorem Lasting.and {F G : L → Prop} (hF : Lasting up F) (hG : Lasting up G) :
    Lasting up fun l => F l ∧ G l :=
  fun l l' h hl => ⟨hF l l' h.1 hl,hG l l' h.2 hl⟩

theorem wp_lasting (hS : S.Rises up) {F : L → Prop} (hF : Lasting up F) {p : Prog ι ρ ε α}
    {Q : Except ε α → L → Prop} {l : L} (h : wp S p Q l) (hl : F l) :
    wp S p (fun r l' => Q r l' ∧ F l') l := by
  induction p generalizing l with
  | done a => exact ⟨h,hl⟩
  | fail e => exact ⟨h,hl⟩
  | call o k ih =>
    intro l₁ h₁
    obtain ⟨hpre,hk⟩ := h l₁ h₁
    have hl₁ := hF l l₁ hl (hS.rely l l₁ h₁)
    exact ⟨hpre,fun r l₂ h₂ => ih r (hk r l₂ h₂) (hF l₁ l₂ hl₁ (hS.post o l₁ r l₂ hpre h₂))⟩

/-- Where every call may be made, nothing is asserted. -/
theorem wp_any (hpre : ∀ o l, S.pre o l) (p : Prog ι ρ ε α) (l : L) : wp S p (fun _ _ => True) l := by
  induction p generalizing l with
  | done a => trivial
  | fail e => trivial
  | call o k ih => exact fun l₁ _ => ⟨hpre o l₁,fun r l₂ _ => ih r l₂⟩

/-- From the facts, every call meets its precondition. -/
abbrev Safe (S : Spec ι ρ ε L) (F : L → Prop) (p : Prog ι ρ ε α) : Prop := Triple S F p fun _ _ => True

namespace Triple

variable {F G : L → Prop} {P P' : α → L → Prop}

theorem safe {p : Prog ι ρ ε α} (h : Triple S F p P) : Safe S F p :=
  h.mono (fun _ h => h) fun _ _ _ => trivial

theorem from_facts {p : Prog ι ρ ε α} (h : Triple S F p P) (hG : ∀ l, G l → F l) : Triple S G p P :=
  h.mono hG fun _ _ h => h

theorem done (a : α) : Safe S F (Pure.pure a : Prog ι ρ ε α) := Triple.pure fun _ _ => trivial

theorem of_all (hS : S.Rises up) (hF : Lasting up F) {p : Prog ι ρ ε α}
    (h : All (fun o => ∀ l, F l → S.pre o l) p) : Safe S F p := by
  have hkeeps : Keeps S F p := Keeps.of_all h fun o ho l hl l₁ h₁ => by
    have hl₁ := hF l l₁ hl (hS.rely l l₁ h₁)
    exact ⟨ho l₁ hl₁,fun r l₂ h₂ => hF l₁ l₂ hl₁ (hS.post o l₁ r l₂ (ho l₁ hl₁) h₂)⟩
  exact (Triple.of_keeps hkeeps).safe

/-- What the first part answers is known in the second, with all that was known before. -/
theorem andThen (hS : S.Rises up) (hF : Lasting up F) {p : Prog ι ρ ε α} {f : α → Prog ι ρ ε β}
    {Q : β → L → Prop} (hp : Triple S F p P) (hf : ∀ a, Triple S (fun l => F l ∧ P a l) (f a) Q) :
    Triple S F (p >>= f) Q := by
  intro l hl
  refine wp_bind.mpr (wp_mono (wp_lasting hS hF (hp l hl) hl) ?_)
  rintro (e | a) l' ⟨h',hl'⟩
  · rintro b ⟨⟩
  · exact hf a l' ⟨hl',h' a rfl⟩

/-- Nothing is taken from the answer of the first part. -/
theorem seq (hS : S.Rises up) (hF : Lasting up F) {p : Prog ι ρ ε α} {f : α → Prog ι ρ ε β}
    {Q : β → L → Prop} (hp : Safe S F p) (hf : ∀ a, Triple S F (f a) Q) : Triple S F (p >>= f) Q :=
  hp.andThen hS hF fun a => (hf a).from_facts fun _ h => h.1

theorem attempt {p : Prog ι ρ ε α} (hp : Triple S F p P) :
    Triple S F p.attempt fun r l => ∀ a, r = .ok a → P a l := by
  intro l hl
  refine wp_attempt.mpr (wp_mono (hp l hl) ?_)
  rintro r l' h' b ⟨⟩
  exact h'

theorem catching (hS : S.Rises up) (hF : Lasting up F) {p : Prog ι ρ ε α} {h : ε → Prog ι ρ ε α}
    (hp : Triple S F p P) (hh : ∀ e, Triple S F (h e) P) : Triple S F (tryCatch p h) P := by
  intro l hl
  refine wp_catching.mpr (wp_mono (wp_lasting hS hF (hp l hl) hl) ?_)
  rintro (e | a) l' ⟨h',hl'⟩
  · exact hh e l' hl'
  · exact h'

theorem ensuring (hS : S.Rises up) (hF : Lasting up F) (hP : ∀ a, Lasting up (P a)) {p : Prog ι ρ ε α}
    {fin : Prog ι ρ ε Unit} (hp : Triple S F p P) (hfin : Safe S F fin) : Triple S F (p.ensuring fin) P := by
  have hsettle : ∀ r : Except ε α, Triple S (fun l => F l ∧ ∀ a, r = .ok a → P a l) (settle r) P := by
    rintro (e | a) l ⟨-,h⟩
    · rintro b ⟨⟩
    · rintro b ⟨⟩
      exact h a rfl
  refine hp.attempt.andThen hS hF fun r => ?_
  have hlast : Lasting up fun l => ∀ a, r = .ok a → P a l := fun l l' h hl a ha => hP a l l' (h a ha) hl
  exact Triple.seq hS (hF.and hlast) (hfin.from_facts fun _ h => h.1) fun _ => hsettle r

end Triple

end Program
end Saarathi
