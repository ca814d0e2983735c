import Mathlib.Data.List.Nodup
import Mathlib.Data.List.Perm.Basic
import Mathlib.Logic.Function.Basic
import Mathlib.Tactic.Common

/-!
# Things that pass through one hand

Processes obtain things and write them into a store, each in a transaction of
its own. Where what a process obtains is nobody else's and not written yet, and
no process writes twice what it has in hand, the store never has a thing twice.
-/

namespace Saarathi
namespace Custody

/-- What a process has in hand, under a label, and whether it has written it. -/
structure Hand (A T : Type) where
  things : List T
  label : A
  written : Bool := false

/-- The hands of the processes, what is in them and not yet written, what open transactions have written
and what has been committed. -/
structure State (X A T : Type) where
  hand : X → Option (Hand A T) := fun _ => none
  held : List (X × T) := []
  pending : List (X × T) := []
  stored : List T := []

inductive Effect (A T : Type) where
  | obtains (things : List T) (label : A)
  | writes
  | commits
  | loses
  | drops
  | leaves
  | nothing

/-- The things that an effect obtains. -/
def Effect.obtained {A T : Type} : Effect A T → List T
  | .obtains things _ => things
  | _ => []

variable {X A T : Type} [DecidableEq X]

/-- The entries of the other processes. -/
def others (x : X) (ps : List (X × T)) : List (X × T) := ps.filter fun p => p.1 ≠ x

/-- The things of one process. -/
def ofOne (x : X) (ps : List (X × T)) : List T := (ps.filter fun p => p.1 = x).map (·.2)

namespace Hand

/-- What a hand still has to write. -/
def unwritten : Option (Hand A T) → List T
  | some h => if h.written then [] else h.things
  | none => []

def after (h : Option (Hand A T)) : Effect A T → Option (Hand A T)
  | .obtains things label => some { things := things, label := label }
  | .writes => h.map fun h => { h with written := true }
  | .drops => none
  | .leaves => none
  | _ => h

end Hand

namespace State

/-- What an effect of process `x` makes of the hands and of the store. -/
def after (s : State X A T) (x : X) (e : Effect A T) : State X A T where
  hand := Function.update s.hand x (Hand.after (s.hand x) e)
  held := match e with
    | .obtains things _ => others x s.held ++ things.map (x,·)
    | .writes => others x s.held
    | .drops => others x s.held
    | .leaves => others x s.held
    | _ => s.held
  pending := match e with
    | .writes => s.pending ++ ((s.hand x).elim [] Hand.things).map (x,·)
    | .commits => others x s.pending
    | .loses => others x s.pending
    | .leaves => others x s.pending
    | _ => s.pending
  stored := match e with
    | .commits => s.stored ++ ofOne x s.pending
    | _ => s.stored

/-- Everything that has been obtained and not lost. -/
def all (s : State X A T) : List T := s.stored ++ s.pending.map (·.2) ++ s.held.map (·.2)

/-- What is obtained is no one else's and has not been written; what is written is written for the first time. -/
def Allows (s : State X A T) (x : X) : Effect A T → Prop
  | .obtains things _ => things.Nodup ∧ ∀ t ∈ things, t ∉ s.stored ∧ t ∉ s.pending.map (·.2) ∧
      ∀ p ∈ s.held, p.1 ≠ x → p.2 ≠ t
  | .writes => ∀ h, s.hand x = some h → h.written = false
  | _ => True

/-- Nothing is there twice, and the hands are what the processes hold. -/
structure Sound (s : State X A T) : Prop where
  nodup : s.all.Nodup
  held : ∀ x, ofOne x s.held = Hand.unwritten (s.hand x)

end State

section Entries

variable {x y : X} {ps qs : List (X × T)} {ts : List T}

theorem others_sublist : (others x ps).Sublist ps := List.filter_sublist

theorem ofOne_append : ofOne x (ps ++ qs) = ofOne x ps ++ ofOne x qs := by simp [ofOne]

theorem ofOne_others_self : ofOne x (others x ps) = [] := by
  simp only [ofOne,others,List.filter_filter,List.map_eq_nil_iff,List.filter_eq_nil_iff]
  simp

theorem ofOne_others_of_ne (h : y ≠ x) : ofOne y (others x ps) = ofOne y ps := by
  unfold ofOne others
  rw [List.filter_filter]
  congr 2
  funext p
  by_cases hp : p.1 = y
  · simp [hp,h]
  · simp [hp]

theorem ofOne_map_self : ofOne x (ts.map (x,·)) = ts := by
  unfold ofOne
  rw [List.filter_eq_self.mpr (by simp),List.map_map]
  exact List.map_id' ts

theorem ofOne_map_of_ne (h : y ≠ x) : ofOne y (ts.map (x,·)) = [] := by
  simp only [ofOne,List.map_eq_nil_iff,List.filter_eq_nil_iff]
  intro p hp
  obtain ⟨t,-,rfl⟩ := List.mem_map.mp hp
  simpa using h.symm

/-- One process's entries, and the rest. -/
theorem perm_ofOne (x : X) (ps : List (X × T)) : (ofOne x ps ++ (others x ps).map (·.2)).Perm (ps.map (·.2)) := by
  have h : (ps.filter (fun p => p.1 = x) ++ ps.filter (fun p => !decide (p.1 = x))).Perm ps :=
    List.filter_append_perm _ ps
  have hmap := h.map (·.2)
  simpa [ofOne,others] using hmap

omit [DecidableEq X] in
theorem map_snd_map : (ts.map (x,·)).map (·.2) = ts := by
  rw [List.map_map]
  exact List.map_id' ts

end Entries

namespace State

variable {s : State X A T} {x : X} {e : Effect A T}

theorem all_others_sublist : (s.stored ++ s.pending.map (·.2) ++ (others x s.held).map (·.2)).Sublist s.all :=
  (List.Sublist.refl _).append (others_sublist.map _)

/-- What is written moves from the hand to the transaction. -/
theorem all_writes (hs : s.Sound) {h : Hand A T} (hh : s.hand x = some h) (hw : h.written = false) :
    (s.after x .writes).all.Perm s.all := by
  have hheld : ofOne x s.held = h.things := by
    rw [hs.held x,hh]
    simp [Hand.unwritten,hw]
  have hsplit := perm_ofOne x s.held
  rw [hheld] at hsplit
  simp only [all,after,hh,Option.elim_some,List.map_append,map_snd_map,List.append_assoc]
  exact ((hsplit.append_left _).append_left _)

/-- What is committed moves from the transaction to the store. -/
theorem all_commits : (s.after x .commits).all.Perm s.all := by
  have hsplit := perm_ofOne x s.pending
  simp only [all,after,List.append_assoc]
  refine List.Perm.append_left _ ?_
  rw [← List.append_assoc]
  exact hsplit.append_right _

theorem all_after_sublist (hs : s.Sound) (he : s.Allows x e) (ho : e.obtained = []) :
    ∃ ts, (s.after x e).all.Perm ts ∧ ts.Sublist s.all := by
  have hpending : ∀ {ps qs : List (X × T)}, ps.Sublist s.pending → qs.Sublist s.held →
      (s.stored ++ ps.map (·.2) ++ qs.map (·.2)).Sublist s.all := fun hp hq =>
    ((List.Sublist.refl _).append (hp.map _)).append (hq.map _)
  cases e with
  | obtains things label =>
    obtain rfl : things = [] := ho
    refine ⟨_,.refl _,?_⟩
    simpa [all,after] using all_others_sublist (s := s) (x := x)
  | writes =>
    cases hh : s.hand x with
    | none =>
      refine ⟨_,.refl _,?_⟩
      simpa [all,after,hh] using all_others_sublist (s := s) (x := x)
    | some h => exact ⟨_,all_writes hs hh (he h hh),.refl _⟩
  | commits => exact ⟨_,all_commits,.refl _⟩
  | loses => exact ⟨_,.refl _,hpending others_sublist (.refl _)⟩
  | drops => exact ⟨_,.refl _,hpending (.refl _) others_sublist⟩
  | leaves => exact ⟨_,.refl _,hpending others_sublist others_sublist⟩
  | nothing => exact ⟨_,.refl _,.refl _⟩

/-- What an effect leaves was there before, or it was obtained. -/
theorem mem_all_after (hs : s.Sound) (he : s.Allows x e) {t : T} (ht : t ∈ (s.after x e).all) :
    t ∈ s.all ∨ t ∈ e.obtained := by
  by_cases ho : e.obtained = []
  · obtain ⟨ts,hperm,hsub⟩ := all_after_sublist hs he ho
    exact .inl (hsub.subset (hperm.mem_iff.mp ht))
  · cases e with
    | obtains things label =>
      simp only [all,after,List.map_append,map_snd_map] at ht
      rw [← List.append_assoc] at ht
      rcases List.mem_append.mp ht with ht | ht
      · exact .inl (all_others_sublist.subset ht)
      · exact .inr ht
    | _ => exact absurd rfl ho

theorem nodup_after (hs : s.Sound) (he : s.Allows x e) : (s.after x e).all.Nodup := by
  by_cases ho : e.obtained = []
  · obtain ⟨ts,hperm,hsub⟩ := all_after_sublist hs he ho
    exact hperm.nodup_iff.mpr (hs.nodup.sublist hsub)
  · cases e with
    | obtains things label =>
      obtain ⟨hnodup,hfresh⟩ := he
      simp only [all,after,List.map_append,map_snd_map]
      rw [← List.append_assoc]
      refine List.nodup_append.mpr ⟨hs.nodup.sublist all_others_sublist,hnodup,?_⟩
      rintro t ht t' ht' rfl
      obtain ⟨hstored,hpending,hheld⟩ := hfresh t ht'
      rcases List.mem_append.mp ht with ht | ht
      · rcases List.mem_append.mp ht with ht | ht
        · exact hstored ht
        · exact hpending ht
      · obtain ⟨p,hp,rfl⟩ := List.mem_map.mp ht
        obtain ⟨hp,hne⟩ := List.mem_filter.mp hp
        exact hheld p hp (of_decide_eq_true hne) rfl
    | _ => exact absurd rfl ho

/-- Each process holds what its hand still has to write. -/
theorem held_after (hs : s.Sound) (y : X) : ofOne y (s.after x e).held = Hand.unwritten ((s.after x e).hand y) := by
  by_cases hy : y = x
  · subst hy
    have hhand : (s.after y e).hand y = Hand.after (s.hand y) e := by simp [after]
    rw [hhand]
    have hheld := hs.held y
    cases e with
    | obtains things label =>
      simp only [after,ofOne_append,ofOne_others_self,ofOne_map_self,Hand.after,Hand.unwritten]
      rfl
    | writes =>
      simp only [after,ofOne_others_self,Hand.after]
      cases s.hand y <;> rfl
    | commits => exact hheld
    | loses => exact hheld
    | drops => exact ofOne_others_self
    | leaves => exact ofOne_others_self
    | nothing => exact hheld
  · have hhand : (s.after x e).hand y = s.hand y := by simp [after,Function.update_of_ne hy]
    rw [hhand,← hs.held y]
    cases e with
    | obtains things label =>
      simp only [after,ofOne_append,ofOne_others_of_ne hy,ofOne_map_of_ne hy,List.append_nil]
    | writes => exact ofOne_others_of_ne hy
    | commits => rfl
    | loses => rfl
    | drops => exact ofOne_others_of_ne hy
    | leaves => exact ofOne_others_of_ne hy
    | nothing => rfl

/-- An effect that is allowed leaves nothing twice. -/
theorem Sound.after (hs : s.Sound) (he : s.Allows x e) : (s.after x e).Sound :=
  ⟨nodup_after hs he,held_after hs⟩

theorem sound_empty : ({} : State X A T).Sound := ⟨List.nodup_nil,fun _ => rfl⟩

end State

end Custody
end Saarathi
