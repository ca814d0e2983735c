import Saarathi.ReadCommitted
import Mathlib.Data.List.Pairwise
import Mathlib.Data.List.Perm.Lattice

/-!
# Numbered rows

A parent row counts its children, and each child carries a number. To add a
child a transaction first raises the count, which locks the parent, and then
inserts the child with the new count as its number; in between it owes the
number. The invariant is kept by every commit and every rollback, and it says
that the children have the numbers from 1 to the count.
-/

namespace Saarathi
namespace ReadCommitted

/-- The numbers from 1 to `total` are held by one key each, but for the one that is owed. -/
structure Tally (total : ℕ) (owed : Option ℕ) (f : ℕ → Option ℕ) : Prop where
  once : ∀ k k' n, f k = some n → f k' = some n → k = k'
  mem : ∀ n, (∃ k, f k = some n) ↔ 0 < n ∧ n ≤ total ∧ owed ≠ some n

namespace Tally

variable {total : ℕ} {owed : Option ℕ} {f g : ℕ → Option ℕ}

theorem congr (h : Tally total owed f) (hfg : ∀ k, g k = f k) : Tally total owed g := by
  have hg : g = f := funext hfg
  rw [hg]
  exact h

/-- The next number is taken, and owed. -/
theorem take (h : Tally total none f) : Tally (total + 1) (some (total + 1)) f where
  once := h.once
  mem n := by
    rw [h.mem]
    simp only [ne_eq,Option.some.injEq,reduceCtorEq,not_false_eq_true,and_true]
    omega

/-- The owed number is held by a new key. -/
theorem give {k n : ℕ} (h : Tally total (some n) f) (hk : f k = none) (hpos : 0 < n) (hle : n ≤ total) :
    Tally total none (Function.update f k (some n)) where
  once k₁ k₂ m h₁ h₂ := by
    have hno : ∀ k', f k' ≠ some n := fun k' hk' => ((h.mem n).mp ⟨k',hk'⟩).2.2 rfl
    by_cases hk₁ : k₁ = k
    · subst hk₁
      obtain rfl : n = m := by simpa using h₁
      by_cases hk₂ : k₂ = k₁
      · exact hk₂.symm
      · rw [Function.update_of_ne hk₂] at h₂
        exact absurd h₂ (hno k₂)
    · rw [Function.update_of_ne hk₁] at h₁
      by_cases hk₂ : k₂ = k
      · subst hk₂
        obtain rfl : n = m := by simpa using h₂
        exact absurd h₁ (hno k₁)
      · rw [Function.update_of_ne hk₂] at h₂
        exact h.once k₁ k₂ m h₁ h₂
  mem m := by
    constructor
    · rintro ⟨k',hk'⟩
      by_cases hkk : k' = k
      · subst hkk
        obtain rfl : n = m := by simpa using hk'
        exact ⟨hpos,hle,by simp⟩
      · rw [Function.update_of_ne hkk] at hk'
        obtain ⟨h₁,h₂,-⟩ := (h.mem m).mp ⟨k',hk'⟩
        exact ⟨h₁,h₂,by simp⟩
    · rintro ⟨h₁,h₂,-⟩
      by_cases hm : n = m
      · exact ⟨k,by rw [Function.update_self,hm]⟩
      · obtain ⟨k',hk'⟩ := (h.mem m).mpr ⟨h₁,h₂,by simpa using hm⟩
        have hkk : k' ≠ k := by
          rintro rfl
          rw [hk] at hk'
          cases hk'
        exact ⟨k',by rw [Function.update_of_ne hkk,hk']⟩

/-- Listed over keys that hold all of them, the numbers are those from 1 to `total`. -/
theorem perm {ks : List ℕ} (h : Tally total none f) (hks : ks.Nodup) (hmem : ∀ k n, f k = some n → k ∈ ks) :
    (ks.filterMap f).Perm (List.range' 1 total) := by
  refine (List.perm_ext_iff_of_nodup ?_ List.nodup_range').mpr fun n => ?_
  · exact hks.filterMap fun k k' n hk hk' => h.once k k' n hk hk'
  · rw [List.mem_filterMap,List.mem_range'_1]
    constructor
    · rintro ⟨k,-,hk⟩
      obtain ⟨h₁,h₂,-⟩ := (h.mem n).mp ⟨k,hk⟩
      omega
    · intro hn
      obtain ⟨k,hk⟩ := (h.mem n).mpr ⟨by omega,by omega,by simp⟩
      exact ⟨k,hmem k n hk,hk⟩

/-- Numbers that list as those from 1 to `total` are held by one key each. -/
theorem of_perm {ks : List ℕ} (h : (ks.filterMap f).Perm (List.range' 1 total))
    (hmem : ∀ k n, f k = some n → k ∈ ks) : Tally total none f where
  once k k' n hk hk' := by
    by_contra hne
    have hnodup : (ks.filterMap f).Nodup := h.nodup_iff.mpr List.nodup_range'
    have hpair := List.pairwise_filterMap.mp hnodup
    have hsymm : Std.Symm fun a b => ∀ m, f a = some m → ∀ m', f b = some m' → m ≠ m' :=
      ⟨fun a b hab m hm m' hm' => (hab m' hm' m hm).symm⟩
    exact hpair.forall (hmem k n hk) (hmem k' n hk') hne n hk n hk' rfl
  mem n := by
    have hiff := h.mem_iff (a := n)
    rw [List.mem_filterMap,List.mem_range'_1] at hiff
    constructor
    · rintro ⟨k,hk⟩
      have hn := hiff.mp ⟨k,hmem k n hk,hk⟩
      exact ⟨by omega,by omega,by simp⟩
    · rintro ⟨hpos,hle,-⟩
      obtain ⟨k,-,hk⟩ := hiff.mpr ⟨by omega,by omega⟩
      exact ⟨k,hk⟩

end Tally

/-- How parents count and children are numbered. -/
structure Numbering (V U : Type) where
  count : V → ℕ
  parent : U → ℕ
  number : U → ℕ

variable {X V U : Type} [DecidableEq X]

namespace Numbering

variable (N : Numbering V U)

/-- What a parent has counted. -/
def total (o : Option V) : ℕ := o.elim 0 N.count

/-- A child's number within the parent at `c`. -/
def numberIn (c : ℕ) (o : Option U) : Option ℕ := o.bind fun u => if N.parent u = c then some (N.number u) else none

/-- The number that is owed to the parent at `c`. -/
def owedAt (owed : Option (ℕ × ℕ)) (c : ℕ) : Option ℕ := owed.bind fun p => if p.1 = c then some p.2 else none

@[simp] theorem total_none : N.total none = 0 := rfl
@[simp] theorem total_some (v : V) : N.total (some v) = N.count v := rfl
@[simp] theorem numberIn_none (c : ℕ) : N.numberIn c none = none := rfl
@[simp] theorem owedAt_none (c : ℕ) : owedAt none c = none := rfl
@[simp] theorem owedAt_self (c n : ℕ) : owedAt (some (c,n)) c = some n := by simp [owedAt]

theorem numberIn_self (u : U) : N.numberIn (N.parent u) (some u) = some (N.number u) := by simp [numberIn]

theorem numberIn_of_ne {c : ℕ} {u : U} (h : N.parent u ≠ c) : N.numberIn c (some u) = none := by simp [numberIn,h]

theorem owedAt_of_ne {c c' n : ℕ} (h : c' ≠ c) : owedAt (some (c',n)) c = none := by simp [owedAt,h]

end Numbering

open Numbering

/-- A version of the row at `k`, committed or not. -/
def Table.Version (t : Table X U) (k : ℕ) (u : U) : Prop :=
  (t.row k).committed = some u ∨ ∃ x, (t.row k).dirty = some (x,u)

namespace Table

variable {K : Constraints U} {T : ℕ → Option U → U → Prop} {t t' : Table X U} {x : X} {k : ℕ} {u : U}

omit [DecidableEq X] in
theorem version_put {k' : ℕ} {u' : U} (h : (t.put x k' u').Version k u) : t.Version k u ∨ k = k' ∧ u = u' := by
  by_cases hk : k = k'
  · subst hk
    rw [Version,row_put_self,Row.put_committed,Row.put_dirty] at h
    rcases h with h | ⟨y,h⟩
    · exact .inl (.inl h)
    · exact .inr ⟨rfl,(Prod.mk.inj (Option.some.inj h)).2.symm⟩
  · rw [Version,row_put_of_ne x t u' hk] at h
    exact .inl h

theorem Wrote.version (h : Wrote K T x t t') (hu : t'.Version k u) : t.Version k u ∨ ∃ o, T k o u := by
  induction h with
  | refl => exact .inl hu
  | put _ _ hT ih =>
    rcases version_put hu with hu | ⟨rfl,rfl⟩
    · exact ih hu
    · exact .inr ⟨_,hT⟩

/-- A call leaves no version that was not there and that it has not written. -/
theorem Move.version (h : Move K T x t t') (hu : t'.Version k u) : t.Version k u ∨ ∃ o, T k o u := by
  cases h with
  | wrote hw => exact hw.version hu
  | commit =>
    rcases hu with hu | ⟨y,hu⟩
    · have hview : t.view x k = some u := (committed_commit x t k).symm.trans hu
      rcases Row.dirty_or x (t.row k) with ⟨v,hv⟩ | hv
      · rw [view,Row.view_of_dirty hv] at hview
        obtain rfl := Option.some.inj hview
        exact .inl (.inr ⟨x,hv⟩)
      · rw [view,Row.view_of_not_dirty hv] at hview
        exact .inl (.inl hview)
    · exact .inl (.inr ⟨y,(Row.commit_dirty hu).1⟩)
  | rollback =>
    rcases hu with hu | ⟨y,hu⟩
    · exact .inl (.inl ((committed_rollback x t k).symm.trans hu))
    · exact .inl (.inr ⟨y,(Row.rollback_dirty hu).1⟩)

/-- A key stays in the table. -/
theorem Move.mem_keys (h : Move K T x t t') (hk : k ∈ t.keys) : k ∈ t'.keys := by
  cases h with
  | wrote hw =>
    induction hw with
    | refl => exact hk
    | put _ _ _ ih =>
      simp only [Table.put,setRow]
      split
      · exact ih
      · exact List.mem_append_left _ ih
  | commit => exact hk
  | rollback => exact hk

/-- A version of the writer's own, after writes that leave the counts alone. -/
theorem Wrote.count_of_dirty {N : Numbering V U} {P P' : Table X V} {K : Constraints V} {v : V}
    (h : Wrote K (fun _ o v => N.count v = N.total o) x P P') (hd : (P.row k).dirty = some (x,v)) :
    ∃ v', (P'.row k).dirty = some (x,v') ∧ N.count v' = N.count v := by
  induction h with
  | refl => exact ⟨v,hd,rfl⟩
  | put _ _ hcount ih =>
    rename_i t k' v' _ _
    obtain ⟨w,hw,hv⟩ := ih
    by_cases hk : k = k'
    · subst hk
      have hview : t.view x k = some w := Row.view_of_dirty hw
      rw [hview,Numbering.total_some] at hcount
      exact ⟨v',by rw [row_put_self,Row.put_dirty],hcount.trans hv⟩
    · exact ⟨w,by rw [row_put_of_ne x t v' hk,hw],hv⟩

/-- Writes that cannot be. -/
theorem Wrote.eq (h : Wrote K T x t t') (hT : ∀ k o v, ¬ T k o v) : t' = t := by
  induction h with
  | refl => rfl
  | put _ _ hv _ => exact absurd hv (hT _ _ _)

end Table

/-- Of two children of one parent, the first has the smaller number in every version. -/
def Numbering.Before (N : Numbering V U) (C : Table X U) (k k' : ℕ) : Prop :=
  ∀ u u', C.Version k u → C.Version k' u' → N.parent u = N.parent u' → N.number u < N.number u'

omit [DecidableEq X] in
theorem Numbering.Before.of_versions {N : Numbering V U} {C C' : Table X U} {k k' : ℕ} (h : N.Before C k k')
    (hk : ∀ u, C'.Version k u → C.Version k u) (hk' : ∀ u, C'.Version k' u → C.Version k' u) : N.Before C' k k' :=
  fun u u' hu hu' hp => h u u' (hk u hu) (hk' u' hu') hp

/-- In the committed state and in every transaction's own, the children have the numbers from 1 to
their parent's count; a transaction that adds a child holds the parent's lock. -/
structure Numbered (N : Numbering V U) (P : Table X V) (C : Table X U) (owed : X → Option (ℕ × ℕ)) : Prop where
  committed : ∀ c, Tally (N.total (P.committed c)) none fun k => N.numberIn c (C.committed k)
  view : ∀ x c, Tally (N.total (P.view x c)) (owedAt (owed x) c) fun k => N.numberIn c (C.view x k)
  held : ∀ x k u, (C.row k).dirty = some (x,u) → ∃ v, (P.row (N.parent u)).dirty = some (x,v)
  fresh : ∀ x k u, (C.row k).dirty = some (x,u) → (C.row k).committed = none
  owes : ∀ x c n, owed x = some (c,n) → 0 < n ∧ ∃ v, (P.row c).dirty = some (x,v) ∧ N.count v = n

namespace Numbered

variable {N : Numbering V U} {P P' : Table X V} {C : Table X U} {owed : X → Option (ℕ × ℕ)} {x : X}

/-- No transaction is open, and nothing is owed. -/
theorem of_clean (hC : ∀ k, (C.row k).dirty = none) (hP : ∀ k, (P.row k).dirty = none)
    (h : ∀ c, Tally (N.total (P.committed c)) none fun k => N.numberIn c (C.committed k)) :
    Numbered N P C fun _ => none where
  committed := h
  view x c := by
    have hPv : P.view x c = P.committed c := Row.view_of_not_dirty fun v hv => by simp [hP c] at hv
    have hCv : ∀ k, C.view x k = C.committed k := fun k => Row.view_of_not_dirty fun v hv => by simp [hC k] at hv
    rw [hPv]
    exact (h c).congr fun k => by rw [hCv]
  held x k u hd := by simp [hC k] at hd
  fresh x k u hd := by simp [hC k] at hd
  owes x c n ho := by cases ho

/-- A version of a parent's row, with what the writer's tallies become. -/
theorem put_parent {k : ℕ} {v : V} {owed' : Option (ℕ × ℕ)} (h : Numbered N P C owed)
    (hl : (P.row k).lockedFor x = false)
    (htally : ∀ c, Tally (N.total ((P.put x k v).view x c)) (owedAt owed' c) fun k => N.numberIn c (C.view x k))
    (howes : ∀ c n, owed' = some (c,n) →
      0 < n ∧ ∃ w, ((P.put x k v).row c).dirty = some (x,w) ∧ N.count w = n) :
    Numbered N (P.put x k v) C (Function.update owed x owed') where
  committed c := by
    rw [Table.committed_put]
    exact h.committed c
  view y c := by
    by_cases hy : y = x
    · subst hy
      rw [Function.update_self]
      exact htally c
    · rw [Function.update_of_ne hy,Table.view_put_of_owner_ne hl hy]
      exact h.view y c
  held y k' u hd := by
    obtain ⟨w,hw⟩ := h.held y k' u hd
    by_cases hk : N.parent u = k
    · rw [hk] at hw ⊢
      obtain rfl := Row.lockedFor_eq_false.mp hl y w hw
      exact ⟨v,by rw [Table.row_put_self,Row.put_dirty]⟩
    · exact ⟨w,by rw [Table.row_put_of_ne x P v hk,hw]⟩
  fresh := h.fresh
  owes y c n ho := by
    by_cases hy : y = x
    · subst hy
      rw [Function.update_self] at ho
      exact howes c n ho
    · rw [Function.update_of_ne hy] at ho
      obtain ⟨hpos,w,hw,hn⟩ := h.owes y c n ho
      by_cases hc : c = k
      · subst hc
        exact absurd (Row.lockedFor_eq_false.mp hl y w hw) hy
      · exact ⟨hpos,w,by rw [Table.row_put_of_ne x P v hc,hw],hn⟩

/-- A write that leaves the parent's count alone. -/
theorem keep_put {k : ℕ} {v : V} (h : Numbered N P C owed) (hl : (P.row k).lockedFor x = false)
    (hv : N.count v = N.total (P.view x k)) : Numbered N (P.put x k v) C owed := by
  have hself : Function.update owed x (owed x) = owed := Function.update_eq_self x owed
  rw [← hself]
  refine h.put_parent hl (fun c => ?_) fun c n ho => ?_
  · by_cases hc : c = k
    · subst hc
      rw [Table.view_put_self,total_some,hv]
      exact h.view x c
    · rw [Table.view_put_of_ne x P v x hc]
      exact h.view x c
  · obtain ⟨hpos,w,hw,hn⟩ := h.owes x c n ho
    by_cases hc : c = k
    · subst hc
      have hview : P.view x c = some w := Row.view_of_dirty hw
      exact ⟨hpos,v,by rw [Table.row_put_self,Row.put_dirty],by rw [hv,hview,total_some,hn]⟩
    · exact ⟨hpos,w,by rw [Table.row_put_of_ne x P v hc,hw],hn⟩

/-- Writes that leave the counts alone. -/
theorem keep {K : Constraints V} (h : Numbered N P C owed)
    (hw : Table.Wrote K (fun _ o v => N.count v = N.total o) x P P') : Numbered N P' C owed := by
  induction hw with
  | refl => exact h
  | put _ hw hv ih => exact ih.keep_put hw.lock hv

/-- The count is raised, and the new number is owed. -/
theorem take {k : ℕ} {v : V} (h : Numbered N P C owed) (hl : (P.row k).lockedFor x = false) (ho : owed x = none)
    (hv : N.count v = N.total (P.view x k) + 1) :
    Numbered N (P.put x k v) C (Function.update owed x (some (k,N.count v))) := by
  refine h.put_parent hl (fun c => ?_) fun c n ho => ?_
  · have hbefore := h.view x c
    rw [ho,owedAt_none] at hbefore
    by_cases hc : c = k
    · subst hc
      rw [Table.view_put_self,total_some,owedAt_self,hv]
      exact hbefore.take
    · rw [Table.view_put_of_ne x P v x hc,owedAt_of_ne (Ne.symm hc)]
      exact hbefore
  · obtain ⟨rfl,rfl⟩ := Prod.mk.inj (Option.some.inj ho)
    exact ⟨by omega,v,by rw [Table.row_put_self,Row.put_dirty],rfl⟩

omit [DecidableEq X] in
/-- A row whose key the table does not have. -/
theorem row_of_not_mem {k : ℕ} (hk : k ∉ C.keys) : C.row k = {} := by
  by_contra hne
  exact hk (C.mem_keys k hne)

/-- A child with the owed number. -/
theorem give {k : ℕ} {u : U} (h : Numbered N P C owed) (hk : k ∉ C.keys)
    (ho : owed x = some (N.parent u,N.number u)) :
    Numbered N P (C.put x k u) (Function.update owed x none) := by
  have hrow : C.row k = {} := row_of_not_mem hk
  have hl : (C.row k).lockedFor x = false := by
    rw [hrow]
    rfl
  have hnone : ∀ y, C.view y k = none := fun y => by
    rw [Table.view,hrow]
    rfl
  obtain ⟨hpos,v,hv,hn⟩ := h.owes x _ _ ho
  have hcount : N.total (P.view x (N.parent u)) = N.number u := by
    have hview : P.view x (N.parent u) = some v := Row.view_of_dirty hv
    rw [hview,total_some,hn]
  refine ⟨fun c => ?_,fun y c => ?_,fun y k' u' hd => ?_,fun y k' u' hd => ?_,fun y c n ho' => ?_⟩
  · exact (h.committed c).congr fun k' => by rw [Table.committed_put]
  · by_cases hy : y = x
    · subst hy
      have hbefore := h.view y c
      rw [ho] at hbefore
      rw [Function.update_self,owedAt_none]
      by_cases hc : N.parent u = c
      · subst hc
        rw [owedAt_self] at hbefore
        refine (hbefore.give (k := k) ?_ hpos (Nat.le_of_eq hcount.symm)).congr fun k' => ?_
        · rw [hnone,numberIn_none]
        · by_cases hk' : k' = k
          · subst hk'
            rw [Function.update_self,Table.view_put_self,numberIn_self]
          · rw [Function.update_of_ne hk',Table.view_put_of_ne y C u y hk']
      · rw [owedAt_of_ne hc] at hbefore
        refine hbefore.congr fun k' => ?_
        by_cases hk' : k' = k
        · subst hk'
          rw [Table.view_put_self,numberIn_of_ne N hc,hnone,numberIn_none]
        · rw [Table.view_put_of_ne y C u y hk']
    · rw [Function.update_of_ne hy]
      exact (h.view y c).congr fun k' => by rw [Table.view_put_of_owner_ne hl hy]
  · by_cases hk' : k' = k
    · subst hk'
      rw [Table.row_put_self,Row.put_dirty] at hd
      obtain ⟨rfl,rfl⟩ := Prod.mk.inj (Option.some.inj hd)
      exact ⟨v,hv⟩
    · rw [Table.row_put_of_ne x C u hk'] at hd
      exact h.held y k' u' hd
  · by_cases hk' : k' = k
    · subst hk'
      rw [Table.row_put_self,Row.put_committed,hrow]
    · rw [Table.row_put_of_ne x C u hk'] at hd ⊢
      exact h.fresh y k' u' hd
  · by_cases hy : y = x
    · subst hy
      rw [Function.update_self] at ho'
      cases ho'
    · rw [Function.update_of_ne hy] at ho'
      exact h.owes y c n ho'

/-- Where `x` has written the parent, its commit shows everybody the children that `x` sees. -/
theorem numberIn_commit {y : X} {c : ℕ} {v : V} (h : Numbered N P C owed) (hy : y ≠ x)
    (hv : (P.row c).dirty = some (x,v)) (k : ℕ) :
    N.numberIn c ((C.commit x).view y k) = N.numberIn c (C.view x k) := by
  rcases Row.dirty_or x (C.row k) with ⟨u,hu⟩ | hu
  · have hx : C.view x k = some u := Row.view_of_dirty hu
    have hC : (C.commit x).view y k = some u := by
      simp [Table.view,Row.commit_of_dirty hu,Row.view]
    rw [hx,hC]
  · have hx : C.view x k = C.committed k := Row.view_of_not_dirty hu
    have hC : (C.commit x).view y k = C.view y k := by
      simp [Table.view,Row.commit_of_not_dirty hu]
    rw [hx,hC]
    rcases Row.dirty_or y (C.row k) with ⟨u,hu'⟩ | hu'
    · have hy' : C.view y k = some u := Row.view_of_dirty hu'
      have hfresh : C.committed k = none := h.fresh y k u hu'
      obtain ⟨w,hw⟩ := h.held y k u hu'
      have hne : N.parent u ≠ c := by
        rintro rfl
        exact Row.not_dirty_of_ne hv hy.symm w hw
      rw [hy',hfresh,numberIn_of_ne N hne,numberIn_none]
    · have hy' : C.view y k = C.committed k := Row.view_of_not_dirty hu'
      rw [hy']

/-- Where `x` has not written the parent, its commit shows nobody a child of it. -/
theorem numberIn_commit_of_not_dirty {y : X} {c : ℕ} (h : Numbered N P C owed) (hy : y ≠ x)
    (hv : ∀ v, (P.row c).dirty ≠ some (x,v)) (k : ℕ) :
    N.numberIn c ((C.commit x).view y k) = N.numberIn c (C.view y k) := by
  rcases Row.dirty_or x (C.row k) with ⟨u,hu⟩ | hu
  · have hC : (C.commit x).view y k = some u := by
      simp [Table.view,Row.commit_of_dirty hu,Row.view]
    have hyv : C.view y k = C.committed k := Row.view_of_not_dirty (Row.not_dirty_of_ne hu hy.symm)
    have hfresh : C.committed k = none := h.fresh x k u hu
    obtain ⟨w,hw⟩ := h.held x k u hu
    have hne : N.parent u ≠ c := by
      rintro rfl
      exact hv w hw
    rw [hC,hyv,hfresh,numberIn_of_ne N hne,numberIn_none]
  · simp [Table.view,Row.commit_of_not_dirty hu]

/-- The transaction owes nothing: its versions become everybody's. -/
theorem commit (h : Numbered N P C owed) (ho : owed x = none) : Numbered N (P.commit x) (C.commit x) owed := by
  have hown : ∀ c, Tally (N.total (P.view x c)) none fun k => N.numberIn c (C.view x k) := fun c => by
    have hx := h.view x c
    rwa [ho,owedAt_none] at hx
  refine ⟨fun c => ?_,fun y c => ?_,fun y k u hd => ?_,fun y k u hd => ?_,fun y c n hn => ?_⟩
  · rw [Table.committed_commit]
    exact (hown c).congr fun k => by rw [Table.committed_commit]
  · by_cases hy : y = x
    · subst hy
      rw [Table.view_commit]
      exact (h.view y c).congr fun k => by rw [Table.view_commit]
    · rcases Row.dirty_or x (P.row c) with ⟨v,hv⟩ | hv
      · have hyowed : owedAt (owed y) c = none := by
          rcases hoy : owed y with _ | ⟨c',n⟩
          · rfl
          · refine owedAt_of_ne fun hc => ?_
            subst hc
            obtain ⟨-,w,hw,-⟩ := h.owes y c' n hoy
            exact Row.not_dirty_of_ne hv (Ne.symm hy) w hw
        have hx : P.view x c = some v := Row.view_of_dirty hv
        have hP : (P.commit x).view y c = some v := by
          simp [Table.view,Row.commit_of_dirty hv,Row.view]
        rw [hyowed,hP,← hx]
        exact (hown c).congr (h.numberIn_commit hy hv)
      · have hP : (P.commit x).view y c = P.view y c := by
          simp [Table.view,Row.commit_of_not_dirty hv]
        rw [hP]
        exact (h.view y c).congr (h.numberIn_commit_of_not_dirty hy hv)
  · obtain ⟨hd',hy⟩ := Row.commit_dirty hd
    obtain ⟨w,hw⟩ := h.held y k u hd'
    have hnot : ∀ w', (P.row (N.parent u)).dirty ≠ some (x,w') := fun w' hw' => by
      rw [hw] at hw'
      exact hy (Prod.mk.inj (Option.some.inj hw')).1
    exact ⟨w,by rw [Table.row_commit,Row.commit_of_not_dirty hnot,hw]⟩
  · obtain ⟨hd',hy⟩ := Row.commit_dirty hd
    have hnot : ∀ u', (C.row k).dirty ≠ some (x,u') := fun u' hu' => by
      rw [hd'] at hu'
      exact hy (Prod.mk.inj (Option.some.inj hu')).1
    rw [Table.row_commit,Row.commit_of_not_dirty hnot]
    exact h.fresh y k u hd'
  · obtain ⟨hpos,w,hw,hcount⟩ := h.owes y c n hn
    have hy : y ≠ x := by
      rintro rfl
      rw [ho] at hn
      cases hn
    have hnot : ∀ w', (P.row c).dirty ≠ some (x,w') := fun w' hw' => by
      rw [hw] at hw'
      exact hy (Prod.mk.inj (Option.some.inj hw')).1
    exact ⟨hpos,w,by rw [Table.row_commit,Row.commit_of_not_dirty hnot,hw],hcount⟩

/-- The transaction's versions are dropped, and with them what it owes. -/
theorem rollback (h : Numbered N P C owed) (x : X) :
    Numbered N (P.rollback x) (C.rollback x) (Function.update owed x none) := by
  refine ⟨fun c => ?_,fun y c => ?_,fun y k u hd => ?_,fun y k u hd => ?_,fun y c n hn => ?_⟩
  · rw [Table.committed_rollback]
    exact (h.committed c).congr fun k => by rw [Table.committed_rollback]
  · by_cases hy : y = x
    · subst hy
      rw [Function.update_self,owedAt_none,Table.view_rollback]
      exact (h.committed c).congr fun k => by rw [Table.view_rollback]
    · rw [Function.update_of_ne hy,Table.view_rollback_of_ne hy]
      exact (h.view y c).congr fun k => by rw [Table.view_rollback_of_ne hy]
  · obtain ⟨hd',hy⟩ := Row.rollback_dirty hd
    obtain ⟨w,hw⟩ := h.held y k u hd'
    have hnot : ∀ w', (P.row (N.parent u)).dirty ≠ some (x,w') := fun w' hw' => by
      rw [hw] at hw'
      exact hy (Prod.mk.inj (Option.some.inj hw')).1
    exact ⟨w,by rw [Table.row_rollback,Row.rollback_of_not_dirty hnot,hw]⟩
  · rw [Table.row_rollback,Row.rollback_committed]
    exact h.fresh y k u (Row.rollback_dirty hd).1
  · have hy : y ≠ x := by
      rintro rfl
      rw [Function.update_self] at hn
      cases hn
    rw [Function.update_of_ne hy] at hn
    obtain ⟨hpos,w,hw,hcount⟩ := h.owes y c n hn
    have hnot : ∀ w', (P.row c).dirty ≠ some (x,w') := fun w' hw' => by
      rw [hw] at hw'
      exact hy (Prod.mk.inj (Option.some.inj hw')).1
    exact ⟨hpos,w,by rw [Table.row_rollback,Row.rollback_of_not_dirty hnot,hw],hcount⟩

/-- The owed number is larger than any that a child of the parent has in some version. -/
theorem lt_of_owed {c n k : ℕ} {u : U} (h : Numbered N P C owed) (ho : owed x = some (c,n))
    (hu : C.Version k u) (hc : N.parent u = c) : N.number u < n := by
  obtain ⟨-,w,hw,hcount⟩ := h.owes x c n ho
  have hview : C.view x k = some u := by
    rcases hu with hcom | ⟨y,hd⟩
    · have hnot : ∀ u', (C.row k).dirty ≠ some (x,u') := fun u' hu' => by
        rw [h.fresh x k u' hu'] at hcom
        cases hcom
      have hx : C.view x k = C.committed k := Row.view_of_not_dirty hnot
      rw [hx]
      exact hcom
    · obtain ⟨w',hw'⟩ := h.held y k u hd
      rw [hc,hw] at hw'
      obtain ⟨rfl,-⟩ := Prod.mk.inj (Option.some.inj hw')
      exact Row.view_of_dirty hd
  have htotal : P.view x c = some w := Row.view_of_dirty hw
  have htally := h.view x c
  rw [ho,owedAt_self,htotal,total_some,hcount] at htally
  obtain ⟨-,hle,hne⟩ := (htally.mem (N.number u)).mp ⟨k,by rw [hview,← hc,numberIn_self]⟩
  have hne' : n ≠ N.number u := fun e => hne (by rw [e])
  omega

/-- A new child comes after those that the table has. -/
theorem before_of_owed {k k' : ℕ} {u : U} (h : Numbered N P C owed) (ho : owed x = some (N.parent u,N.number u))
    (hk : k ∉ C.keys) (hne : k' ≠ k) : N.Before (C.put x k u) k' k := by
  intro v v' hv hv' hp
  obtain rfl : v' = u := by
    rcases Table.version_put hv' with hold | ⟨-,h⟩
    · simp [Table.Version,row_of_not_mem hk] at hold
    · exact h
  rcases Table.version_put hv with hold | ⟨h',-⟩
  · exact h.lt_of_owed ho hold hp
  · exact absurd h' hne

/-- Only the rows of the parents matter. -/
theorem of_rows (h : Numbered N P C owed) (hP : ∀ k, P'.row k = P.row k) : Numbered N P' C owed := by
  have hview : ∀ y k, P'.view y k = P.view y k := fun y k => by rw [Table.view,Table.view,hP]
  refine ⟨fun c => ?_,fun y c => ?_,fun y k u hd => ?_,h.fresh,fun y c n hn => ?_⟩
  · rw [Table.committed,hP]
    exact h.committed c
  · rw [hview]
    exact h.view y c
  · rw [hP]
    exact h.held y k u hd
  · rw [hP]
    exact h.owes y c n hn

/-- No two children of a parent that `x` sees have one number. -/
theorem select_pairwise (h : Numbered N P C owed) (x : X) (c : ℕ) :
    (C.select x fun u => N.parent u = c).Pairwise fun u u' => N.number u ≠ N.number u' := by
  refine List.pairwise_filterMap.mpr (C.nodup.imp fun {k k'} hne u hu u' hu' heq => hne ?_)
  obtain ⟨hu,hc⟩ := Option.filter_eq_some_iff.mp hu
  obtain ⟨hu',hc'⟩ := Option.filter_eq_some_iff.mp hu'
  have hk : N.numberIn c (C.view x k) = some (N.number u) := by
    rw [hu,← of_decide_eq_true hc,numberIn_self]
  have hk' : N.numberIn c (C.view x k') = some (N.number u) := by
    rw [hu',heq,← of_decide_eq_true hc',numberIn_self]
  exact (h.view x c).once k k' _ hk hk'

/-- No child has a larger number than its parent has counted. -/
theorem le_total {k : ℕ} {u : U} (h : Numbered N P C owed) (hu : C.view x k = some u) :
    N.number u ≤ N.total (P.view x (N.parent u)) :=
  (((h.view x (N.parent u)).mem (N.number u)).mp ⟨k,by rw [hu,numberIn_self]⟩).2.1

/-- The committed children of a parent, listed by their numbers. -/
theorem perm (h : Numbered N P C owed) (c : ℕ) :
    (C.keys.filterMap fun k => N.numberIn c (C.committed k)).Perm (List.range' 1 (N.total (P.committed c))) := by
  refine (h.committed c).perm C.nodup fun k n hk => ?_
  by_contra hmem
  have hnone : C.committed k = none := by
    simp [Table.committed,row_of_not_mem hmem]
  rw [hnone] at hk
  cases hk

end Numbered

end ReadCommitted
end Saarathi
