import Mathlib.Data.List.Nodup
import Mathlib.Logic.Function.Basic
import Mathlib.Logic.Relation
import Mathlib.Tactic.Common

/-!
# Tables under READ COMMITTED

A row has a committed version and at most one uncommitted version, which locks
the row for the transaction that wrote it. A statement reads the committed
version or the transaction's own, and waits for a row that another transaction
has written. Check constraints are tested on every written version and
uniqueness constraints against every version that may still become committed.
-/

namespace Saarathi
namespace ReadCommitted

/-- The versions of one row. -/
structure Row (X V : Type) where
  committed : Option V := none
  dirty : Option (X × V) := none

variable {X V : Type} [DecidableEq X]

namespace Row

/-- The version that a statement of `x` reads. -/
def view (x : X) (r : Row X V) : Option V :=
  match r.dirty with
  | some (y,v) => if y = x then some v else r.committed
  | none => r.committed

/-- Another transaction has written the row. -/
def lockedFor (x : X) (r : Row X V) : Bool :=
  match r.dirty with
  | some (y,_) => decide (y ≠ x)
  | none => false

def put (x : X) (v : V) (r : Row X V) : Row X V := ⟨r.committed,some (x,v)⟩

def commit (x : X) (r : Row X V) : Row X V :=
  match r.dirty with
  | some (y,v) => if y = x then ⟨some v,none⟩ else r
  | none => r

def rollback (x : X) (r : Row X V) : Row X V :=
  match r.dirty with
  | some (y,_) => if y = x then ⟨r.committed,none⟩ else r
  | none => r

variable {x y : X} {r : Row X V} {v : V}

omit [DecidableEq X] in
@[simp] theorem put_committed : (r.put x v).committed = r.committed := rfl
omit [DecidableEq X] in
@[simp] theorem put_dirty : (r.put x v).dirty = some (x,v) := rfl
@[simp] theorem view_put : (r.put x v).view x = some v := by simp [put,view]
@[simp] theorem rollback_committed : (r.rollback x).committed = r.committed := by
  unfold rollback
  split
  · split <;> rfl
  · rfl

theorem view_of_dirty (h : r.dirty = some (x,v)) : r.view x = some v := by simp [view,h]

theorem view_of_not_dirty (h : ∀ v, r.dirty ≠ some (x,v)) : r.view x = r.committed := by
  rcases hd : r.dirty with _ | ⟨y,v⟩
  · simp [view,hd]
  · have : y ≠ x := fun e => h v (by rw [hd,e])
    simp [view,hd,this]

theorem lockedFor_eq_false : r.lockedFor x = false ↔ ∀ y v, r.dirty = some (y,v) → y = x := by
  rcases hd : r.dirty with _ | ⟨y,v⟩
  · simp [lockedFor,hd]
  · simp [lockedFor,hd]

theorem committed_of_view_none (h : r.view x = none) : r.committed = none := by
  rcases hd : r.dirty with _ | ⟨y,v⟩
  · simpa [view,hd] using h
  · by_cases hy : y = x
    · simp [view,hd,hy] at h
    · simpa [view,hd,hy] using h

/-- A row that `x` may write looks committed to everybody else. -/
theorem view_of_not_lockedFor (h : r.lockedFor x = false) (hy : y ≠ x) :
    r.view y = r.committed :=
  view_of_not_dirty fun v hd => hy (lockedFor_eq_false.mp h y v hd)

theorem view_put_of_ne (h : r.lockedFor x = false) (hy : y ≠ x) :
    (r.put x v).view y = r.view y := by
  rw [view_of_not_lockedFor h hy]
  simp [view,put,hy.symm]

omit [DecidableEq X] in
/-- A row that another transaction has written has no version of `x`. -/
theorem not_dirty_of_ne (hd : r.dirty = some (y,v)) (hy : y ≠ x) (u : V) : r.dirty ≠ some (x,u) := by
  rw [hd]
  intro h
  exact hy (Prod.mk.inj (Option.some.inj h)).1

theorem commit_of_dirty (h : r.dirty = some (x,v)) : r.commit x = ⟨some v,none⟩ := by
  simp [commit,h]

theorem commit_of_not_dirty (h : ∀ v, r.dirty ≠ some (x,v)) : r.commit x = r := by
  rcases hd : r.dirty with _ | ⟨y,v⟩
  · simp [commit,hd]
  · have : y ≠ x := fun e => h v (by rw [hd,e])
    simp [commit,hd,this]

theorem rollback_of_dirty (h : r.dirty = some (x,v)) : r.rollback x = ⟨r.committed,none⟩ := by
  simp [rollback,h]

theorem rollback_of_not_dirty (h : ∀ v, r.dirty ≠ some (x,v)) : r.rollback x = r := by
  rcases hd : r.dirty with _ | ⟨y,v⟩
  · simp [rollback,hd]
  · have : y ≠ x := fun e => h v (by rw [hd,e])
    simp [rollback,hd,this]

omit [DecidableEq X] in
theorem dirty_or (x : X) (r : Row X V) :
    (∃ v, r.dirty = some (x,v)) ∨ ∀ v, r.dirty ≠ some (x,v) := by
  by_cases h : ∃ v, r.dirty = some (x,v)
  · exact .inl h
  · exact .inr fun v hv => h ⟨v,hv⟩

theorem commit_committed : (r.commit x).committed = r.view x := by
  rcases dirty_or x r with ⟨v,hd⟩ | hd
  · rw [commit_of_dirty hd,view_of_dirty hd]
  · rw [commit_of_not_dirty hd,view_of_not_dirty hd]

theorem commit_dirty (h : (r.commit x).dirty = some (y,v)) : r.dirty = some (y,v) ∧ y ≠ x := by
  rcases dirty_or x r with ⟨u,hd⟩ | hd
  · simp [commit_of_dirty hd] at h
  · rw [commit_of_not_dirty hd] at h
    exact ⟨h,fun e => hd v (e ▸ h)⟩

theorem rollback_dirty (h : (r.rollback x).dirty = some (y,v)) :
    r.dirty = some (y,v) ∧ y ≠ x := by
  rcases dirty_or x r with ⟨u,hd⟩ | hd
  · simp [rollback_of_dirty hd] at h
  · rw [rollback_of_not_dirty hd] at h
    exact ⟨h,fun e => hd v (e ▸ h)⟩

@[simp] theorem view_commit : (r.commit x).view x = r.view x := by
  rw [view_of_not_dirty fun v h => (commit_dirty h).2 rfl,commit_committed]

theorem view_rollback : (r.rollback x).view x = r.committed := by
  rw [view_of_not_dirty fun v h => (rollback_dirty h).2 rfl,rollback_committed]

/-- After a commit of `x` another transaction sees the version that `x` had written, if any. -/
theorem view_commit_cases (y : X) :
    (r.commit x).view y = r.view y ∨ ∃ v, r.dirty = some (x,v) ∧ (r.commit x).view y = some v := by
  rcases dirty_or x r with ⟨v,hd⟩ | hd
  · exact .inr ⟨v,hd,by simp [commit_of_dirty hd,view]⟩
  · exact .inl (by rw [commit_of_not_dirty hd])

theorem view_rollback_of_ne (hy : y ≠ x) : (r.rollback x).view y = r.view y := by
  rcases dirty_or x r with ⟨v,hd⟩ | hd
  · simp [rollback_of_dirty hd,view,hd,hy.symm]
  · rw [rollback_of_not_dirty hd]

/-- Two rows that are written, committed and undone together: their versions are related. -/
structure Mirrors {U : Type} (R : Option V → Option U → Prop) (r : Row X V) (m : Row X U) : Prop where
  committed : R r.committed m.committed
  view : ∀ x, R (r.view x) (m.view x)
  dirty : ∀ x u, m.dirty = some (x,u) → ∃ v, r.dirty = some (x,v)

namespace Mirrors

variable {U : Type} {R : Option V → Option U → Prop} {m : Row X U} {u : U}

theorem not_lockedFor (h : Mirrors R r m) (hl : r.lockedFor x = false) : m.lockedFor x = false := by
  apply lockedFor_eq_false.mpr
  intro y u hd
  obtain ⟨v,hv⟩ := h.dirty y u hd
  exact lockedFor_eq_false.mp hl y v hv

theorem put (h : Mirrors R r m) (hl : r.lockedFor x = false) (hR : R (some v) (some u)) :
    Mirrors R (r.put x v) (m.put x u) where
  committed := h.committed
  view y := by
    by_cases hy : y = x
    · subst hy
      simpa using hR
    · rw [view_put_of_ne hl hy,view_put_of_ne (h.not_lockedFor hl) hy]
      exact h.view y
  dirty y u' hd := by
    obtain ⟨rfl,-⟩ := Prod.mk.inj (Option.some.inj hd)
    exact ⟨v,rfl⟩

/-- A version of the first row alone, where the second one still fits it. -/
theorem put_left (h : Mirrors R r m) (hl : r.lockedFor x = false) (hR : R (some v) (m.view x)) :
    Mirrors R (r.put x v) m where
  committed := h.committed
  view y := by
    by_cases hy : y = x
    · subst hy
      simpa using hR
    · rw [view_put_of_ne hl hy]
      exact h.view y
  dirty y u' hd := by
    obtain ⟨v',hv'⟩ := h.dirty y u' hd
    obtain rfl := lockedFor_eq_false.mp hl y v' hv'
    exact ⟨v,rfl⟩

/-- A row that `x` has not written has no mirrored version of `x` either. -/
theorem not_dirty (h : Mirrors R r m) (hd : ∀ v, r.dirty ≠ some (x,v)) (u : U) : m.dirty ≠ some (x,u) := by
  intro hu
  obtain ⟨v,hv⟩ := h.dirty x u hu
  exact hd v hv

theorem commit (h : Mirrors R r m) (x : X) : Mirrors R (r.commit x) (m.commit x) := by
  rcases dirty_or x r with ⟨v,hd⟩ | hd
  · have hm : m.commit x = ⟨m.view x,none⟩ := by
      rcases dirty_or x m with ⟨u,hu⟩ | hu
      · rw [commit_of_dirty hu,view_of_dirty hu]
      · have hnone : m.dirty = none := by
          rcases hmd : m.dirty with _ | ⟨y,u⟩
          · rfl
          · obtain ⟨v',hv'⟩ := h.dirty y u hmd
            obtain ⟨rfl,-⟩ := Prod.mk.inj (Option.some.inj (hd.symm.trans hv'))
            exact absurd hmd (hu u)
        rw [commit_of_not_dirty hu,view_of_not_dirty hu,← hnone]
    have hR := h.view x
    rw [view_of_dirty hd] at hR
    rw [commit_of_dirty hd,hm]
    exact ⟨hR,fun y => hR,fun y u hu => by cases hu⟩
  · rw [commit_of_not_dirty hd,commit_of_not_dirty (h.not_dirty hd)]
    exact h

theorem rollback (h : Mirrors R r m) (x : X) : Mirrors R (r.rollback x) (m.rollback x) where
  committed := by
    rw [rollback_committed,rollback_committed]
    exact h.committed
  view y := by
    by_cases hy : y = x
    · subst hy
      rw [view_rollback,view_rollback]
      exact h.committed
    · rw [view_rollback_of_ne hy,view_rollback_of_ne hy]
      exact h.view y
  dirty y u hd := by
    obtain ⟨hd',hy⟩ := rollback_dirty hd
    obtain ⟨v,hv⟩ := h.dirty y u hd'
    rw [rollback_of_not_dirty (not_dirty_of_ne hv hy)]
    exact ⟨v,hv⟩

end Mirrors

end Row

/-- Rows by key; only the listed keys have versions. -/
structure Table (X V : Type) where
  keys : List ℕ := []
  row : ℕ → Row X V := fun _ => {}
  nodup : keys.Nodup := by simp
  mem_keys : ∀ k, row k ≠ {} → k ∈ keys := by simp

def Table.empty {X V : Type} : Table X V := { nodup := List.nodup_nil }

/-- Check and uniqueness constraints: `conflict` is the pairs that may not both be committed. -/
structure Constraints (V : Type) where
  check : V → Bool
  conflict : V → V → Bool
  conflict_comm : ∀ u v, conflict u v = conflict v u

/-- What a statement meets: another transaction's lock, a violated constraint, or success. -/
inductive Effect (A : Type) where
  | blocked
  | violates
  | ok (a : A)

namespace Table

variable (x : X) (t : Table X V)

def view (k : ℕ) : Option V := (t.row k).view x

def committed (k : ℕ) : Option V := (t.row k).committed

/-- The rows that a `SELECT` of `x` returns, in insertion order. -/
def select (p : V → Bool) : List V := t.keys.filterMap fun k => (t.view x k).filter p

def setRow (k : ℕ) (r : Row X V) : Table X V where
  keys := if k ∈ t.keys then t.keys else t.keys ++ [k]
  row := Function.update t.row k r
  nodup := by
    split
    · exact t.nodup
    · rename_i h
      simpa using List.Nodup.append t.nodup (List.nodup_singleton k) (by simpa using h)
  mem_keys k' hk' := by
    by_cases h : k' = k
    · subst h
      split <;> simp_all
    · rw [Function.update_of_ne h] at hk'
      have := t.mem_keys k' hk'
      split <;> simp [this]

def put (k : ℕ) (v : V) : Table X V := t.setRow k ((t.row k).put x v)

def mapRow (f : Row X V → Row X V) (hf : f {} = {}) : Table X V where
  keys := t.keys
  row k := f (t.row k)
  nodup := t.nodup
  mem_keys k hk := t.mem_keys k fun h => hk (by rw [h,hf])

def commit : Table X V := t.mapRow (Row.commit x) rfl

def rollback : Table X V := t.mapRow (Row.rollback x) rfl

/-- Some version of the row at `k'` that belongs to another transaction's change conflicts. -/
def pending (K : Constraints V) (v : V) (k' : ℕ) : Bool :=
  (t.row k').lockedFor x &&
    ((t.row k').committed.any (K.conflict v) || (t.row k').dirty.any fun d => K.conflict v d.2)

/-- Write a version of the row at `k`, under the row lock and the constraints. -/
def write (K : Constraints V) (k : ℕ) (v : V) : Effect (Table X V) :=
  if (t.row k).lockedFor x then .blocked
  else if !K.check v then .violates
  else if t.keys.any fun k' => decide (k' ≠ k) && t.pending x K v k' then .blocked
  else if t.keys.any fun k' => decide (k' ≠ k) && (t.view x k').any (K.conflict v) then .violates
  else .ok (t.put x k v)

/-- Update the listed rows, each of which must still match. -/
def updateKeys (K : Constraints V) (p : V → Bool) (f : V → V) :
    List ℕ → Table X V → Effect (List V × Table X V)
  | [], t => .ok ([],t)
  | k :: ks, t => match (t.view x k).filter p with
    | none => updateKeys K p f ks t
    | some v => match t.write x K k (f v) with
      | .blocked => .blocked
      | .violates => .violates
      | .ok t' => match updateKeys K p f ks t' with
        | .blocked => .blocked
        | .violates => .violates
        | .ok (vs,t'') => .ok (f v :: vs,t'')

/-- `UPDATE … WHERE p … RETURNING *`. -/
def updateWhere (K : Constraints V) (p : V → Bool) (f : V → V) : Effect (List V × Table X V) :=
  updateKeys x K p f (t.keys.filter fun k => (t.view x k).any p) t

omit [DecidableEq X] in
@[simp] theorem row_put_self (k : ℕ) (v : V) : (t.put x k v).row k = (t.row k).put x v := by
  simp [put,setRow]
omit [DecidableEq X] in
theorem row_put_of_ne {k k' : ℕ} (v : V) (h : k' ≠ k) : (t.put x k v).row k' = t.row k' := by
  simp [put,setRow,h]
@[simp] theorem row_commit (k : ℕ) : (t.commit x).row k = (t.row k).commit x := rfl
@[simp] theorem row_rollback (k : ℕ) : (t.rollback x).row k = (t.row k).rollback x := rfl
omit [DecidableEq X] in
@[simp] theorem committed_put (k k' : ℕ) (v : V) :
    (t.put x k v).committed k' = t.committed k' := by
  by_cases h : k' = k
  · subst h
    simp [committed]
  · simp [committed,row_put_of_ne x t v h]
@[simp] theorem view_put_self (k : ℕ) (v : V) : (t.put x k v).view x k = some v := by simp [view]
theorem view_put_of_ne {k k' : ℕ} (v : V) (y : X) (h : k' ≠ k) :
    (t.put x k v).view y k' = t.view y k' := by
  simp [view,row_put_of_ne x t v h]
@[simp] theorem committed_commit (k : ℕ) : (t.commit x).committed k = t.view x k :=
  Row.commit_committed
@[simp] theorem view_commit (k : ℕ) : (t.commit x).view x k = t.view x k := Row.view_commit
@[simp] theorem committed_rollback (k : ℕ) : (t.rollback x).committed k = t.committed k :=
  Row.rollback_committed
@[simp] theorem view_rollback (k : ℕ) : (t.rollback x).view x k = t.committed k :=
  Row.view_rollback

variable {x t} {K : Constraints V}

theorem view_put_of_owner_ne {k k' : ℕ} {v : V} {y : X} (h : (t.row k).lockedFor x = false)
    (hy : y ≠ x) : (t.put x k v).view y k' = t.view y k' := by
  by_cases hk : k' = k
  · subst hk
    simp only [view,row_put_self]
    exact Row.view_put_of_ne h hy
  · exact view_put_of_ne x t v y hk

theorem view_rollback_of_ne {k : ℕ} {y : X} (hy : y ≠ x) :
    (t.rollback x).view y k = t.view y k := Row.view_rollback_of_ne hy

theorem mem_keys_of_view {y : X} {k : ℕ} {v : V} (h : t.view y k = some v) : k ∈ t.keys :=
  t.mem_keys k fun he => by simp [view,he,Row.view] at h

theorem mem_select {p : V → Bool} {v : V} :
    v ∈ t.select x p ↔ ∃ k, t.view x k = some v ∧ p v = true := by
  simp only [select,List.mem_filterMap,Option.filter_eq_some_iff]
  constructor
  · rintro ⟨k,-,h⟩
    exact ⟨k,h⟩
  · rintro ⟨k,h⟩
    exact ⟨k,mem_keys_of_view h.1,h⟩

/-- The conditions under which a write goes through. -/
structure Writable (K : Constraints V) (x : X) (t : Table X V) (k : ℕ) (v : V) : Prop where
  lock : (t.row k).lockedFor x = false
  check : K.check v = true
  pending : ∀ k', k' ≠ k → t.pending x K v k' = false
  fresh : ∀ k' u, k' ≠ k → t.view x k' = some u → K.conflict v u = false

theorem write_ok {k : ℕ} {v : V} {t' : Table X V} (h : t.write x K k v = .ok t') :
    t' = t.put x k v ∧ Writable K x t k v := by
  unfold write at h
  split at h
  · cases h
  rename_i hlock
  split at h
  · cases h
  rename_i hcheck
  split at h
  · cases h
  rename_i hpending
  split at h
  · cases h
  rename_i hfresh
  obtain rfl : _ = t' := by simpa using h
  refine ⟨rfl,by simpa using hlock,by simpa using hcheck,fun k' hk => ?_,fun k' u hk hu => ?_⟩
  · by_contra hp
    rw [Bool.not_eq_false] at hp
    have hmem : k' ∈ t.keys := by
      refine t.mem_keys k' fun he => ?_
      simp [Table.pending,he,Row.lockedFor] at hp
    exact hpending (List.any_eq_true.mpr ⟨k',hmem,by simp [hk,hp]⟩)
  · by_contra hc
    exact hfresh (List.any_eq_true.mpr ⟨k',mem_keys_of_view hu,by simpa [hk,hu] using hc⟩)

/-- The row violates no constraint beside the rows that `x` sees. -/
structure Obeys (K : Constraints V) (x : X) (t : Table X V) (k : ℕ) (v : V) : Prop where
  check : K.check v = true
  fresh : ∀ k' u, k' ≠ k → t.view x k' = some u → K.conflict v u = false

theorem Obeys.write_ne_violates {k : ℕ} {v : V} (h : Obeys K x t k v) :
    t.write x K k v ≠ .violates := by
  intro hw
  unfold write at hw
  split at hw
  · cases hw
  split at hw
  · rename_i hcheck
    simp [h.check] at hcheck
  split at hw
  · cases hw
  split at hw
  · rename_i hany
    obtain ⟨k',-,hk'⟩ := List.any_eq_true.mp hany
    obtain ⟨hne,u,hu,hc⟩ : k' ≠ k ∧ ∃ u, t.view x k' = some u ∧ K.conflict v u = true := by
      simpa [Option.any_eq_true] using hk'
    rw [h.fresh k' u hne hu] at hc
    cases hc
  · cases hw

/-- An update that matches one row, to a version that obeys the constraints. -/
theorem Obeys.updateWhere_ne_violates {p : V → Bool} {f : V → V} {k : ℕ} {v : V}
    (h : Obeys K x t k (f v)) (hp : ∀ k' u, t.view x k' = some u → p u = true → k' = k ∧ u = v) :
    t.updateWhere x K p f ≠ .violates := by
  unfold updateWhere
  have hmem : ∀ k' ∈ t.keys.filter fun k' => (t.view x k').any p, k' = k := by
    intro k' hk'
    obtain ⟨u,hu,hpu⟩ := (Option.any_eq_true _ _).mp (List.mem_filter.mp hk').2
    exact (hp k' u hu hpu).1
  have hnodup := t.nodup.filter fun k' => (t.view x k').any p
  generalize t.keys.filter (fun k' => (t.view x k').any p) = ks at hmem hnodup
  rcases ks with _ | ⟨k₁,_ | ⟨k₂,ks⟩⟩
  · simp [updateKeys]
  · obtain rfl : k₁ = k := hmem k₁ (by simp)
    cases hv : (t.view x k₁).filter p with
    | none => simp [updateKeys,hv]
    | some u =>
      obtain ⟨hu,hpu⟩ := Option.filter_eq_some_iff.mp hv
      obtain rfl : u = v := (hp k₁ u hu hpu).2
      have hw := h.write_ne_violates
      cases hr : t.write x K k₁ (f u) with
      | blocked => simp [updateKeys,hv,hr]
      | violates => exact absurd hr hw
      | ok t' => simp [updateKeys,hv,hr]
  · have h₁ : k₁ = k := hmem k₁ (by simp)
    have h₂ : k₂ = k := hmem k₂ (by simp)
    simp [h₁,h₂] at hnodup

/-- Writes of `x`, each from the version it reads to a `T`-successor. -/
inductive Wrote (K : Constraints V) (T : ℕ → Option V → V → Prop) (x : X) (t : Table X V) :
    Table X V → Prop
  | refl : Wrote K T x t t
  | put {t' k v} (h : Wrote K T x t t') (hw : Writable K x t' k v) (hT : T k (t'.view x k) v) :
      Wrote K T x t (t'.put x k v)

theorem Wrote.trans {T : ℕ → Option V → V → Prop} {t₁ t₂ t₃ : Table X V} (h₁ : Wrote K T x t₁ t₂)
    (h₂ : Wrote K T x t₂ t₃) : Wrote K T x t₁ t₃ := by
  induction h₂ with
  | refl => exact h₁
  | put _ hw hT ih => exact ih.put hw hT

theorem Wrote.mono {T T' : ℕ → Option V → V → Prop} {t' : Table X V} (h : Wrote K T x t t')
    (hT : ∀ k o v, T k o v → T' k o v) : Wrote K T' x t t' := by
  induction h with
  | refl => exact .refl
  | put _ hw hv ih => exact ih.put hw (hT _ _ _ hv)

theorem Wrote.committed {T : ℕ → Option V → V → Prop} {t' : Table X V} (h : Wrote K T x t t')
    (k : ℕ) : t'.committed k = t.committed k := by
  induction h with
  | refl => rfl
  | put _ _ _ ih => rw [committed_put,ih]

/-- Nobody else sees an uncommitted write. -/
theorem Wrote.view_of_ne {T : ℕ → Option V → V → Prop} {t' : Table X V} (h : Wrote K T x t t')
    {y : X} (hy : y ≠ x) (k : ℕ) : t'.view y k = t.view y k := by
  induction h with
  | refl => rfl
  | put _ hw _ ih => rw [view_put_of_owner_ne hw.lock hy,ih]

theorem wrote_of_write {T : ℕ → Option V → V → Prop} {k : ℕ} {v : V} {t' : Table X V}
    (h : t.write x K k v = .ok t') (hT : T k (t.view x k) v) : Wrote K T x t t' := by
  obtain ⟨rfl,hw⟩ := write_ok h
  exact Wrote.refl.put hw hT

/-- One statement of `x`: at most one write for each row. -/
structure Once (K : Constraints V) (T : ℕ → Option V → V → Prop) (x : X) (t t' : Table X V) :
    Prop where
  wrote : Wrote K T x t t'
  row : ∀ k, t'.row k = t.row k ∨ ∃ v, t'.row k = (t.row k).put x v ∧ T k (t.view x k) v

theorem Once.refl {T : ℕ → Option V → V → Prop} : Once K T x t t := ⟨.refl,fun _ => .inl rfl⟩

theorem Once.mono {T T' : ℕ → Option V → V → Prop} {t' : Table X V} (h : Once K T x t t')
    (hT : ∀ k o v, T k o v → T' k o v) : Once K T' x t t' where
  wrote := h.wrote.mono hT
  row k := (h.row k).imp_right fun ⟨v,hr,hv⟩ => ⟨v,hr,hT _ _ _ hv⟩

theorem Once.view {T : ℕ → Option V → V → Prop} {t' : Table X V} (h : Once K T x t t') (k : ℕ) :
    t'.view x k = t.view x k ∨ ∃ v, t'.view x k = some v ∧ T k (t.view x k) v := by
  rcases h.row k with hr | ⟨v,hr,hv⟩
  · exact .inl (by rw [Table.view,hr,Table.view])
  · exact .inr ⟨v,by rw [Table.view,hr,Row.view_put],hv⟩

theorem once_of_write {T : ℕ → Option V → V → Prop} {k : ℕ} {v : V} {t' : Table X V}
    (h : t.write x K k v = .ok t') (hT : T k (t.view x k) v) : Once K T x t t' := by
  refine ⟨wrote_of_write h hT,fun k' => ?_⟩
  obtain ⟨rfl,-⟩ := write_ok h
  by_cases hk : k' = k
  · subst hk
    exact .inr ⟨v,row_put_self ..,hT⟩
  · exact .inl (row_put_of_ne x t v hk)

/-- One matching row of an update. -/
def updateRow (x : X) (p : V → Bool) (f : V → V) (r : Row X V) : Row X V :=
  match (r.view x).filter p with
  | some v => r.put x (f v)
  | none => r

/-- What an update of the listed rows did. -/
structure Updated (K : Constraints V) (x : X) (p : V → Bool) (f : V → V) (ks : List ℕ)
    (t t' : Table X V) (vs : List V) : Prop where
  wrote : Wrote K (fun _ o v => ∃ u, o = some u ∧ p u = true ∧ v = f u) x t t'
  row : ∀ k, t'.row k = if k ∈ ks then updateRow x p f (t.row k) else t.row k
  answer : vs = ks.filterMap fun k => ((t.view x k).filter p).map f

theorem updated_of_updateKeys {p : V → Bool} {f : V → V} {ks : List ℕ} {vs : List V}
    {t' : Table X V} (hn : ks.Nodup) (h : updateKeys x K p f ks t = .ok (vs,t')) :
    Updated K x p f ks t t' vs := by
  induction ks generalizing t vs with
  | nil =>
    obtain ⟨rfl,rfl⟩ : [] = vs ∧ t = t' := by simpa [updateKeys] using h
    exact ⟨.refl,by simp,rfl⟩
  | cons k ks ih =>
    obtain ⟨hk,hn⟩ := List.nodup_cons.mp hn
    rw [updateKeys] at h
    split at h
    · rename_i hv
      have hu := ih hn h
      refine ⟨hu.wrote,fun k' => ?_,?_⟩
      · rw [hu.row]
        by_cases hk' : k' = k
        · subst hk'
          have hr : updateRow x p f (t.row k') = t.row k' := by
            have hv' : ((t.row k').view x).filter p = none := hv
            simp [updateRow,hv']
          simp [hk,hr]
        · simp [hk']
      · rw [hu.answer,List.filterMap_cons]
        simp [hv]
    rename_i v hv
    split at h
    · cases h
    · cases h
    rename_i t₁ hw
    split at h
    · cases h
    · cases h
    rename_i us t₂ hks
    obtain ⟨rfl,rfl⟩ : f v :: us = vs ∧ t₂ = t' := by simpa using h
    obtain ⟨rfl,hwr⟩ := write_ok hw
    have hu := ih hn hks
    obtain ⟨hview,hp⟩ := Option.filter_eq_some_iff.mp hv
    refine ⟨(Wrote.refl.put hwr ⟨v,hview,hp,rfl⟩).trans hu.wrote,fun k' => ?_,?_⟩
    · rw [hu.row]
      by_cases hk' : k' = k
      · subst hk'
        have hr : updateRow x p f (t.row k') = (t.row k').put x (f v) := by
          have hv' : ((t.row k').view x).filter p = some v := hv
          simp [updateRow,hv']
        simp [hk,hr]
      · simp [hk',row_put_of_ne x t (f v) hk']
    · rw [hu.answer,List.filterMap_cons]
      simp only [hv,Option.map_some]
      congr 1
      refine List.filterMap_congr fun k' hk' => ?_
      have hne : k' ≠ k := fun e => hk (e ▸ hk')
      rw [view_put_of_ne x t (f v) x hne]

theorem updated_of_updateWhere {p : V → Bool} {f : V → V} {vs : List V} {t' : Table X V}
    (h : t.updateWhere x K p f = .ok (vs,t')) :
    Wrote K (fun _ o v => ∃ u, o = some u ∧ p u = true ∧ v = f u) x t t' ∧
      (∀ k, t'.row k = updateRow x p f (t.row k)) ∧ vs = (t.select x p).map f := by
  have hu := updated_of_updateKeys (t.nodup.filter _) h
  refine ⟨hu.wrote,fun k => ?_,?_⟩
  · rw [hu.row]
    split
    · rfl
    · rename_i hk
      have hv : ((t.row k).view x).filter p = none := by
        rw [Option.filter_eq_none_iff]
        intro v hv hp
        have hview : t.view x k = some v := hv
        exact hk (List.mem_filter.mpr ⟨mem_keys_of_view hview,by simpa [hview] using hp⟩)
      simp [updateRow,hv]
  · rw [hu.answer,select,List.map_filterMap,List.filterMap_filter]
    refine List.filterMap_congr fun k _ => ?_
    rcases hv : t.view x k with _ | v
    · simp
    · cases hp : p v <;> simp [hp,Option.filter]

/-- An update that can match one row only: it matches none, or answers with the new version. -/
theorem updateWhere_one {p : V → Bool} {f : V → V} {vs : List V} {t' : Table X V} {k₀ : ℕ}
    (hk : ∀ k u, t.view x k = some u → p u = true → k = k₀)
    (h : t.updateWhere x K p f = .ok (vs,t')) :
    (vs = [] ∧ (∀ k u, t.view x k = some u → p u = false) ∧ ∀ k, t'.row k = t.row k) ∨
      ∃ u, t.view x k₀ = some u ∧ p u = true ∧ vs = [f u] ∧ t'.row k₀ = (t.row k₀).put x (f u) ∧
        ∀ k, k ≠ k₀ → t'.row k = t.row k := by
  obtain ⟨-,hrow,hvs⟩ := updated_of_updateWhere h
  have hother : ∀ k, k ≠ k₀ → (t.view x k).filter p = none := by
    intro k hne
    rw [Option.filter_eq_none_iff]
    intro u hu hp
    exact hne (hk k u hu hp)
  have hsame : ∀ k, (t.view x k).filter p = none → t'.row k = t.row k := by
    intro k hnone
    have hview : ((t.row k).view x).filter p = none := hnone
    rw [hrow,updateRow,hview]
  rcases hv : (t.view x k₀).filter p with _ | u
  · have hnone : ∀ k, (t.view x k).filter p = none := by
      intro k
      by_cases hne : k = k₀
      · rw [hne,hv]
      · exact hother k hne
    refine .inl ⟨?_,?_,fun k => hsame k (hnone k)⟩
    · rw [hvs,select,List.filterMap_eq_nil_iff.mpr fun k _ => hnone k]
      rfl
    · intro k u hu
      simpa using Option.filter_eq_none_iff.mp (hnone k) u hu
  · obtain ⟨hu,hp⟩ := Option.filter_eq_some_iff.mp hv
    refine .inr ⟨u,hu,hp,?_,?_,fun k hne => hsame k (hother k hne)⟩
    · obtain ⟨l₁,l₂,hl⟩ := List.append_of_mem (mem_keys_of_view hu)
      have hn := t.nodup
      rw [hl] at hn
      have hnil : ∀ l : List ℕ, k₀ ∉ l → l.filterMap (fun k => (t.view x k).filter p) = [] :=
        fun l hl' => List.filterMap_eq_nil_iff.mpr fun k hmem => hother k fun e => hl' (e ▸ hmem)
      have h₁ : k₀ ∉ l₁ := fun hm => (List.disjoint_of_nodup_append hn) hm (by simp)
      have h₂ : k₀ ∉ l₂ := (List.nodup_cons.mp hn.of_append_right).1
      rw [hvs,select,hl,List.filterMap_append,List.filterMap_cons,hnil l₁ h₁,hnil l₂ h₂,hv]
      rfl
    · have hview : ((t.row k₀).view x).filter p = some u := hv
      rw [hrow,updateRow,hview]

theorem once_of_updateWhere {p : V → Bool} {f : V → V} {vs : List V} {t' : Table X V}
    (h : t.updateWhere x K p f = .ok (vs,t')) :
    Once K (fun _ o v => ∃ u, o = some u ∧ p u = true ∧ v = f u) x t t' := by
  obtain ⟨hw,hr,-⟩ := updated_of_updateWhere h
  refine ⟨hw,fun k => ?_⟩
  rw [hr,updateRow]
  rcases hv : ((t.row k).view x).filter p with _ | u
  · exact .inl rfl
  · obtain ⟨hu,hp⟩ := Option.filter_eq_some_iff.mp hv
    exact .inr ⟨f u,rfl,u,hu,hp,rfl⟩

/-- The version `v` is reached from `u` by writes along `T`. -/
def Leads (T : Option V → V → Prop) : Option V → Option V → Prop :=
  Relation.ReflTransGen fun a b => ∃ v, b = some v ∧ T a v

/-- A property of rows that every write keeps. -/
def Kept (T : ℕ → Option V → V → Prop) (P : ℕ → V → Prop) : Prop :=
  ∀ k o v, T k o v → (∀ u, o = some u → P k u) → P k v

/-- What holds of every version that is committed or may become so. -/
structure Consistent (K : Constraints V) (T : ℕ → Option V → V → Prop) (P : ℕ → V → Prop)
    (t : Table X V) : Prop where
  written : ∀ y k v, t.view y k = some v → K.check v = true ∧ P k v
  written_committed : ∀ k v, t.committed k = some v → K.check v = true ∧ P k v
  leads : ∀ y k, Leads (T k) (t.committed k) (t.view y k)
  unique : ∀ k k' u v, k ≠ k' → t.committed k = some u → t.committed k' = some v →
    K.conflict u v = false
  unique_view : ∀ y k k' u v, k ≠ k' → t.view y k = some u → t.view y k' = some v →
    K.conflict u v = false
  unique_dirty : ∀ y y' k k' u v, y ≠ y' → (t.row k).dirty = some (y,u) →
    (t.row k').dirty = some (y',v) → K.conflict u v = false

/-- No transaction is open, and the rows meet the constraints. -/
structure Settled (K : Constraints V) (P : ℕ → V → Prop) (t : Table X V) : Prop where
  clean : ∀ k, (t.row k).dirty = none
  row : ∀ k v, t.committed k = some v → K.check v = true ∧ P k v
  unique : ∀ k k' u v, k ≠ k' → t.committed k = some u → t.committed k' = some v →
    K.conflict u v = false

omit [DecidableEq X] in
theorem settled_empty {P : ℕ → V → Prop} : Settled K P ({} : Table X V) where
  clean k := rfl
  row k v h := by simp [Table.committed] at h
  unique k k' u v _ h := by simp [Table.committed] at h

theorem Settled.view {P : ℕ → V → Prop} (h : Settled K P t) (y : X) (k : ℕ) :
    t.view y k = t.committed k :=
  Row.view_of_not_dirty fun v hd => by simp [h.clean k] at hd

theorem Settled.consistent {T : ℕ → Option V → V → Prop} {P : ℕ → V → Prop}
    (h : Settled K P t) : Consistent K T P t where
  written y k v hv := h.row k v ((h.view y k).symm.trans hv)
  written_committed := h.row
  leads y k := by
    rw [h.view y k]
    exact Relation.ReflTransGen.refl
  unique := h.unique
  unique_view y k k' u v hk hu hv :=
    h.unique k k' u v hk ((h.view y k).symm.trans hu) ((h.view y k').symm.trans hv)
  unique_dirty y y' k k' u v _ hu := by simp [h.clean k] at hu

/-- What one call of `x` can do to a table. -/
inductive Move (K : Constraints V) (T : ℕ → Option V → V → Prop) (x : X) (t : Table X V) :
    Table X V → Prop
  | wrote {t'} (h : Wrote K T x t t') : Move K T x t t'
  | commit : Move K T x t (t.commit x)
  | rollback : Move K T x t (t.rollback x)

namespace Consistent

variable {T : ℕ → Option V → V → Prop} {P : ℕ → V → Prop}

theorem put {k : ℕ} {v : V} (h : Consistent K T P t) (hP : Kept T P) (hw : Writable K x t k v)
    (hT : T k (t.view x k) v) : Consistent K T P (t.put x k v) where
  written y k' u hu := by
    by_cases hy : y = x
    · subst hy
      by_cases hk : k' = k
      · subst hk
        obtain rfl : v = u := by simpa using hu
        exact ⟨hw.check,hP k' _ v hT fun u hu => (h.written y k' u hu).2⟩
      · rw [view_put_of_ne y t v y hk] at hu
        exact h.written y k' u hu
    · rw [view_put_of_owner_ne hw.lock hy] at hu
      exact h.written y k' u hu
  written_committed k' u hu := h.written_committed k' u (by rwa [committed_put] at hu)
  leads y k' := by
    rw [committed_put]
    by_cases hy : y = x
    · subst hy
      by_cases hk : k' = k
      · subst hk
        rw [view_put_self]
        exact (h.leads y k').tail ⟨v,rfl,hT⟩
      · rw [view_put_of_ne y t v y hk]
        exact h.leads y k'
    · rw [view_put_of_owner_ne hw.lock hy]
      exact h.leads y k'
  unique k₁ k₂ u₁ u₂ hk h₁ h₂ := by
    rw [committed_put] at h₁ h₂
    exact h.unique k₁ k₂ u₁ u₂ hk h₁ h₂
  unique_view y k₁ k₂ u₁ u₂ hk h₁ h₂ := by
    by_cases hy : y = x
    · subst hy
      by_cases hk₁ : k₁ = k
      · subst hk₁
        rw [view_put_of_ne y t v y hk.symm] at h₂
        obtain rfl : v = u₁ := by simpa using h₁
        exact hw.fresh k₂ u₂ hk.symm h₂
      · rw [view_put_of_ne y t v y hk₁] at h₁
        by_cases hk₂ : k₂ = k
        · subst hk₂
          obtain rfl : v = u₂ := by simpa using h₂
          rw [K.conflict_comm]
          exact hw.fresh k₁ u₁ hk₁ h₁
        · rw [view_put_of_ne y t v y hk₂] at h₂
          exact h.unique_view y k₁ k₂ u₁ u₂ hk h₁ h₂
    · rw [view_put_of_owner_ne hw.lock hy] at h₁ h₂
      exact h.unique_view y k₁ k₂ u₁ u₂ hk h₁ h₂
  unique_dirty y₁ y₂ k₁ k₂ u₁ u₂ hy h₁ h₂ := by
    have key : ∀ {y k' u}, y ≠ x → k' ≠ k → (t.row k').dirty = some (y,u) →
        K.conflict v u = false := by
      intro y k' u hyx hk' hd
      have hp := hw.pending k' hk'
      have hl : (t.row k').lockedFor x = true := by simp [Row.lockedFor,hd,hyx]
      have hp' : (t.row k').committed.any (K.conflict v) = false ∧ K.conflict v u = false := by
        simpa [Table.pending,hl,hd] using hp
      exact hp'.2
    by_cases hk₁ : k₁ = k
    · subst hk₁
      obtain ⟨rfl,rfl⟩ : x = y₁ ∧ v = u₁ := by simpa using h₁
      by_cases hk₂ : k₂ = k₁
      · subst hk₂
        exact absurd (show x = y₂ ∧ v = u₂ by simpa using h₂).1 hy
      · rw [row_put_of_ne x t v hk₂] at h₂
        exact key hy.symm hk₂ h₂
    · rw [row_put_of_ne x t v hk₁] at h₁
      by_cases hk₂ : k₂ = k
      · subst hk₂
        obtain ⟨rfl,rfl⟩ : x = y₂ ∧ v = u₂ := by simpa using h₂
        rw [K.conflict_comm]
        exact key hy hk₁ h₁
      · rw [row_put_of_ne x t v hk₂] at h₂
        exact h.unique_dirty y₁ y₂ k₁ k₂ u₁ u₂ hy h₁ h₂

theorem wrote {t' : Table X V} (h : Consistent K T P t) (hP : Kept T P) (hw : Wrote K T x t t') :
    Consistent K T P t' := by
  induction hw with
  | refl => exact h
  | put _ hw hT ih => exact ih.put hP hw hT

/-- After a commit of `x`, another transaction keeps its own version of a row that it wrote. -/
theorem view_commit_of_dirty {y : X} {k : ℕ} {v : V} (hy : y ≠ x)
    (hd : (t.row k).dirty = some (y,v)) : (t.commit x).view y k = some v := by
  rw [view,row_commit,Row.commit_of_not_dirty (Row.not_dirty_of_ne hd hy),Row.view_of_dirty hd]

/-- After a commit of `x`, another transaction sees the committed version of any other row. -/
theorem view_commit_of_not_dirty {y : X} {k : ℕ} (hd : ∀ v, (t.row k).dirty ≠ some (y,v)) :
    (t.commit x).view y k = t.view x k := by
  rw [view,row_commit,Row.view_of_not_dirty fun v h => hd v (Row.commit_dirty h).1]
  exact Row.commit_committed

/-- A version that `x` is about to commit against one of another transaction. -/
theorem conflict_of_dirty {y : X} {k₁ k₂ : ℕ} {u₁ u₂ : V} (h : Consistent K T P t) (hy : y ≠ x)
    (hk : k₁ ≠ k₂) (h₁ : t.view x k₁ = some u₁) (hn : ∀ v, (t.row k₁).dirty ≠ some (y,v))
    (h₂ : (t.row k₂).dirty = some (y,u₂)) : K.conflict u₁ u₂ = false := by
  rcases Row.dirty_or x (t.row k₁) with ⟨v,hd⟩ | hd
  · obtain rfl : v = u₁ := by simpa [Row.view_of_dirty hd,view] using h₁
    exact h.unique_dirty x y k₁ k₂ v u₂ hy.symm hd h₂
  · have h₁' : t.view y k₁ = some u₁ := by
      rw [view,Row.view_of_not_dirty hn,← h₁]
      exact (Row.view_of_not_dirty hd).symm
    exact h.unique_view y k₁ k₂ u₁ u₂ hk h₁' (Row.view_of_dirty h₂)

theorem commit (h : Consistent K T P t) (x : X) : Consistent K T P (t.commit x) where
  written y k v hv := by
    rcases Row.view_commit_cases (r := t.row k) (x := x) y with he | ⟨u,hd,he⟩
    · exact h.written y k v (he.symm.trans hv)
    · exact h.written x k v ((Row.view_of_dirty hd).trans (he.symm.trans hv))
  written_committed k v hv := h.written x k v (by rwa [committed_commit] at hv)
  leads y k := by
    rw [committed_commit]
    by_cases hy : y = x
    · subst hy
      rw [view_commit]
      exact Relation.ReflTransGen.refl
    rcases Row.dirty_or y (t.row k) with ⟨v,hd⟩ | hd
    · have hx : t.view x k = t.committed k := Row.view_of_not_dirty (Row.not_dirty_of_ne hd hy)
      rw [view_commit_of_dirty hy hd,hx,← Row.view_of_dirty hd]
      exact h.leads y k
    · rw [view_commit_of_not_dirty hd]
      exact Relation.ReflTransGen.refl
  unique k k' u v hk h₁ h₂ := by
    rw [committed_commit] at h₁ h₂
    exact h.unique_view x k k' u v hk h₁ h₂
  unique_view y k k' u v hk h₁ h₂ := by
    by_cases hy : y = x
    · subst hy
      rw [view_commit] at h₁ h₂
      exact h.unique_view y k k' u v hk h₁ h₂
    rcases Row.dirty_or y (t.row k) with ⟨a,hd⟩ | hd
    · rw [view_commit_of_dirty hy hd,← Row.view_of_dirty hd] at h₁
      rcases Row.dirty_or y (t.row k') with ⟨b,hd'⟩ | hd'
      · rw [view_commit_of_dirty hy hd',← Row.view_of_dirty hd'] at h₂
        exact h.unique_view y k k' u v hk h₁ h₂
      · rw [view_commit_of_not_dirty hd'] at h₂
        obtain rfl : a = u := Option.some.inj ((Row.view_of_dirty hd).symm.trans h₁)
        rw [K.conflict_comm]
        exact h.conflict_of_dirty hy hk.symm h₂ hd' hd
    · rw [view_commit_of_not_dirty hd] at h₁
      rcases Row.dirty_or y (t.row k') with ⟨b,hd'⟩ | hd'
      · rw [view_commit_of_dirty hy hd'] at h₂
        obtain rfl : b = v := Option.some.inj h₂
        exact h.conflict_of_dirty hy hk h₁ hd hd'
      · rw [view_commit_of_not_dirty hd'] at h₂
        exact h.unique_view x k k' u v hk h₁ h₂
  unique_dirty y y' k k' u v hy h₁ h₂ :=
    h.unique_dirty y y' k k' u v hy (Row.commit_dirty h₁).1 (Row.commit_dirty h₂).1

theorem rollback (h : Consistent K T P t) (x : X) : Consistent K T P (t.rollback x) where
  written y k v hv := by
    by_cases hy : y = x
    · subst hy
      rw [view_rollback] at hv
      exact h.written_committed k v hv
    · rw [view_rollback_of_ne hy] at hv
      exact h.written y k v hv
  written_committed k v hv := h.written_committed k v (by rwa [committed_rollback] at hv)
  leads y k := by
    rw [committed_rollback]
    by_cases hy : y = x
    · subst hy
      rw [view_rollback]
      exact Relation.ReflTransGen.refl
    · rw [view_rollback_of_ne hy]
      exact h.leads y k
  unique k k' u v hk h₁ h₂ := by
    rw [committed_rollback] at h₁ h₂
    exact h.unique k k' u v hk h₁ h₂
  unique_view y k k' u v hk h₁ h₂ := by
    by_cases hy : y = x
    · subst hy
      rw [view_rollback] at h₁ h₂
      exact h.unique k k' u v hk h₁ h₂
    · rw [view_rollback_of_ne hy] at h₁ h₂
      exact h.unique_view y k k' u v hk h₁ h₂
  unique_dirty y y' k k' u v hy h₁ h₂ :=
    h.unique_dirty y y' k k' u v hy (Row.rollback_dirty h₁).1 (Row.rollback_dirty h₂).1

theorem move {t' : Table X V} (h : Consistent K T P t) (hP : Kept T P) (hm : Move K T x t t') :
    Consistent K T P t' := by
  cases hm with
  | wrote hw => exact h.wrote hP hw
  | commit => exact h.commit x
  | rollback => exact h.rollback x

/-- Nobody changes a version that no write leads away from. -/
theorem view_of_final {k : ℕ} {u : V} (h : Consistent K T P t) (hu : t.committed k = some u)
    (hf : ∀ v, ¬ T k (some u) v) (y : X) : t.view y k = some u := by
  have hl := h.leads y k
  rw [hu] at hl
  rcases Relation.ReflTransGen.cases_head hl with he | ⟨b,⟨v,-,hv⟩,-⟩
  · exact he.symm
  · exact absurd hv (hf v)

theorem committed_of_final {k : ℕ} {u : V} {t' : Table X V} (h : Consistent K T P t)
    (hu : t.committed k = some u) (hf : ∀ v, ¬ T k (some u) v) (hm : Move K T x t t') :
    t'.committed k = some u := by
  cases hm with
  | wrote hw => rw [hw.committed,hu]
  | commit => rw [committed_commit,h.view_of_final hu hf]
  | rollback => rw [committed_rollback,hu]

end Consistent

theorem Wrote.row_of_dirty {T : ℕ → Option V → V → Prop} {t' : Table X V} {y : X} {k : ℕ} {v : V}
    (h : Wrote K T x t t') (hy : y ≠ x) (hd : (t.row k).dirty = some (y,v)) : t'.row k = t.row k := by
  induction h with
  | refl => rfl
  | put h₁ hw hT ih =>
    rename_i t₁ k' v'
    by_cases hk : k = k'
    · subst hk
      exact absurd (Row.lockedFor_eq_false.mp hw.lock y v (ih ▸ hd)) hy
    · rw [row_put_of_ne x t₁ v' hk,ih]

/-- A row that has got a new version was not locked. -/
theorem Wrote.not_lockedFor {T : ℕ → Option V → V → Prop} {t' : Table X V} {k : ℕ} {v : V}
    (h : Wrote K T x t t') (hr : t'.row k = (t.row k).put x v) : (t.row k).lockedFor x = false := by
  apply Row.lockedFor_eq_false.mpr
  intro y u hd
  by_contra hy
  have hsame := h.row_of_dirty hy hd
  rw [hsame] at hr
  rw [hr,Row.put_dirty] at hd
  exact hy (Prod.mk.inj (Option.some.inj hd)).1.symm

/-- A row that another transaction has written is left alone. -/
theorem Move.row_of_dirty {T : ℕ → Option V → V → Prop} {t' : Table X V} {y : X} {k : ℕ} {v : V}
    (h : Move K T x t t') (hy : y ≠ x) (hd : (t.row k).dirty = some (y,v)) : t'.row k = t.row k := by
  have hx : ∀ u, (t.row k).dirty ≠ some (x,u) := Row.not_dirty_of_ne hd hy
  cases h with
  | wrote hw => exact hw.row_of_dirty hy hd
  | commit => exact Row.commit_of_not_dirty hx
  | rollback => exact Row.rollback_of_not_dirty hx

theorem Wrote.dirty_of_ne {T : ℕ → Option V → V → Prop} {t' : Table X V} {y : X} {k : ℕ} {v : V}
    (h : Wrote K T x t t') (hy : y ≠ x) (hd : (t'.row k).dirty = some (y,v)) :
    (t.row k).dirty = some (y,v) := by
  induction h with
  | refl => exact hd
  | put h₁ hw hT ih =>
    rename_i t₁ k' v'
    by_cases hk : k = k'
    · subst hk
      rw [row_put_self,Row.put_dirty] at hd
      exact absurd (Prod.mk.inj (Option.some.inj hd)).1.symm hy
    · rw [row_put_of_ne x t₁ v' hk] at hd
      exact ih hd

/-- Nobody writes in another transaction's name. -/
theorem Move.dirty_of_ne {T : ℕ → Option V → V → Prop} {t' : Table X V} {y : X} {k : ℕ} {v : V}
    (h : Move K T x t t') (hy : y ≠ x) (hd : (t'.row k).dirty = some (y,v)) :
    (t.row k).dirty = some (y,v) := by
  cases h with
  | wrote hw => exact hw.dirty_of_ne hy hd
  | commit => exact (Row.commit_dirty hd).1
  | rollback => exact (Row.rollback_dirty hd).1

theorem not_dirty_commit (k : ℕ) (v : V) : ((t.commit x).row k).dirty ≠ some (x,v) :=
  fun h => (Row.commit_dirty h).2 rfl

theorem not_dirty_rollback (k : ℕ) (v : V) : ((t.rollback x).row k).dirty ≠ some (x,v) :=
  fun h => (Row.rollback_dirty h).2 rfl

/-- A writer's own view of a row that no write leads away from. -/
theorem Wrote.view_of_final {T : ℕ → Option V → V → Prop} {t' : Table X V} {k : ℕ} {u : V}
    (h : Wrote K T x t t') (hu : t.view x k = some u) (hf : ∀ v, ¬ T k (some u) v) :
    t'.view x k = some u := by
  induction h with
  | refl => exact hu
  | put _ _ hT ih =>
    rename_i t₁ k' v h₁ hw
    by_cases hk : k = k'
    · subst hk
      exact absurd (ih ▸ hT) (hf v)
    · rw [view_put_of_ne x t₁ v x hk,ih]

end Table

end ReadCommitted
end Saarathi
