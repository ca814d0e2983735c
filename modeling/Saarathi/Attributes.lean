import Saarathi.Numbering

/-!
# Attributes of rows

What one call does to a row, whichever it is: nothing, a version of its own, a
commit or a rollback. An attribute that is given to a row when it is created, and
that no later write changes, is the same in all its versions.
-/

namespace Saarathi
namespace ReadCommitted

variable {X V A : Type} [DecidableEq X]

namespace Row

/-- What one call of `x` does to a row. -/
inductive Change (T : Option V → V → Prop) (x : X) (r : Row X V) : Row X V → Prop
  | same : Change T x r r
  | put {v : V} (hl : r.lockedFor x = false) (h : T (r.view x) v) : Change T x r (r.put x v)
  | commit : Change T x r (r.commit x)
  | rollback : Change T x r (r.rollback x)

variable {T : Option V → V → Prop} {x y : X} {r r' : Row X V} {v : V}

/-- A row that is changed is one that `x` had written, or writes now. -/
theorem Change.cases_ne (h : Change T x r r') (hne : r' ≠ r) :
    (∃ v, r.dirty = some (x,v)) ∨ ∃ v, T (r.view x) v ∧ r' = r.put x v := by
  cases h with
  | same => exact absurd rfl hne
  | put hl h => exact .inr ⟨_,h,rfl⟩
  | commit =>
    rcases dirty_or x r with hd | hd
    · exact .inl hd
    · exact absurd (commit_of_not_dirty hd) hne
  | rollback =>
    rcases dirty_or x r with hd | hd
    · exact .inl hd
    · exact absurd (rollback_of_not_dirty hd) hne

/-- What `x` has written after a call it had written before, or the call has. -/
theorem Change.dirty (h : Change T x r r') (hd : r'.dirty = some (x,v)) :
    r.dirty = some (x,v) ∨ T (r.view x) v := by
  cases h with
  | same => exact .inl hd
  | put hl h =>
    rw [put_dirty] at hd
    obtain rfl := (Prod.mk.inj (Option.some.inj hd)).2
    exact .inr h
  | commit => exact .inl (commit_dirty hd).1
  | rollback => exact .inl (rollback_dirty hd).1

/-- A version that another transaction has written stays, and none appears. -/
theorem Change.dirty_of_ne (h : Change T x r r') (hy : y ≠ x) :
    r'.dirty = some (y,v) ↔ r.dirty = some (y,v) := by
  cases h with
  | same => exact Iff.rfl
  | put hl h =>
    rw [put_dirty]
    constructor
    · intro hd
      exact absurd (Prod.mk.inj (Option.some.inj hd)).1.symm hy
    · intro hd
      exact absurd (lockedFor_eq_false.mp hl y v hd) hy
  | commit =>
    constructor
    · exact fun hd => (commit_dirty hd).1
    · intro hd
      rwa [commit_of_not_dirty (not_dirty_of_ne hd hy)]
  | rollback =>
    constructor
    · exact fun hd => (rollback_dirty hd).1
    · intro hd
      rwa [rollback_of_not_dirty (not_dirty_of_ne hd hy)]

end Row

namespace Table

/-- What one call of `x` does to a table; a row is created only under a new key. -/
structure Alters (T : ℕ → Option V → V → Prop) (x : X) (t t' : Table X V) : Prop where
  row : ∀ k, Row.Change (T k) x (t.row k) (t'.row k)
  keys : t.keys <+: t'.keys
  fresh : ∀ k, t'.row k ≠ t.row k → t.view x k = none → k ∉ t.keys

variable {K : Constraints V} {T : ℕ → Option V → V → Prop} {t t' : Table X V} {x y : X} {k : ℕ} {v : V}

/-- Keys are only added, at the end. -/
theorem Wrote.keys_grow (h : Wrote K T x t t') : t.keys <+: t'.keys := by
  induction h with
  | refl => exact List.prefix_rfl
  | put _ _ _ ih =>
    simp only [Table.put,setRow]
    split
    · exact ih
    · exact ih.trans (List.prefix_append ..)

namespace Alters

theorem refl : Alters T x t t where
  row _ := .same
  keys := List.prefix_rfl
  fresh _ hne := absurd rfl hne

theorem commit : Alters T x t (t.commit x) where
  row _ := .commit
  keys := List.prefix_rfl
  fresh k hne hv := by
    rcases Row.dirty_or x (t.row k) with ⟨v,hd⟩ | hd
    · rw [view,Row.view_of_dirty hd] at hv
      cases hv
    · exact absurd (Row.commit_of_not_dirty hd) hne

theorem rollback : Alters T x t (t.rollback x) where
  row _ := .rollback
  keys := List.prefix_rfl
  fresh k hne hv := by
    rcases Row.dirty_or x (t.row k) with ⟨v,hd⟩ | hd
    · rw [view,Row.view_of_dirty hd] at hv
      cases hv
    · exact absurd (Row.rollback_of_not_dirty hd) hne

/-- A statement that creates no row. -/
theorem of_once (h : Once K T x t t') (hT : ∀ k v, ¬ T k none v) : Alters T x t t' where
  row k := by
    rcases h.row k with hr | ⟨v,hr,hv⟩
    · rw [hr]
      exact .same
    · have hl := h.wrote.not_lockedFor hr
      rw [hr]
      exact .put hl hv
  keys := h.wrote.keys_grow
  fresh k hne hv := by
    rcases h.row k with hr | ⟨v,-,hT'⟩
    · exact absurd hr hne
    · rw [hv] at hT'
      exact absurd hT' (hT k v)

/-- A statement that creates one row. -/
theorem of_insert (hk : k ∉ t.keys) (hw : Writable K x t k v) (hT : T k none v) :
    Alters T x t (t.put x k v) := by
  have hnone : t.view x k = none := by
    rcases hv : t.view x k with _ | u
    · rfl
    · exact absurd (mem_keys_of_view hv) hk
  have hstep : T k (t.view x k) v := hnone ▸ hT
  refine ⟨fun k' => ?_,(Wrote.refl.put hw hstep).keys_grow,fun k' hne _ => ?_⟩
  · by_cases hk' : k' = k
    · subst hk'
      rw [row_put_self]
      exact .put hw.lock hstep
    · rw [row_put_of_ne x t v hk']
      exact .same
  · by_cases hk' : k' = k
    · exact hk' ▸ hk
    · exact absurd (row_put_of_ne x t v hk') hne

/-- A version was there, or the call has written it. -/
theorem version (h : Alters T x t t') (hv : t'.Version k v) :
    t.Version k v ∨ T k (t.view x k) v ∧ t'.row k = (t.row k).put x v := by
  have hr := h.row k
  generalize hrow : t'.row k = r at hr
  rw [Version,hrow] at hv
  cases hr with
  | same => exact .inl hv
  | put hl hT =>
    rename_i u
    rcases hv with hv | ⟨y,hv⟩
    · exact .inl (.inl hv)
    · obtain rfl := (Prod.mk.inj (Option.some.inj hv)).2
      exact .inr ⟨hT,rfl⟩
  | commit =>
    rcases hv with hv | ⟨y,hv⟩
    · rw [Row.commit_committed] at hv
      rcases Row.dirty_or x (t.row k) with ⟨u,hd⟩ | hd
      · rw [Row.view_of_dirty hd] at hv
        exact .inl (.inr ⟨x,hd.trans (by rw [Option.some.inj hv])⟩)
      · rw [Row.view_of_not_dirty hd] at hv
        exact .inl (.inl hv)
    · exact .inl (.inr ⟨y,(Row.commit_dirty hv).1⟩)
  | rollback =>
    rcases hv with hv | ⟨y,hv⟩
    · exact .inl (.inl (Row.rollback_committed.symm.trans hv))
    · exact .inl (.inr ⟨y,(Row.rollback_dirty hv).1⟩)

end Alters

theorem version_of_view {y : X} (h : t.view y k = some v) : t.Version k v := by
  rcases Row.dirty_or y (t.row k) with ⟨u,hd⟩ | hd
  · rw [view,Row.view_of_dirty hd] at h
    exact .inr ⟨y,hd.trans (by rw [Option.some.inj h])⟩
  · rw [view,Row.view_of_not_dirty hd] at h
    exact .inl h

omit [DecidableEq X] in
theorem mem_keys_of_version (h : t.Version k v) : k ∈ t.keys := by
  apply t.mem_keys
  intro he
  rw [Version,he] at h
  rcases h with h | ⟨y,h⟩ <;> cases h

/-- The row exists, and every version of it satisfies `P`. -/
def Every (P : V → Prop) (t : Table X V) (k : ℕ) : Prop := k ∈ t.keys ∧ ∀ v, t.Version k v → P v

/-- The versions of a row agree in an attribute. -/
def Fixed (f : V → A) (t : Table X V) : Prop := ∀ k u v, t.Version k u → t.Version k v → f u = f v

/-- An attribute of each row is its key. -/
def Under (f : V → ℕ) (t : Table X V) : Prop := ∀ k v, t.Version k v → f v = k

section Attributes

variable {f : V → A} {P : V → Prop}

theorem Alters.every (h : Alters T x t t') (hT : ∀ u v, T k (some u) v → P u → P v) (hk : t.Every P k) :
    t'.Every P k := by
  refine ⟨h.keys.subset hk.1,fun v hv => ?_⟩
  rcases h.version hv with hold | ⟨hstep,hrow⟩
  · exact hk.2 v hold
  cases hview : t.view x k with
  | some u =>
    rw [hview] at hstep
    exact hT u v hstep (hk.2 u (version_of_view hview))
  | none =>
    by_cases hne : t'.row k = t.row k
    · rw [Version,hne] at hv
      exact hk.2 v hv
    · exact absurd hk.1 (h.fresh k hne hview)

theorem Alters.fixed (h : Alters T x t t') (hT : ∀ k u v, T k (some u) v → f v = f u) (hf : t.Fixed f) :
    t'.Fixed f := by
  intro k u v hu hv
  by_cases hold : ∃ u₀, t.Version k u₀
  · obtain ⟨u₀,h₀⟩ := hold
    have hevery : t.Every (fun v => f v = f u₀) k := ⟨mem_keys_of_version h₀,fun v hv => hf k v u₀ hv h₀⟩
    have hevery' := h.every (fun a b hab ha => (hT k a b hab).trans ha) hevery
    exact (hevery'.2 u hu).trans (hevery'.2 v hv).symm
  · have hsame : ∀ w, t'.Version k w → t'.row k = (t.row k).put x w := by
      intro w hw
      rcases h.version hw with hw | ⟨-,hrow⟩
      · exact absurd ⟨w,hw⟩ hold
      · exact hrow
    have hput : (t.row k).put x u = (t.row k).put x v := (hsame u hu).symm.trans (hsame v hv)
    have hdirty := congrArg Row.dirty hput
    simp only [Row.put_dirty,Option.some.injEq,Prod.mk.injEq,true_and] at hdirty
    rw [hdirty]

theorem Alters.under {f : V → ℕ} (h : Alters T x t t') (hnew : ∀ k v, T k none v → f v = k)
    (hT : ∀ k u v, T k (some u) v → f v = f u) (hf : t.Under f) : t'.Under f := by
  intro k v hv
  rcases h.version hv with hold | ⟨hstep,-⟩
  · exact hf k v hold
  cases hview : t.view x k with
  | some u =>
    rw [hview] at hstep
    exact (hT k u v hstep).trans (hf k u (version_of_view hview))
  | none =>
    rw [hview] at hstep
    exact hnew k v hstep

/-- A row that is changed: the attribute is right in every version, old or new, where it is right in
what `x` had written and writes now. -/
theorem Alters.changed {Q : A → Prop} (h : Alters T x t t') (hT : ∀ k u v, T k (some u) v → f v = f u)
    (hf : t.Fixed f) (hne : t'.row k ≠ t.row k) (hdirty : ∀ v, (t.row k).dirty = some (x,v) → Q (f v))
    (hstep : ∀ v, T k (t.view x k) v → Q (f v)) : ∀ v, t.Version k v ∨ t'.Version k v → Q (f v) := by
  have hf' : t'.Fixed f := h.fixed hT hf
  rcases (h.row k).cases_ne hne with ⟨v₀,hd⟩ | ⟨v₀,hv₀,hput⟩
  · have hold : t.Version k v₀ := .inr ⟨x,hd⟩
    have hevery : t.Every (fun v => Q (f v)) k := by
      refine ⟨mem_keys_of_version hold,fun v hv => ?_⟩
      dsimp only
      rw [hf k v v₀ hv hold]
      exact hdirty v₀ hd
    have hevery' : t'.Every (fun v => Q (f v)) k := by
      refine h.every (fun u v huv hu => ?_) hevery
      rwa [hT k u v huv]
    rintro v (hv | hv)
    · exact hevery.2 v hv
    · exact hevery'.2 v hv
  · have hnew : t'.Version k v₀ := .inr ⟨x,by rw [hput,Row.put_dirty]⟩
    rintro v (hv | hv)
    · cases hview : t.view x k with
      | none => exact absurd (mem_keys_of_version hv) (h.fresh k hne hview)
      | some u =>
        have hfu : f v = f v₀ := (hf k v u hv (version_of_view hview)).trans (hT k u v₀ (hview ▸ hv₀)).symm
        rw [hfu]
        exact hstep v₀ hv₀
    · rw [hf' k v v₀ hv hnew]
      exact hstep v₀ hv₀

omit [DecidableEq X] in
/-- One version tells the attribute of them all. -/
theorem Fixed.every (hf : t.Fixed f) (hv : t.Version k v) : t.Every (fun u => f u = f v) k :=
  ⟨mem_keys_of_version hv,fun u hu => hf k u v hu hv⟩

omit [DecidableEq X] in
theorem Every.mono {P' : V → Prop} (h : t.Every P k) (hP : ∀ v, P v → P' v) : t.Every P' k :=
  ⟨h.1,fun v hv => hP v (h.2 v hv)⟩

end Attributes

/-- One more row is written and committed. -/
theorem Settled.put_commit {K : Constraints V} {P : ℕ → V → Prop} {k : ℕ} {v : V} (h : Settled K P t)
    (hcheck : K.check v = true) (hP : P k v) (hfresh : ∀ k' u, k' ≠ k → t.committed k' = some u → K.conflict v u = false) :
    Settled K P ((t.put x k v).commit x) := by
  have hself : ((t.put x k v).commit x).committed k = some v := by
    rw [committed_commit,view_put_self]
  have hother : ∀ k', k' ≠ k → ((t.put x k v).commit x).committed k' = t.committed k' := by
    intro k' hk'
    rw [committed_commit,view_put_of_ne x t v x hk']
    exact Row.view_of_not_dirty fun u hu => by simp [h.clean k'] at hu
  refine ⟨fun k' => ?_,fun k' u hu => ?_,fun k₁ k₂ u₁ u₂ hne h₁ h₂ => ?_⟩
  · by_cases hk : k' = k
    · subst hk
      rw [row_commit,row_put_self,Row.commit_of_dirty (Row.put_dirty ..)]
    · rw [row_commit,row_put_of_ne x t v hk,Row.commit_of_not_dirty fun u hu => by simp [h.clean k'] at hu]
      exact h.clean k'
  · by_cases hk : k' = k
    · subst hk
      obtain rfl := Option.some.inj (hself.symm.trans hu)
      exact ⟨hcheck,hP⟩
    · exact h.row k' u ((hother k' hk).symm.trans hu)
  · by_cases hk₁ : k₁ = k
    · subst hk₁
      obtain rfl := Option.some.inj (hself.symm.trans h₁)
      exact hfresh k₂ u₂ hne.symm ((hother k₂ hne.symm).symm.trans h₂)
    · rw [hother k₁ hk₁] at h₁
      by_cases hk₂ : k₂ = k
      · subst hk₂
        obtain rfl := Option.some.inj (hself.symm.trans h₂)
        rw [K.conflict_comm]
        exact hfresh k₁ u₁ hk₁ h₁
      · rw [hother k₂ hk₂] at h₂
        exact h.unique k₁ k₂ u₁ u₂ hne h₁ h₂

/-- A table as it was, apart from rows whose versions satisfied `p` and satisfy it. -/
structure Apart (p : V → Prop) (t₀ t : Table X V) : Prop where
  keys : t₀.keys <+: t.keys
  row : ∀ k, t.row k = t₀.row k ∨ ∀ v, t₀.Version k v ∨ t.Version k v → p v

namespace Apart

variable {p p' : V → Prop} {t₀ : Table X V}

omit [DecidableEq X] in
theorem refl : Apart p t t := ⟨List.prefix_rfl,fun _ => .inl rfl⟩

theorem step (h : Apart p t₀ t) (hp : ∀ v, p v → p' v) (ha : Alters T x t t')
    (hc : ∀ k, t'.row k ≠ t.row k → ∀ v, t.Version k v ∨ t'.Version k v → p' v) : Apart p' t₀ t' where
  keys := h.keys.trans ha.keys
  row k := by
    by_cases hsame : t'.row k = t.row k
    · rcases h.row k with h₀ | h₀
      · exact .inl (hsame.trans h₀)
      · refine .inr fun v hv => hp v (h₀ v ?_)
        rwa [Version,Version,hsame] at hv
    · refine .inr fun v hv => ?_
      rcases hv with hv | hv
      · rcases h.row k with h₀ | h₀
        · rw [Version,← h₀] at hv
          exact hc k hsame v (.inl hv)
        · exact hp v (h₀ v (.inl hv))
      · exact hc k hsame v (.inr hv)

/-- What is selected among the other rows is the same. -/
theorem select (h : Apart p t₀ t) {q : V → Bool} (hq : ∀ v, p v → q v = false) (y : X) :
    t.select y q = t₀.select y q := by
  have hrow : ∀ k, (t.view y k).filter q = (t₀.view y k).filter q := by
    intro k
    rcases h.row k with hr | hr
    · rw [view,hr,view]
    · have hnone : ∀ t' : Table X V, (∀ v, t'.Version k v → p v) → (t'.view y k).filter q = none := by
        intro t' ht'
        rw [Option.filter_eq_none_iff]
        intro v hv hqv
        rw [hq v (ht' v (version_of_view hv))] at hqv
        cases hqv
      rw [hnone t fun v hv => hr v (.inr hv),hnone t₀ fun v hv => hr v (.inl hv)]
  obtain ⟨ks,hks⟩ := h.keys
  have hnew : ks.filterMap (fun k => (t.view y k).filter q) = [] := by
    rw [List.filterMap_eq_nil_iff]
    intro k hk
    have hnotin : k ∉ t₀.keys := fun hmem => by
      have hnodup := t.nodup
      rw [← hks] at hnodup
      exact List.disjoint_of_nodup_append hnodup hmem hk
    rw [hrow k,view,Numbered.row_of_not_mem hnotin]
    rfl
  rw [Table.select,← hks,List.filterMap_append,hnew,List.append_nil,Table.select]
  exact List.filterMap_congr fun k _ => hrow k

end Apart

end Table
end ReadCommitted
end Saarathi
