import Mathlib.Data.List.Nodup
import Mathlib.Data.List.Basic
import Mathlib.Tactic.Common

/-!
# Dictionaries in insertion order

A dictionary is the list of its items, in which no key occurs twice. A new key
goes to the end; a key that is there keeps its place unless it is moved.
-/

namespace Saarathi

structure OrderedDict (K V : Type) where
  items : List (K × V) := []
  nodup : (items.map (·.1)).Nodup := by exact List.nodup_nil

namespace OrderedDict

variable {K V : Type} [DecidableEq K] {d : OrderedDict K V} {k k' : K} {v v' : V}

def keys (d : OrderedDict K V) : List K := d.items.map (·.1)

def values (d : OrderedDict K V) : List V := d.items.map (·.2)

def get? (d : OrderedDict K V) (k : K) : Option V := (d.items.find? (·.1 = k)).map (·.2)

/-- The dictionary after `pop`. -/
def erase (d : OrderedDict K V) (k : K) : OrderedDict K V where
  items := d.items.filter (·.1 ≠ k)
  nodup := d.nodup.sublist (List.filter_sublist.map _)

/-- The item of the key, at the end. -/
def putLast (d : OrderedDict K V) (k : K) (v : V) : OrderedDict K V where
  items := (d.erase k).items ++ [(k,v)]
  nodup := by
    rw [List.map_append]
    refine List.nodup_append.mpr ⟨(d.erase k).nodup,by simp,?_⟩
    intro a ha b hb
    obtain ⟨p,hp,rfl⟩ := List.mem_map.mp ha
    obtain rfl : b = k := by simpa using hb
    simpa using (List.mem_filter.mp hp).2

/-- `move_to_end`, of a key that is there. -/
def moveToEnd (d : OrderedDict K V) (k : K) : OrderedDict K V :=
  match d.get? k with
  | some v => d.putLast k v
  | none => d

/-- The same key with another value, in its place. -/
def replace (d : OrderedDict K V) (k : K) (v : V) : OrderedDict K V where
  items := d.items.map fun p => if p.1 = k then (k,v) else p
  nodup := by
    have hkeys : (d.items.map fun p => if p.1 = k then (k,v) else p).map (·.1) = d.items.map (·.1) := by
      rw [List.map_map]
      refine List.map_congr_left fun p hp => ?_
      by_cases hpk : p.1 = k
      · simp [hpk]
      · simp [hpk]
    rw [hkeys]
    exact d.nodup

/-- `d[k] = v`. -/
def set (d : OrderedDict K V) (k : K) (v : V) : OrderedDict K V :=
  if k ∈ d.keys then d.replace k v else d.putLast k v

theorem get?_eq_some_iff : d.get? k = some v ↔ (k,v) ∈ d.items := by
  unfold get?
  constructor
  · intro h
    obtain ⟨p,hp,rfl⟩ := Option.map_eq_some_iff.mp h
    obtain rfl : p.1 = k := by simpa using List.find?_some hp
    exact List.mem_of_find?_eq_some hp
  · intro h
    cases hp : d.items.find? (·.1 = k) with
    | none => simpa using List.find?_eq_none.mp hp _ h
    | some p =>
      have hmem := List.mem_of_find?_eq_some hp
      have hkey : p.1 = k := by simpa using List.find?_some hp
      have heq : p = (k,v) := List.inj_on_of_nodup_map d.nodup hmem h hkey
      simp [heq]

theorem get?_eq_none_iff : d.get? k = none ↔ k ∉ d.keys := by
  simp only [get?,Option.map_eq_none_iff,List.find?_eq_none,keys,List.mem_map]
  constructor
  · rintro h ⟨p,hp,rfl⟩
    simpa using h p hp
  · intro h p hp
    simpa using fun hpk => h ⟨p,hp,hpk⟩

/-- One item for each key. -/
theorem items_inj (h : (k,v) ∈ d.items) (h' : (k,v') ∈ d.items) : v = v' := by
  have heq := get?_eq_some_iff.mpr h
  rw [get?_eq_some_iff.mpr h'] at heq
  exact (Option.some.inj heq).symm

theorem mem_items_erase : (k',v) ∈ (d.erase k).items ↔ (k',v) ∈ d.items ∧ k' ≠ k := by simp [erase]

theorem mem_items_putLast : (k',v') ∈ (d.putLast k v).items ↔
    ((k',v') ∈ d.items ∧ k' ≠ k) ∨ (k' = k ∧ v' = v) := by
  simp [putLast,mem_items_erase]

theorem mem_items_set : (k',v') ∈ (d.set k v).items ↔ ((k',v') ∈ d.items ∧ k' ≠ k) ∨ (k' = k ∧ v' = v) := by
  unfold set
  split
  · rename_i hk
    simp only [replace,List.mem_map]
    constructor
    · rintro ⟨p,hp,heq⟩
      by_cases hpk : p.1 = k
      · obtain ⟨rfl,rfl⟩ : k = k' ∧ v = v' := by simpa [hpk] using heq
        exact .inr ⟨rfl,rfl⟩
      · obtain rfl : p = (k',v') := by simpa [hpk] using heq
        exact .inl ⟨hp,hpk⟩
    · rintro (⟨hp,hne⟩ | ⟨rfl,rfl⟩)
      · exact ⟨(k',v'),hp,by simp [hne]⟩
      · obtain ⟨p,hp,hpk⟩ := List.mem_map.mp hk
        exact ⟨p,hp,by simp [hpk]⟩
  · exact mem_items_putLast

omit [DecidableEq K] in
theorem mem_keys_iff : k ∈ d.keys ↔ ∃ v, (k,v) ∈ d.items := by simp [keys]

omit [DecidableEq K] in
theorem mem_values_iff : v ∈ d.values ↔ ∃ k, (k,v) ∈ d.items := by simp [values]

theorem mem_keys_erase : k' ∈ (d.erase k).keys ↔ k' ∈ d.keys ∧ k' ≠ k := by simp [mem_keys_iff,mem_items_erase]

theorem mem_keys_set : k' ∈ (d.set k v).keys ↔ k' = k ∨ k' ∈ d.keys := by
  simp only [mem_keys_iff,mem_items_set]
  by_cases h : k' = k
  · simp [h]
  · simp [h]

theorem items_erase_of_not_mem (h : k ∉ d.keys) : (d.erase k).items = d.items := by
  refine List.filter_eq_self.mpr fun p hp => ?_
  have hne : p.1 ≠ k := fun hpk => h (List.mem_map.mpr ⟨p,hp,hpk⟩)
  simpa using hne

/-- A key that is not there goes to the end. -/
theorem items_set_of_not_mem (h : k ∉ d.keys) : (d.set k v).items = d.items ++ [(k,v)] := by
  rw [set,if_neg h,← items_erase_of_not_mem h]
  rfl

theorem items_moveToEnd (h : (k,v) ∈ d.items) : (d.moveToEnd k).items = (d.erase k).items ++ [(k,v)] := by
  rw [moveToEnd,get?_eq_some_iff.mpr h]
  rfl

theorem mem_items_moveToEnd : (k',v) ∈ (d.moveToEnd k).items ↔ (k',v) ∈ d.items := by
  unfold moveToEnd
  split
  · rename_i w hget
    have hw := get?_eq_some_iff.mp hget
    rw [mem_items_putLast]
    constructor
    · rintro (⟨hmem,-⟩ | ⟨rfl,rfl⟩)
      · exact hmem
      · exact hw
    · intro hmem
      by_cases hk : k' = k
      · subst hk
        exact .inr ⟨rfl,items_inj hmem hw⟩
      · exact .inl ⟨hmem,hk⟩
  · rfl

/-- Moving a key moves nothing out. -/
theorem length_moveToEnd : (d.moveToEnd k).items.length = d.items.length := by
  have hperm : (d.moveToEnd k).items.Perm d.items :=
    (List.perm_ext_iff_of_nodup (d.moveToEnd k).nodup.of_map d.nodup.of_map).mpr fun p => mem_items_moveToEnd
  exact hperm.length_eq

theorem length_erase_le : (d.erase k).items.length ≤ d.items.length := List.length_filter_le _ _

/-- An item goes with its key. -/
theorem length_erase_lt (h : k ∈ d.keys) : (d.erase k).items.length < d.items.length := by
  obtain ⟨p,hp,hpk⟩ := List.mem_map.mp h
  exact List.length_filter_lt_length_iff_exists.mpr ⟨p,hp,by simpa using hpk⟩

end OrderedDict
end Saarathi
