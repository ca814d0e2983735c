import Mathlib.Data.List.Forall2
import Mathlib.Data.List.Sort
import Mathlib.Data.String.Basic
import Saarathi.JsonText

/-!
# The order of keys

JSON values that differ only in the order of their keys. `json.dumps` with sorted
keys writes one text for all of them.
-/

namespace Saarathi
namespace Json

/-- The order of items that `sorted(d.items())` goes by; the keys of a dictionary are distinct. -/
abbrev KeyLe (a b : String × Json) : Prop := a.1 ≤ b.1

mutual

/-- The value with the keys of every object in order. -/
def sorted : Json → Json
  | .arr items => .arr (sortedItems items)
  | .obj fields => .obj ((sortedFields fields).insertionSort KeyLe)
  | v => v

def sortedItems : List Json → List Json
  | [] => []
  | v :: vs => v.sorted :: sortedItems vs

def sortedFields : List (String × Json) → List (String × Json)
  | [] => []
  | (k,v) :: es => (k,v.sorted) :: sortedFields es

end

/-- The values differ only in the order of keys. -/
def Alike (v w : Json) : Prop := v.sorted = w.sorted

instance : Std.Total KeyLe := ⟨fun a b => le_total a.1 b.1⟩

instance : IsTrans (String × Json) KeyLe := ⟨fun _ _ _ => le_trans⟩

variable {v w : Json} {vs ws : List Json} {es es' fields fields' : List (String × Json)} {k : String}

theorem sortedItems_eq (vs : List Json) : sortedItems vs = vs.map sorted := by
  induction vs with
  | nil => rfl
  | cons v vs ih => rw [sortedItems,ih,List.map_cons]

theorem sortedFields_eq (es : List (String × Json)) : sortedFields es = es.map fun e => (e.1,e.2.sorted) := by
  induction es with
  | nil => rfl
  | cons e es ih => rw [sortedFields,ih,List.map_cons]

theorem keys_sortedFields (es : List (String × Json)) : (sortedFields es).map (·.1) = es.map (·.1) := by
  rw [sortedFields_eq,List.map_map]
  rfl

theorem keys_sort_perm (es : List (String × Json)) :
    (((sortedFields es).insertionSort KeyLe).map (·.1)).Perm (es.map (·.1)) := by
  rw [← keys_sortedFields es]
  exact (List.perm_insertionSort KeyLe _).map _

/-- Items with distinct keys come into one order. -/
theorem insertionSort_eq_of_perm (h : es.Perm es') (hd : (es.map (·.1)).Nodup) :
    es.insertionSort KeyLe = es'.insertionSort KeyLe := by
  have hp : (es.insertionSort KeyLe).Perm (es'.insertionSort KeyLe) :=
    (List.perm_insertionSort KeyLe es).trans (h.trans (List.perm_insertionSort KeyLe es').symm)
  refine List.Perm.eq_of_pairwise ?_ (List.pairwise_insertionSort KeyLe es) (List.pairwise_insertionSort KeyLe es') hp
  intro a b ha hb hab hba
  have ha' := (List.mem_insertionSort KeyLe).mp ha
  have hb' := h.mem_iff.mpr ((List.mem_insertionSort KeyLe).mp hb)
  exact List.inj_on_of_nodup_map hd ha' hb' (le_antisymm hab hba)

theorem mem_iff_lookup (hd : (es.map (·.1)).Nodup) : (k,v) ∈ es ↔ lookup es k = some v :=
  (OrderedDict.get?_eq_some_iff (d := ⟨es,hd⟩)).symm

theorem lookup_eq_of_perm (h : es.Perm es') (hd : (es.map (·.1)).Nodup) (k : String) : lookup es k = lookup es' k := by
  have hd' : (es'.map (·.1)).Nodup := (h.map _).nodup_iff.mp hd
  refine Option.ext fun v => ?_
  rw [← mem_iff_lookup hd,← mem_iff_lookup hd',h.mem_iff]

theorem lookup_sortedFields (es : List (String × Json)) (k : String) :
    lookup (sortedFields es) k = (lookup es k).map sorted := by
  rw [sortedFields_eq,lookup,lookup,List.find?_map,Option.map_map,Option.map_map]
  rfl

theorem alike_arr_iff : Alike (.arr vs) (.arr ws) ↔ List.Forall₂ Alike vs ws := by
  rw [Alike,sorted,sorted,sortedItems_eq,sortedItems_eq,arr.injEq,← List.forall₂_eq_eq_eq,
    List.forall₂_map_left_iff,List.forall₂_map_right_iff]
  rfl

theorem sortedFields_perm_of_alike (h : Alike (.obj es) (.obj es')) : (sortedFields es).Perm (sortedFields es') := by
  rw [Alike,sorted,sorted,obj.injEq] at h
  exact ((List.perm_insertionSort KeyLe _).symm.trans (.of_eq h)).trans (List.perm_insertionSort KeyLe _)

theorem keys_perm_of_alike (h : Alike (.obj es) (.obj es')) : (es.map (·.1)).Perm (es'.map (·.1)) := by
  rw [← keys_sortedFields es,← keys_sortedFields es']
  exact (sortedFields_perm_of_alike h).map _

/-- Dictionaries are alike where they have the same keys, with values that are alike. -/
theorem alike_obj_iff (hd : (es.map (·.1)).Nodup) (hd' : (es'.map (·.1)).Nodup) :
    Alike (.obj es) (.obj es') ↔ ∀ k, Option.Rel Alike (lookup es k) (lookup es' k) := by
  have hkeys : ((sortedFields es).map (·.1)).Nodup := by rwa [keys_sortedFields]
  have hkeys' : ((sortedFields es').map (·.1)).Nodup := by rwa [keys_sortedFields]
  have hrel : ∀ k, Option.Rel Alike (lookup es k) (lookup es' k) ↔
      lookup (sortedFields es) k = lookup (sortedFields es') k := by
    intro k
    rw [lookup_sortedFields,lookup_sortedFields]
    cases lookup es k <;> cases lookup es' k <;> simp [Alike]
  simp only [hrel]
  constructor
  · intro h
    exact lookup_eq_of_perm (sortedFields_perm_of_alike h) hkeys
  · intro h
    rw [Alike,sorted,sorted,obj.injEq]
    refine insertionSort_eq_of_perm ?_ hkeys
    refine (List.perm_ext_iff_of_nodup hkeys.of_map hkeys'.of_map).mpr ?_
    rintro ⟨k,v⟩
    rw [mem_iff_lookup hkeys,mem_iff_lookup hkeys',h k]

theorem insertionSort_map_sorted (es : List (String × Json)) :
    sortedFields (es.insertionSort KeyLe) = (sortedFields es).insertionSort KeyLe := by
  rw [sortedFields_eq,sortedFields_eq]
  exact List.map_insertionSort KeyLe KeyLe _ _ fun _ _ _ _ => Iff.rfl

mutual

@[simp] theorem sorted_sorted : (v : Json) → v.sorted.sorted = v.sorted
  | .null => rfl
  | .bool _ => rfl
  | .num _ => rfl
  | .str _ => rfl
  | .arr items => by rw [sorted,sorted,sortedItems_sorted items]
  | .obj fields => by
    rw [sorted,sorted,insertionSort_map_sorted,sortedFields_sorted fields,
      (List.pairwise_insertionSort KeyLe _).insertionSort_eq]

theorem sortedItems_sorted : (vs : List Json) → sortedItems (sortedItems vs) = sortedItems vs
  | [] => rfl
  | v :: vs => by rw [sortedItems,sortedItems,sorted_sorted v,sortedItems_sorted vs]

theorem sortedFields_sorted : (es : List (String × Json)) → sortedFields (sortedFields es) = sortedFields es
  | [] => rfl
  | (k,v) :: es => by rw [sortedFields,sortedFields,sorted_sorted v,sortedFields_sorted es]

end

theorem alike_sorted (v : Json) : Alike v v.sorted := (sorted_sorted v).symm

end Json

namespace JsonText

open Json

/-- `json.dumps` with `sort_keys` and the separators `','` and `':'`. -/
def dumps (v : Json) : List Char := write v.sorted

variable {floatRepr : String → String} {v w : Json}

mutual

theorem native_sorted_iff : (v : Json) → (Native floatRepr v.sorted ↔ Native floatRepr v)
  | .null => Iff.rfl
  | .bool _ => Iff.rfl
  | .num _ => Iff.rfl
  | .str _ => Iff.rfl
  | .arr items => nativeItems_sorted_iff items
  | .obj fields => by
    have hmem : ∀ e, e ∈ (sortedFields fields).insertionSort KeyLe ↔ e ∈ sortedFields fields :=
      fun e => List.mem_insertionSort KeyLe
    rw [sorted,Native,Native,(keys_sort_perm fields).nodup_iff,nativeFields_iff,← nativeFields_sorted_iff fields,
      nativeFields_iff]
    simp only [hmem]

theorem nativeItems_sorted_iff : (vs : List Json) →
    (NativeItems floatRepr (sortedItems vs) ↔ NativeItems floatRepr vs)
  | [] => Iff.rfl
  | v :: vs => and_congr (native_sorted_iff v) (nativeItems_sorted_iff vs)

theorem nativeFields_sorted_iff : (es : List (String × Json)) →
    (NativeFields floatRepr (sortedFields es) ↔ NativeFields floatRepr es)
  | [] => Iff.rfl
  | (_,v) :: es => and_congr (native_sorted_iff v) (nativeFields_sorted_iff es)

end

theorem native_of_alike (h : Alike v w) (hv : Native floatRepr v) : Native floatRepr w := by
  rw [← native_sorted_iff] at hv ⊢
  rwa [← show v.sorted = w.sorted from h]

/-- The text is read back as the value with its keys in order. -/
theorem loads_dumps (h : Native floatRepr v) : loads floatRepr (dumps v) = some v.sorted :=
  loads_write ((native_sorted_iff v).mpr h)

/-- Two values have one text exactly where they differ only in the order of keys. -/
theorem dumps_eq_iff (hv : Native floatRepr v) (hw : Native floatRepr w) : dumps v = dumps w ↔ Alike v w := by
  constructor
  · intro h
    have hloads := loads_dumps hv
    rw [h,loads_dumps hw] at hloads
    exact (Option.some.inj hloads).symm
  · intro h
    exact congrArg write h

end JsonText
end Saarathi
