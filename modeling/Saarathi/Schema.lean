import Mathlib.Data.List.Basic
import Mathlib.Tactic.Common

/-!
# Schemas with open and closed models

The validation of a document against nested models, each of which refuses or
ignores the keys that it does not declare.
-/

namespace Saarathi

/-- A document, over scalars of any kind; the keys of a dictionary are scalars. -/
inductive Value (α : Type) where
  | scalar (a : α)
  | list (items : List (Value α))
  | dict (entries : List (α × Value α))

/-- What a model does with the keys that it does not declare. -/
inductive Extra where
  | ignore
  | forbid
  deriving DecidableEq

/-- What is declared at a place, over the types of plain fields. A model declares its fields by name,
each of them required or with a default. -/
inductive Schema (τ : Type) where
  | plain (type : τ)
  | listOf (type : τ)
  | model (extra : Extra) (fields : List (String × Bool × Schema τ))

/-- How a validator judges scalars: which are texts, which a plain type takes, and which it takes for a
list of them. -/
structure Judge (α τ : Type) where
  text : α → Option String
  plain : τ → α → Bool
  listOf : τ → α → Bool

inductive ErrorType where
  | missing
  | extraForbidden
  | invalidKey
  | modelType
  | unionTag
  | invalid
  deriving DecidableEq

/-- The path of an error, outermost first, and its type. -/
abbrev SchemaError (α : Type) := List (α ⊕ String) × ErrorType

variable {α τ : Type}

namespace Value

section Scalars

variable (f : α → α)

mutual

/-- The document with its scalars mapped, but not its keys. -/
def mapScalars : Value α → Value α
  | .scalar a => .scalar (f a)
  | .list items => .list (mapItems items)
  | .dict entries => .dict (mapEntries entries)

def mapItems : List (Value α) → List (Value α)
  | [] => []
  | v :: vs => v.mapScalars :: mapItems vs

def mapEntries : List (α × Value α) → List (α × Value α)
  | [] => []
  | (k,v) :: es => (k,v.mapScalars) :: mapEntries es

end

theorem keys_mapEntries (es : List (α × Value α)) : (mapEntries f es).map (·.1) = es.map (·.1) := by
  induction es with
  | nil => rfl
  | cons e es ih => rw [mapEntries,List.map_cons,List.map_cons,ih]

end Scalars

/-- `k` is a key of the dictionary that a path of keys and positions leads to. -/
def HasKey : Value α → List (α ⊕ ℕ) → α → Prop
  | .dict es,[],k => ∃ v, (k,v) ∈ es
  | .dict es,.inl k' :: p,k => ∃ v, (k',v) ∈ es ∧ v.HasKey p k
  | .list vs,.inr i :: p,k => ∃ v, vs[i]? = some v ∧ v.HasKey p k
  | _,_,_ => False

end Value

namespace Schema

variable (J : Judge α τ)

/-- The value under a declared name. -/
def lookup (es : List (α × Value α)) (name : String) : Option (Value α) :=
  (es.find? fun e => J.text e.1 = some name).map (·.2)

/-- `k` is declared by the model at a path. -/
def Declares : Schema τ → List (α ⊕ ℕ) → α → Prop
  | .model _ fields,[],k => ∃ f ∈ fields, J.text k = some f.1
  | .model _ fields,.inl k' :: p,k => ∃ f ∈ fields, J.text k' = some f.1 ∧ f.2.2.Declares p k
  | _,_,_ => False

def takesPlain (type : τ) : Value α → Bool
  | .scalar a => J.plain type a
  | _ => false

def takesList (type : τ) : Value α → Bool
  | .scalar a => J.listOf type a
  | .list items => items.all (takesPlain J type)
  | .dict _ => false

/-- The errors for the keys that no field has. -/
def extraErrors (names : List String) (es : List (α × Value α)) : List (SchemaError α) :=
  es.flatMap fun e => match J.text e.1 with
    | none => [([.inl e.1],.invalidKey)]
    | some name => if names.contains name then [] else [([.inr name],.extraForbidden)]

mutual

/-- The errors of a validation. -/
def errors : Schema τ → Value α → List (SchemaError α)
  | .plain type,v => if takesPlain J type v then [] else [([],.invalid)]
  | .listOf type,v => if takesList J type v then [] else [([],.invalid)]
  | .model extra fields,.dict es =>
    fieldErrors fields es ++ (if extra = .forbid then extraErrors J (fields.map (·.1)) es else [])
  | .model ..,_ => [([],.modelType)]

def fieldErrors : List (String × Bool × Schema τ) → List (α × Value α) → List (SchemaError α)
  | [],_ => []
  | (name,required,s) :: fields,es =>
    (match lookup J es name with
      | some v => (s.errors v).map fun e => (.inr name :: e.1,e.2)
      | none => if required then [([.inr name],.missing)] else []) ++ fieldErrors fields es

end

/-- What is wrong with a document in spite of any keys that are ignored. -/
inductive Fault : Schema τ → Value α → Prop
  | plain {type : τ} {v : Value α} : takesPlain J type v = false → Fault (.plain type) v
  | listOf {type : τ} {v : Value α} : takesList J type v = false → Fault (.listOf type) v
  | model {extra : Extra} {fields : List (String × Bool × Schema τ)} {v : Value α} :
    (∀ es, v ≠ .dict es) → Fault (.model extra fields) v
  | missing {extra : Extra} {fields : List (String × Bool × Schema τ)} {es : List (α × Value α)} {name : String}
    {s : Schema τ} : (name,true,s) ∈ fields → lookup J es name = none → Fault (.model extra fields) (.dict es)
  | field {extra : Extra} {fields : List (String × Bool × Schema τ)} {es : List (α × Value α)} {name : String}
    {required : Bool} {s : Schema τ} {v : Value α} : (name,required,s) ∈ fields → lookup J es name = some v →
    Fault s v → Fault (.model extra fields) (.dict es)
  | undeclared {fields : List (String × Bool × Schema τ)} {es : List (α × Value α)} {k : α} {v : Value α} :
    (k,v) ∈ es → (∀ f ∈ fields, J.text k ≠ some f.1) → Fault (.model .forbid fields) (.dict es)

variable {J}

theorem extraErrors_eq_nil_iff {fields : List (String × Bool × Schema τ)} {es : List (α × Value α)} :
    extraErrors J (fields.map (·.1)) es = [] ↔ ∀ e ∈ es, ∃ f ∈ fields, J.text e.1 = some f.1 := by
  rw [extraErrors,List.flatMap_eq_nil_iff]
  refine forall₂_congr fun e _ => ?_
  cases htext : J.text e.1 with
  | none => simp
  | some name =>
    have hmem : (fields.map (·.1)).contains name = true ↔ ∃ f ∈ fields, some name = some f.1 := by
      rw [List.contains_iff_mem,List.mem_map]
      refine exists_congr fun f => and_congr_right fun _ => ?_
      rw [Option.some.injEq,eq_comm]
    rw [← hmem]
    constructor
    · intro hnil
      by_contra hno
      dsimp only at hnil
      rw [if_neg hno] at hnil
      cases hnil
    · intro hname
      exact if_pos hname

mutual

/-- A document is accepted exactly where it has no fault. -/
theorem errors_eq_nil_iff : (s : Schema τ) → (v : Value α) → (s.errors J v = [] ↔ ¬ Fault J s v)
  | .plain type,v => by
    rw [errors]
    cases htakes : takesPlain J type v with
    | true =>
      refine iff_of_true rfl ?_
      rintro (hno | _)
      rw [htakes] at hno
      cases hno
    | false => exact iff_of_false (by simp) (not_not_intro (.plain htakes))
  | .listOf type,v => by
    rw [errors]
    cases htakes : takesList J type v with
    | true =>
      refine iff_of_true rfl ?_
      rintro (_ | hno)
      rw [htakes] at hno
      cases hno
    | false => exact iff_of_false (by simp) (not_not_intro (.listOf htakes))
  | .model extra fields,.scalar a => iff_of_false (by simp [errors]) (not_not_intro (.model nofun))
  | .model extra fields,.list items => iff_of_false (by simp [errors]) (not_not_intro (.model nofun))
  | .model extra fields,.dict es => by
    rw [errors,List.append_eq_nil_iff,fieldErrors_eq_nil_iff fields es]
    constructor
    · rintro ⟨hfields,hextra⟩ hfault
      cases hfault with
      | model hno => exact hno es rfl
      | missing hmem hlookup =>
        have hrequired := (hfields _ hmem).1 hlookup
        cases hrequired
      | field hmem hlookup hfault => exact (hfields _ hmem).2 _ hlookup hfault
      | undeclared hmem hno =>
        rw [if_pos rfl,extraErrors_eq_nil_iff] at hextra
        obtain ⟨f,hf,htext⟩ := hextra _ hmem
        exact hno f hf htext
    · intro hfault
      constructor
      · rintro ⟨name,required,s⟩ hmem
        constructor
        · intro hlookup
          cases required with
          | false => rfl
          | true => exact absurd (.missing hmem hlookup) hfault
        · intro v hlookup hv
          exact hfault (.field hmem hlookup hv)
      · cases extra with
        | ignore => rfl
        | forbid =>
          rw [if_pos rfl,extraErrors_eq_nil_iff]
          intro e he
          by_contra hno
          exact hfault (.undeclared he fun f hf htext => hno ⟨f,hf,htext⟩)

theorem fieldErrors_eq_nil_iff : (fields : List (String × Bool × Schema τ)) → (es : List (α × Value α)) →
    (fieldErrors J fields es = [] ↔ ∀ f ∈ fields, (lookup J es f.1 = none → f.2.1 = false) ∧
      ∀ v, lookup J es f.1 = some v → ¬ Fault J f.2.2 v)
  | [],es => by simp [fieldErrors]
  | (name,required,s) :: fields,es => by
    have ihs := errors_eq_nil_iff s
    have ih := fieldErrors_eq_nil_iff fields es
    rw [fieldErrors,List.append_eq_nil_iff,ih,List.forall_mem_cons]
    refine and_congr_left fun _ => ?_
    cases hlookup : lookup J es name with
    | none => cases required <;> simp
    | some v => simp [ihs]

end

end Schema
end Saarathi
