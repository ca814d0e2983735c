import Saarathi.Arrangement
import Mathlib.Algebra.Order.Ring.Rat
import Mathlib.Data.List.DropRight
import Mathlib.Data.Nat.Cast.Order.Basic
import Mathlib.Data.Rat.Defs

/-!
# Normalising the capability document in the page

The page normalises the document that the API answered before a component sees it.
Strings are sequences of UTF-16 code units, as the page has them.
-/

namespace Saarathi

open Arrangement

/-- A string of the page. -/
abbrev JsString := List UInt16

/-- A literal of the page's source. -/
def js (s : String) : JsString := s.toList.map fun c => UInt16.ofNat c.toNat

/-- A number that is finite. -/
inductive JsFinite where
  | value (q : ℚ)
  | negZero
  deriving DecidableEq

def JsFinite.toRat : JsFinite → ℚ
  | value q => q
  | negZero => 0

/-- A number as `JSON.parse` gives it; one that is too large is infinite. -/
inductive JsNumber where
  | finite (n : JsFinite)
  | infinite (negative : Bool)
  deriving DecidableEq

/-- A value as `JSON.parse` gives it. -/
inductive JsValue where
  | null
  | bool (b : Bool)
  | number (n : JsNumber)
  | string (s : JsString)
  | array (items : List JsValue)
  | object (fields : List (JsString × JsValue))

namespace JsValue

/-- A property, or `undefined`. -/
def get (fields : List (JsString × JsValue)) (key : JsString) : Option JsValue :=
  (fields.find? fun f => f.1 = key).map (·.2)

/-- `{ ...fields, key: value }`. -/
def set (key : JsString) (value : JsValue) : List (JsString × JsValue) → List (JsString × JsValue)
  | [] => [(key,value)]
  | f :: fields => if f.1 = key then (key,value) :: fields else f :: set key value fields

variable {fields : List (JsString × JsValue)} {key key' : JsString} {v : JsValue}

theorem get_set_self (key : JsString) (v : JsValue) (fields : List (JsString × JsValue)) :
    get (set key v fields) key = some v := by
  induction fields with
  | nil => simp [set,get]
  | cons f fields ih =>
    rw [set]
    split
    · simp [get]
    · rename_i hne
      rw [get,List.find?_cons_of_neg (by simpa using hne)]
      exact ih

theorem get_set_of_ne (hne : key' ≠ key) (v : JsValue) (fields : List (JsString × JsValue)) :
    get (set key v fields) key' = get fields key' := by
  induction fields with
  | nil => simp [set,get,hne.symm]
  | cons f fields ih =>
    rw [set]
    split
    · rename_i heq
      have hf : f.1 ≠ key' := fun h => hne (h.symm.trans heq)
      rw [get,get,List.find?_cons_of_neg (by simpa using hne.symm),List.find?_cons_of_neg (by simpa using hf)]
    · by_cases hf : f.1 = key'
      · rw [get,get,List.find?_cons_of_pos (by simpa using hf),List.find?_cons_of_pos (by simpa using hf)]
      · rw [get,get,List.find?_cons_of_neg (by simpa using hf),List.find?_cons_of_neg (by simpa using hf)]
        exact ih

/-- A property that has the value already. -/
theorem set_of_get (h : get fields key = some v) : set key v fields = fields := by
  induction fields with
  | nil => cases h
  | cons f fields ih =>
    rw [set]
    by_cases hf : f.1 = key
    · rw [get,List.find?_cons_of_pos (by simpa using hf)] at h
      rw [if_pos hf,← hf,← Option.some.inj h]
    · rw [get,List.find?_cons_of_neg (by simpa using hf)] at h
      rw [if_neg hf,ih h]

end JsValue

namespace CapabilitySchema

open JsValue

/-- White space and line terminators, which `trim` takes off. -/
def isWhite (c : UInt16) : Bool :=
  let n := c.toNat
  (0x09 ≤ n && n ≤ 0x0D) || n == 0x20 || n == 0xA0 || n == 0x1680 || (0x2000 ≤ n && n ≤ 0x200A) ||
    n == 0x2028 || n == 0x2029 || n == 0x202F || n == 0x205F || n == 0x3000 || n == 0xFEFF

def trim (s : JsString) : JsString := (s.dropWhile isWhite).rdropWhile isWhite

/-- A string with no white space at its ends. -/
def Trimmed := {s : JsString // trim s = s}

/-- A trimmed string with something in it. -/
structure NonBlank where
  text : JsString
  trimmed : trim text = text
  nonempty : text ≠ []

/-- What is left after the white space at the start does not start with some. -/
theorem isWhite_head {s rest : JsString} {c : UInt16} (h : s.dropWhile isWhite = c :: rest) : ¬isWhite c = true := by
  have hpos : 0 < (s.dropWhile isWhite).length := by simp [h]
  have hnot := List.dropWhile_get_zero_not isWhite s hpos
  simpa only [h,List.get_eq_getElem,List.getElem_cons_zero] using hnot

theorem dropWhile_trim (s : JsString) : (trim s).dropWhile isWhite = trim s := by
  obtain ⟨rest,hrest⟩ := List.rdropWhile_prefix isWhite (s.dropWhile isWhite)
  change trim s ++ rest = _ at hrest
  cases ht : trim s with
  | nil => rfl
  | cons c cs =>
    rw [ht,List.cons_append] at hrest
    exact List.dropWhile_cons_of_neg (isWhite_head hrest.symm)

theorem trim_trim (s : JsString) : trim (trim s) = trim s := by
  rw [trim,dropWhile_trim,trim,List.rdropWhile_idempotent]

theorem trim_eq_nil_iff {s : JsString} : trim s = [] ↔ ∀ c ∈ s, isWhite c = true := by
  rw [trim,List.rdropWhile_eq_nil_iff]
  constructor
  · intro h
    rw [← List.dropWhile_eq_nil_iff]
    cases hd : s.dropWhile isWhite with
    | nil => rfl
    | cons c cs => exact absurd (h c (by rw [hd]; exact List.mem_cons_self)) (isWhite_head hd)
  · intro h c hc
    exact h c ((List.dropWhile_suffix isWhite).subset hc)

def nonEmptyString : Option JsValue → Option NonBlank
  | some (.string s) => if h : trim s ≠ [] then some ⟨trim s,trim_trim s,h⟩ else none
  | _ => none

/-- `nonEmptyString(value) || ''`. -/
def orEmpty : Option NonBlank → Trimmed
  | some s => ⟨s.text,s.trimmed⟩
  | none => ⟨[],rfl⟩

inductive Status where
  | enabled
  | disabled
  | comingSoon
  deriving DecidableEq

def Status.text : Status → JsString
  | enabled => js "enabled"
  | disabled => js "disabled"
  | comingSoon => js "coming_soon"

inductive ActionType where
  | startAgent
  | displayCard
  | comingSoon
  | none
  deriving DecidableEq

def ActionType.text : ActionType → JsString
  | startAgent => js "start_agent"
  | displayCard => js "display_card"
  | comingSoon => js "coming_soon"
  | none => js "none"

/-- The known status that a value is the text of. -/
def Status.known : Option JsValue → Option Status
  | some (.string s) => [Status.enabled,.disabled,.comingSoon].find? fun t => t.text = s
  | _ => Option.none

/-- The known type that a value is the text of. -/
def ActionType.known : Option JsValue → Option ActionType
  | some (.string s) => [startAgent,displayCard,comingSoon,none].find? fun t => t.text = s
  | _ => Option.none

def normalizeStatus (raw : Option JsValue) : Status := (Status.known raw).getD .enabled

/-- An action of a known type; one that starts an agent names it. -/
structure CardAction where
  fields : List (JsString × JsValue)
  type : ActionType
  type_eq : get fields (js "type") = some (.string type.text)
  named : type = .startAgent → (nonEmptyString (get fields (js "agentKey"))).isSome

/-- `{ type: 'none' }`. -/
def CardAction.inert : CardAction where
  fields := [(js "type",.string ActionType.none.text)]
  type := .none
  type_eq := rfl
  named := fun h => by cases h

def normalizeAction : Option JsValue → CardAction
  | some (.object raw) =>
    let type := (ActionType.known (get raw (js "type"))).getD .none
    if h : type = .startAgent ∧ nonEmptyString (get raw (js "agentKey")) = none then .inert
    else {
      fields := set (js "type") (.string type.text) raw
      type := type
      type_eq := get_set_self _ _ _
      named := by
        intro ht
        rw [get_set_of_ne (by decide)]
        exact Option.ne_none_iff_isSome.mp fun hn => h ⟨ht,hn⟩ }
  | _ => .inert

/-- What an entry is sorted by. -/
structure Positioned where
  index : ℕ
  order : JsFinite

/-- The difference of the orders, and of the positions where it is zero. The difference of two finite
numbers has its sign also where it is rounded, and it is zero for equal ones only. -/
def byOrderThenIndex (a b : Positioned) : ℚ :=
  let d := a.order.toRat - b.order.toRat
  if d ≠ 0 then d else (a.index : ℚ) - b.index

/-- `Number.isFinite(raw.order) ? raw.order : index * IMPLICIT_ORDER_STEP`. -/
def orderOr (index : ℕ) : Option JsValue → JsFinite
  | some (.number (.finite n)) => n
  | _ => .value (index * 10)

/-- `isPlainObject(raw.meta) ? raw.meta : {}`. -/
def metaOf : Option JsValue → List (JsString × JsValue)
  | some (.object fields) => fields
  | _ => []

structure AgentEntry extends Positioned where
  id : NonBlank
  label : NonBlank
  status : Status
  action : CardAction
  /-- `meta`. -/
  info : List (JsString × JsValue)

structure CapabilityEntry extends Positioned where
  id : NonBlank
  title : NonBlank
  description : Trimmed
  icon : Trimmed
  badge : Option NonBlank
  status : Status
  action : CardAction
  agents : List AgentEntry
  /-- `meta`. -/
  info : List (JsString × JsValue)

/-- `raw.visible === false`. -/
def hidden (fields : List (JsString × JsValue)) : Bool :=
  match get fields (js "visible") with
  | some (.bool false) => true
  | _ => false

/-- The fields of an entry with its two texts, if it has these and is not hidden. -/
def complete (required : JsString) (raw : JsValue) : Option (List (JsString × JsValue) × NonBlank × NonBlank) :=
  match raw with
  | .object fields => match nonEmptyString (get fields (js "id")),nonEmptyString (get fields required) with
    | some id,some name => if hidden fields then none else some (fields,id,name)
    | _,_ => none
  | _ => none

def normalizeAgent (raw : JsValue) (index : ℕ) : Option AgentEntry :=
  (complete (js "label") raw).map fun (fields,id,label) => {
    index := index
    id := id
    label := label
    status := normalizeStatus (get fields (js "status"))
    order := orderOr index (get fields (js "order"))
    action := normalizeAction (get fields (js "action"))
    info := metaOf (get fields (js "meta")) }

/-- `Array.isArray(raw.agents) ? raw.agents : []`. -/
def agentList (fields : List (JsString × JsValue)) : List JsValue :=
  match get fields (js "agents") with
  | some (.array items) => items
  | _ => []

def normalizeCapability (raw : JsValue) (index : ℕ) : Option CapabilityEntry :=
  (complete (js "title") raw).map fun (fields,id,title) => {
    index := index
    id := id
    title := title
    description := orEmpty (nonEmptyString (get fields (js "description")))
    icon := orEmpty (nonEmptyString (get fields (js "icon")))
    badge := nonEmptyString (get fields (js "badge"))
    status := normalizeStatus (get fields (js "status"))
    order := orderOr index (get fields (js "order"))
    action := normalizeAction (get fields (js "action"))
    agents := arrange normalizeAgent (fun a b => byOrderThenIndex a.toPositioned b.toPositioned ≤ 0)
      (agentList fields)
    info := metaOf (get fields (js "meta")) }

/-- The entries of the document, if it has any. -/
def documentList : JsValue → Option (List JsValue)
  | .array items => some items
  | .object fields => match get fields (js "capabilities") with
    | some (.array items) => some items
    | _ => none
  | _ => none

def normalizeCapabilities (raw : JsValue) : Option (List CapabilityEntry) :=
  (documentList raw).map
    (arrange normalizeCapability fun a b => byOrderThenIndex a.toPositioned b.toPositioned ≤ 0)

/-- The properties of an entry. -/
def AgentEntry.fields (a : AgentEntry) : List (JsString × JsValue) := [
  (js "_index",.number (.finite (.value a.index))),(js "id",.string a.id.text),(js "label",.string a.label.text),
  (js "status",.string a.status.text),(js "order",.number (.finite a.order)),(js "action",.object a.action.fields),
  (js "meta",.object a.info)]

def AgentEntry.toValue (a : AgentEntry) : JsValue := .object a.fields

def CapabilityEntry.fields (c : CapabilityEntry) : List (JsString × JsValue) := [
  (js "_index",.number (.finite (.value c.index))),(js "id",.string c.id.text),(js "title",.string c.title.text),
  (js "description",.string c.description.val),(js "icon",.string c.icon.val),
  (js "badge",match c.badge with
    | some s => .string s.text
    | none => .null),
  (js "status",.string c.status.text),(js "order",.number (.finite c.order)),(js "action",.object c.action.fields),
  (js "agents",.array (c.agents.map AgentEntry.toValue)),(js "meta",.object c.info)]

def CapabilityEntry.toValue (c : CapabilityEntry) : JsValue := .object c.fields

section Fields

variable {v : Option JsValue}

/-- A string with something in it besides white space. -/
def HasText (v : Option JsValue) : Prop := ∃ s, v = some (.string s) ∧ ∃ c ∈ s, isWhite c = false

theorem nonEmptyString_isSome : (nonEmptyString v).isSome ↔ HasText v := by
  unfold HasText nonEmptyString
  split
  · rename_i s
    have htext : trim s ≠ [] ↔ ∃ c ∈ s, isWhite c = false := by
      rw [Ne,trim_eq_nil_iff]
      simp
    split
    · rename_i h
      simpa using htext.mp h
    · rename_i h
      simpa using fun c hc hw => h (htext.mpr ⟨c,hc,hw⟩)
  · rename_i h
    simp only [Option.isSome_none,Bool.false_eq_true,false_iff,not_exists,not_and]
    exact fun s hs => absurd hs (h s)

theorem nonEmptyString_text (s : NonBlank) : nonEmptyString (some (.string s.text)) = some s := by
  obtain ⟨text,htrim,hne⟩ := s
  simp only [nonEmptyString,htrim]
  exact dif_pos hne

theorem orEmpty_text (t : Trimmed) : orEmpty (nonEmptyString (some (.string t.val))) = t := by
  obtain ⟨text,htrim⟩ := t
  by_cases h : text = []
  · subst h
    rfl
  · simp only [nonEmptyString,htrim]
    rw [dif_pos h]
    rfl

theorem normalizeStatus_text (st : Status) : normalizeStatus (some (.string st.text)) = st := by
  cases st <;> rfl

theorem known_text (t : ActionType) : ActionType.known (some (.string t.text)) = some t := by
  cases t <;> rfl

theorem normalizeAction_fields (a : CardAction) : normalizeAction (some (.object a.fields)) = a := by
  obtain ⟨fields,type,htype,hnamed⟩ := a
  have hknown : (ActionType.known (get fields (js "type"))).getD .none = type := by
    rw [htype,known_text]
    rfl
  have hneg : ¬(type = .startAgent ∧ nonEmptyString (get fields (js "agentKey")) = none) := by
    rintro ⟨ht,hn⟩
    have hsome := hnamed ht
    rw [hn] at hsome
    cases hsome
  simp only [normalizeAction,hknown,dif_neg hneg,set_of_get htype]

end Fields

section Entries

variable {raw : JsValue} {fields : List (JsString × JsValue)} {required : JsString} {i : ℕ} {a : AgentEntry}
  {c : CapabilityEntry}

/-- The entries that are kept. -/
def Kept (required : JsString) (raw : JsValue) : Prop :=
  ∃ fields, raw = .object fields ∧ HasText (get fields (js "id")) ∧ HasText (get fields required) ∧
    get fields (js "visible") ≠ some (.bool false)

theorem hidden_iff : hidden fields = true ↔ get fields (js "visible") = some (.bool false) := by
  unfold hidden
  split
  · rename_i h
    simp [h]
  · rename_i h
    simpa using h

theorem complete_isSome : (complete required raw).isSome ↔ Kept required raw := by
  unfold Kept
  cases raw with
  | object fields =>
    simp only [complete,JsValue.object.injEq,exists_eq_left',← nonEmptyString_isSome,ne_eq,← hidden_iff]
    cases nonEmptyString (get fields (js "id")) with
    | none => simp
    | some id =>
      cases nonEmptyString (get fields required) with
      | none => simp
      | some name => cases hidden fields <;> simp
  | _ => simp [complete]

theorem normalizeAgent_isSome : (normalizeAgent raw i).isSome ↔ Kept (js "label") raw := by
  rw [normalizeAgent,Option.isSome_map,complete_isSome]

theorem normalizeCapability_isSome : (normalizeCapability raw i).isSome ↔ Kept (js "title") raw := by
  rw [normalizeCapability,Option.isSome_map,complete_isSome]

theorem normalizeAgent_index (h : normalizeAgent raw i = some a) : a.index = i := by
  rw [normalizeAgent,Option.map_eq_some_iff] at h
  obtain ⟨_,-,rfl⟩ := h
  rfl

theorem normalizeCapability_index (h : normalizeCapability raw i = some c) : c.index = i := by
  rw [normalizeCapability,Option.map_eq_some_iff] at h
  obtain ⟨_,-,rfl⟩ := h
  rfl

/-- The comparison is of the orders, and of the positions where they are equal. -/
theorem byOrderThenIndex_byKey {β : Type} (pos : β → Positioned) :
    ByKey (fun a b => byOrderThenIndex (pos a) (pos b) ≤ 0) (fun b => (pos b).order.toRat) fun b => (pos b).index := by
  intro a b
  rw [decide_eq_true_iff,byOrderThenIndex]
  by_cases h : (pos a).order.toRat = (pos b).order.toRat
  · simp only [h,sub_self,ne_eq,not_true_eq_false,if_false,sub_nonpos,Nat.cast_le,lt_irrefl,true_and,false_or]
  · have hne : (pos a).order.toRat - (pos b).order.toRat ≠ 0 := sub_ne_zero.mpr h
    simp [hne,h,le_iff_lt_or_eq]

theorem arranges_agents (list : List JsValue) : Arranges normalizeAgent (·.order.toRat) (·.index) list
    (arrange normalizeAgent (fun a b => byOrderThenIndex a.toPositioned b.toPositioned ≤ 0) list) :=
  arranges_arrange (fun _ _ _ => normalizeAgent_index) (byOrderThenIndex_byKey AgentEntry.toPositioned)

theorem arranges_capabilities (list : List JsValue) : Arranges normalizeCapability (·.order.toRat) (·.index) list
    (arrange normalizeCapability (fun a b => byOrderThenIndex a.toPositioned b.toPositioned ≤ 0) list) :=
  arranges_arrange (fun _ _ _ => normalizeCapability_index) (byOrderThenIndex_byKey CapabilityEntry.toPositioned)

end Entries

/-- The same entry at another position. -/
def AgentEntry.place (i : ℕ) (a : AgentEntry) : AgentEntry := {a with index := i}

def CapabilityEntry.place (i : ℕ) (c : CapabilityEntry) : CapabilityEntry :=
  {c with index := i, agents := c.agents.mapIdx AgentEntry.place}

/-- The entry without `_index`, in it and in its agents. -/
def CapabilityEntry.withoutIndex (c : CapabilityEntry) : CapabilityEntry :=
  {c with index := 0, agents := c.agents.map (AgentEntry.place 0)}

section Again

variable {fields : List (JsString × JsValue)} {required : JsString} {id name : NonBlank}

theorem complete_object (hid : get fields (js "id") = some (.string id.text))
    (hname : get fields required = some (.string name.text)) (hv : get fields (js "visible") = none) :
    complete required (.object fields) = some (fields,id,name) := by
  simp only [complete,hid,hname,nonEmptyString_text,hidden,hv,Bool.false_eq_true,if_false]

theorem normalizeAgent_again (a : AgentEntry) (i : ℕ) : normalizeAgent a.toValue i = some (a.place i) := by
  have hcomplete : complete (js "label") a.toValue = some (a.fields,a.id,a.label) :=
    complete_object rfl rfl rfl
  have hstatus : get a.fields (js "status") = some (.string a.status.text) := rfl
  have haction : get a.fields (js "action") = some (.object a.action.fields) := rfl
  simp only [normalizeAgent,hcomplete,Option.map_some,hstatus,haction,normalizeStatus_text,normalizeAction_fields]
  rfl

theorem agents_again {agents : List AgentEntry} (hs : agents.Pairwise fun a a' => a.order.toRat ≤ a'.order.toRat) :
    arrange normalizeAgent (fun a b => byOrderThenIndex a.toPositioned b.toPositioned ≤ 0)
      (agents.map AgentEntry.toValue) = agents.mapIdx AgentEntry.place :=
  arrange_again (byOrderThenIndex_byKey AgentEntry.toPositioned) (fun a _ i => normalizeAgent_again a i)
    (fun _ _ => rfl) (fun _ _ => rfl) hs

theorem normalizeCapability_again {c : CapabilityEntry}
    (hs : c.agents.Pairwise fun a a' => a.order.toRat ≤ a'.order.toRat) (i : ℕ) :
    normalizeCapability c.toValue i = some (c.place i) := by
  have hcomplete : complete (js "title") c.toValue = some (c.fields,c.id,c.title) :=
    complete_object rfl rfl rfl
  have hdescription : get c.fields (js "description") = some (.string c.description.val) := rfl
  have hicon : get c.fields (js "icon") = some (.string c.icon.val) := rfl
  have hbadge : nonEmptyString (get c.fields (js "badge")) = c.badge := by
    have hget : get c.fields (js "badge") = some (match c.badge with
      | some s => .string s.text
      | none => .null) := rfl
    rw [hget]
    cases c.badge with
    | none => rfl
    | some s => exact nonEmptyString_text s
  have hstatus : get c.fields (js "status") = some (.string c.status.text) := rfl
  have haction : get c.fields (js "action") = some (.object c.action.fields) := rfl
  have hagents : agentList c.fields = c.agents.map AgentEntry.toValue := rfl
  simp only [normalizeCapability,hcomplete,Option.map_some,hdescription,orEmpty_text,hicon,hbadge,hstatus,
    normalizeStatus_text,haction,normalizeAction_fields,hagents,agents_again hs]
  rfl

theorem withoutIndex_place (i : ℕ) (c : CapabilityEntry) : (c.place i).withoutIndex = c.withoutIndex := by
  have hagents : (c.agents.mapIdx AgentEntry.place).map (AgentEntry.place 0) = c.agents.map (AgentEntry.place 0) := by
    apply List.ext_getElem
    · simp
    · intro j h₁ h₂
      simp [AgentEntry.place]
  simp only [CapabilityEntry.withoutIndex,CapabilityEntry.place,hagents]

end Again

section Document

variable {raw : JsValue} {list : List JsValue} {required : JsString} {fields : List (JsString × JsValue)}
  {id name : NonBlank} {i : ℕ} {c : CapabilityEntry}

theorem documentList_eq_some : documentList raw = some list ↔
    raw = .array list ∨ ∃ fields, raw = .object fields ∧ get fields (js "capabilities") = some (.array list) := by
  cases raw with
  | array items => simp [documentList]
  | object fields =>
    simp only [documentList,reduceCtorEq,false_or,JsValue.object.injEq,exists_eq_left']
    split
    · rename_i h
      simp [h]
    · rename_i h
      simpa using h list
  | _ => simp [documentList]

theorem normalizeCapabilities_eq_none : normalizeCapabilities raw = none ↔
    ∀ list, raw ≠ .array list ∧
      ∀ fields, raw = .object fields → get fields (js "capabilities") ≠ some (.array list) := by
  rw [normalizeCapabilities,Option.map_eq_none_iff,Option.eq_none_iff_forall_ne_some]
  refine forall_congr' fun list => ?_
  rw [Ne,documentList_eq_some,not_or,not_exists]
  simp only [not_and]

theorem complete_fields (h : complete required raw = some (fields,id,name)) : raw = .object fields := by
  unfold complete at h
  split at h
  · split at h
    · split at h
      · cases h
      · rw [(Prod.mk.inj (Option.some.inj h)).1]
    · cases h
  · cases h

/-- The agents of an entry are those of what it was made of, arranged. -/
theorem agents_of_normalized (h : normalizeCapability raw i = some c) : ∃ fields, raw = .object fields ∧
    Arranges normalizeAgent (·.order.toRat) (·.index) (agentList fields) c.agents := by
  rw [normalizeCapability,Option.map_eq_some_iff] at h
  obtain ⟨⟨fields,id,title⟩,hcomplete,rfl⟩ := h
  exact ⟨fields,complete_fields hcomplete,arranges_agents _⟩

/-- An action of a known type, which names the agent that it starts. -/
def CardAction.Runnable (a : CardAction) : Prop :=
  ∃ t : ActionType, get a.fields (js "type") = some (.string t.text) ∧
    (t = .startAgent → HasText (get a.fields (js "agentKey")))

theorem CardAction.runnable (a : CardAction) : a.Runnable :=
  ⟨a.type,a.type_eq,fun h => nonEmptyString_isSome.mp (a.named h)⟩

end Document

/-- The document that is null has neither form; of any other the result holds exactly the entries that are
kept, by their order and then their position, each with its agents likewise; their actions are known ones;
and what is normalised stays as it is but for the positions. -/
theorem normalizeCapabilities_exact (raw : JsValue) :
    (normalizeCapabilities raw = none ↔ ∀ list, raw ≠ .array list ∧
      ∀ fields, raw = .object fields → get fields (js "capabilities") ≠ some (.array list)) ∧
    (∀ entry i, (normalizeCapability entry i).isSome ↔ Kept (js "title") entry) ∧
    (∀ entry i, (normalizeAgent entry i).isSome ↔ Kept (js "label") entry) ∧
    ∀ result, normalizeCapabilities raw = some result →
      ∃ list, (raw = .array list ∨
          ∃ fields, raw = .object fields ∧ get fields (js "capabilities") = some (.array list)) ∧
        Arranges normalizeCapability (·.order.toRat) (·.index) list result ∧
        (∀ c ∈ result, ∃ fields, list[c.index]? = some (.object fields) ∧
          Arranges normalizeAgent (·.order.toRat) (·.index) (agentList fields) c.agents) ∧
        (∀ c ∈ result, c.action.Runnable ∧ ∀ a ∈ c.agents, a.action.Runnable) ∧
        ∃ again, normalizeCapabilities (.array (result.map CapabilityEntry.toValue)) = some again ∧
          again.map CapabilityEntry.withoutIndex = result.map CapabilityEntry.withoutIndex := by
  refine ⟨normalizeCapabilities_eq_none,fun _ _ => normalizeCapability_isSome,fun _ _ => normalizeAgent_isSome,?_⟩
  intro result h
  obtain ⟨list,hlist,rfl⟩ := Option.map_eq_some_iff.mp h
  have harranges := arranges_capabilities list
  generalize arrange normalizeCapability
    (fun a b => byOrderThenIndex a.toPositioned b.toPositioned ≤ 0) list = result at harranges
  have hagents : ∀ c ∈ result, ∃ fields, list[c.index]? = some (.object fields) ∧
      Arranges normalizeAgent (·.order.toRat) (·.index) (agentList fields) c.agents := by
    intro c hc
    obtain ⟨entry,hentry,hnorm⟩ := (harranges.mem c).mp hc
    obtain ⟨fields,rfl,hagents⟩ := agents_of_normalized hnorm
    exact ⟨fields,hentry,hagents⟩
  have hagain : ∀ c ∈ result, ∀ i, normalizeCapability c.toValue i = some (c.place i) := by
    intro c hc i
    obtain ⟨fields,-,harr⟩ := hagents c hc
    refine normalizeCapability_again (harr.sorted.imp ?_) i
    rintro a a' (hlt | ⟨heq,-⟩)
    · exact le_of_lt hlt
    · exact le_of_eq heq
  have hsorted : result.Pairwise fun c c' => c.order.toRat ≤ c'.order.toRat := by
    refine harranges.sorted.imp ?_
    rintro c c' (hlt | ⟨heq,-⟩)
    · exact le_of_lt hlt
    · exact le_of_eq heq
  refine ⟨list,documentList_eq_some.mp hlist,harranges,hagents,
    fun c _ => ⟨c.action.runnable,fun a _ => a.action.runnable⟩,result.mapIdx CapabilityEntry.place,?_,?_⟩
  · have hdoc : documentList (.array (result.map CapabilityEntry.toValue)) =
        some (result.map CapabilityEntry.toValue) := rfl
    rw [normalizeCapabilities,hdoc,Option.map_some,arrange_again
      (byOrderThenIndex_byKey CapabilityEntry.toPositioned) hagain (fun _ _ => rfl) (fun _ _ => rfl) hsorted]
  · apply List.ext_getElem
    · simp
    · intro j h₁ h₂
      simp [withoutIndex_place]

end CapabilitySchema
end Saarathi
