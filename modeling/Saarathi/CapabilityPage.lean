import Saarathi.CapabilityReach
import Saarathi.PageValues

/-!
# The capability document in the page

The document as `resolve_for_user` answers it, with all of its fields, and what
`normalizeCapabilities` makes of it in the page.
-/

namespace Saarathi

open AdminConfig Arrangement Catalogue ScopedSelection

/-- `_STATUS_OUT`. -/
def CapabilityStatus.out : CapabilityStatus → String
  | active => "enabled"
  | comingSoon => "coming_soon"
  | disabled => "disabled"

/-- The row of a key that `_CAPABILITIES_SQL` selects. -/
def CapabilityStore.rowFor (st : CapabilityStore) (s : Scope) (key : String) : Option CapabilityRow :=
  first (fun r : CapabilityRow => rank s r.scope) (st.rows.filter fun r => admits defaultScope s r.scope && r.key = key)

section Document

variable (icons : String → Option String)

/-- A button of the document; `icons` is the column of `agents`, by key. -/
def buttonFields (b : AgentEntry) : List (String × Json) := [
  ("id",.str b.agentKey),("label",.str b.label),("description",.str b.description),
  ("icon",.str ((icons b.agentKey).getD "")),("status",.str "enabled"),("order",.num (toString b.order)),
  ("visible",.bool true),("action",.obj b.action)]

/-- A card of the document, with the columns of its row that are texts only. -/
def cardFields (row : Option CapabilityRow) (card : CapabilityEntry) : List (String × Json) := [
  ("id",.str card.key),("title",.str card.title),("description",.str ((row.bind (·.description)).getD "")),
  ("icon",.str ((row.bind (·.icon)).getD "")),("badge",textOrNull (row.bind (·.badge))),
  ("status",.str card.status.out),("order",.num (toString card.order)),("visible",.bool true),
  ("action",.obj card.action),("agents",.arr (card.agents.map fun b => .obj (buttonFields icons b)))]

/-- `resolve_for_user`. -/
def CapabilityStore.document (st : CapabilityStore) (v : Validation) (user : Option UserContext) : Except Exn Json :=
  (st.catalogue.resolveForUser v user).map fun cards => .obj [
    ("version",.num "1"),
    ("capabilities",.arr (cards.map fun card => .obj (cardFields icons (st.rowFor (scopeOf user) card.key) card)))]

end Document

/-- The check constraints of the keys, and the type of the orders. -/
structure CapabilityStore.Checked (st : CapabilityStore) : Prop where
  keys : ∀ r ∈ st.rows, isKeySlug r.key = true
  agentKeys : ∀ a ∈ st.catalogue.agents, isKeySlug a.key = true
  orders : ∀ r ∈ st.rows, fitsInteger r.displayOrder = true
  memberOrders : ∀ m ∈ st.catalogue.members, fitsInteger m.displayOrder = true

section Rows

variable {st : CapabilityStore} {s : Scope}

/-- The row of a card is the one that it was made of. -/
theorem rowFor_eq {cap : Capability} (hcap : cap ∈ st.catalogue.resolvedCapabilities s) :
    ∃ row, st.rowFor s cap.key = some row ∧ row ∈ st.rows ∧ row.toCapability = cap := by
  obtain ⟨hmem,hfirst⟩ := (mem_distinctOn_iff (CapabilityStore.onePlace_capabilities st.catalogue s)).mp hcap
  obtain ⟨hstored,hadmits⟩ := List.mem_filter.mp hmem
  obtain ⟨row,hrow,rfl⟩ := CapabilityStore.mem_capabilities.mp hstored
  refine ⟨row,?_,hrow,rfl⟩
  refine first_eq_of_lt (List.mem_filter.mpr ⟨hrow,by simpa using hadmits⟩) fun r hr => ?_
  obtain ⟨hr,hat⟩ := List.mem_filter.mp hr
  simp only [Bool.and_eq_true,decide_eq_true_eq] at hat
  have hcand : r.toCapability ∈ st.catalogue.capabilities.filter fun cap => admits defaultScope s cap.scope :=
    List.mem_filter.mpr ⟨CapabilityStore.mem_capabilities.mpr ⟨r,hr,rfl⟩,hat.1⟩
  rcases hfirst r.toCapability hcand hat.2 with heq | hlt
  · exact .inl (List.inj_on_of_nodup_map st.nodup_id hr hrow (congrArg Capability.id heq))
  · exact .inr hlt

end Rows

section White

open CapabilitySchema

/-- A text with something in it. -/
def worded (s : String) : Bool := trim (utf16 s) ≠ []

theorem isWhite_of_range {u : UInt16} (h : 0x21 ≤ u.toNat) (h' : u.toNat < 0xA0) : isWhite u = false := by
  simp only [isWhite,Bool.or_eq_false_iff,Bool.and_eq_false_iff,decide_eq_false_iff_not,beq_eq_false_iff_ne]
  omega

theorem slug_bounds {c : Char} (h : (c.isLower || c.isDigit || c = '_') = true) : 0x21 ≤ c.toNat ∧ c.toNat < 0xA0 := by
  have hlower : c.isLower = (decide (c.val ≥ 'a'.val) && decide (c.val ≤ 'z'.val)) := rfl
  simp only [hlower,Bool.or_eq_true,Char.isDigit,Bool.and_eq_true,decide_eq_true_eq,ge_iff_le,
    UInt32.le_iff_toNat_le] at h
  rcases h with (⟨h₁,h₂⟩ | ⟨h₁,h₂⟩) | rfl
  · exact ⟨Nat.le_trans (by decide) h₁,Nat.lt_of_le_of_lt h₂ (by decide)⟩
  · exact ⟨Nat.le_trans (by decide) h₁,Nat.lt_of_le_of_lt h₂ (by decide)⟩
  · decide

theorem unitsOf_slug {c : Char} (h : (c.isLower || c.isDigit || c = '_') = true) :
    ∀ u ∈ unitsOf c, isWhite u = false := by
  obtain ⟨hlow,hhigh⟩ := slug_bounds h
  intro u hu
  rw [unitsOf,if_pos (by omega)] at hu
  obtain rfl := List.mem_singleton.mp hu
  have hnat : (UInt16.ofNat c.toNat).toNat = c.toNat := UInt16.toNat_ofNat_of_lt' (Nat.lt_trans hhigh (by decide))
  exact isWhite_of_range (by omega) (by omega)

theorem trim_of_no_white {us : JsString} (h : ∀ u ∈ us, isWhite u = false) : trim us = us := by
  have hdrop : us.dropWhile isWhite = us := by
    cases us with
    | nil => rfl
    | cons u us => exact List.dropWhile_cons_of_neg (by simp [h u List.mem_cons_self])
  rw [trim,hdrop,List.rdropWhile_eq_self_iff]
  intro hne
  simp [h _ (List.getLast_mem hne)]

theorem slug_chars {s : String} (h : isKeySlug s = true) :
    s.toList ≠ [] ∧ ∀ c ∈ s.toList, (c.isLower || c.isDigit || c = '_') = true := by
  unfold isKeySlug at h
  split at h
  · cases h
  · rename_i c cs hlist
    rw [hlist]
    simp only [Bool.and_eq_true,List.all_eq_true] at h
    refine ⟨List.cons_ne_nil c cs,fun c' hc' => ?_⟩
    rcases List.mem_cons.mp hc' with rfl | hc'
    · rw [h.1.1.1,Bool.true_or,Bool.true_or]
    · exact h.2 c' hc'

/-- A slug is shown as it is. -/
theorem trim_slug {s : String} (h : isKeySlug s = true) : trim (utf16 s) = utf16 s ∧ utf16 s ≠ [] := by
  obtain ⟨hne,hchars⟩ := slug_chars h
  refine ⟨trim_of_no_white fun u hu => ?_,fun hnil => hne ?_⟩
  · obtain ⟨c,hc,hu⟩ := List.mem_flatMap.mp hu
    exact unitsOf_slug (hchars c hc) u hu
  · have hempty : utf16 s = utf16 "" := hnil
    rw [utf16_injective hempty]
    rfl

end White

/-- The page shows a button of the document. -/
structure ShowsButton (other : String → JsNumber) (b : AgentEntry) (a : CapabilitySchema.AgentEntry) : Prop where
  id : a.id.text = utf16 b.agentKey
  label : a.label.text = CapabilitySchema.trim (utf16 b.label)
  status : a.status = .enabled
  order : a.order = .value b.order
  action : a.action = CapabilitySchema.normalizeAction (some (.object (toJsFields other b.action)))
  starts : Json.lookup b.action "type" = some (.str "start_agent") → a.action.type = .startAgent ∧
    JsValue.get a.action.fields (js "agentKey") = some (.string (utf16 b.agentKey))

section Buttons

open CapabilitySchema

variable {other : String → JsNumber} {icons : String → Option String} {b : Catalogue.AgentEntry} {i : ℕ}

theorem nonEmptyString_of_ne (us : JsString) (h : trim us ≠ []) :
    ∃ t : NonBlank, nonEmptyString (some (.string us)) = some t ∧ t.text = trim us :=
  ⟨⟨trim us,trim_trim us,h⟩,dif_pos h,rfl⟩

theorem nonEmptyString_of_blank {us : JsString} (h : ¬ trim us ≠ []) : nonEmptyString (some (.string us)) = none :=
  dif_neg h

theorem fits_exact {i : ℤ} (h : fitsInteger i = true) : i.natAbs ≤ 2 ^ 53 := by
  simp only [fitsInteger,Bool.and_eq_true,decide_eq_true_eq] at h
  omega

/-- The injected key is the action's. -/
theorem lookup_withAgentKey (key : String) (action : List (String × Json)) :
    Json.lookup (withAgentKey key action) "agentKey" = some (.str key) := by
  have hreplaced : ∀ es : List (String × Json), es.any (·.1 = "agentKey") = true →
      Json.lookup (es.map fun p => if p.1 = "agentKey" then ("agentKey",.str key) else p) "agentKey" =
        some (.str key) := by
    intro es
    induction es with
    | nil => intro h; cases h
    | cons e es ih =>
      intro h
      rw [List.map_cons,Json.lookup]
      by_cases he : e.1 = "agentKey"
      · rw [if_pos he,List.find?_cons_of_pos (by simp)]
        rfl
      · rw [if_neg he,List.find?_cons_of_neg (by simpa using he)]
        exact ih (by simpa [he] using h)
  unfold withAgentKey
  split
  · rename_i hany
    exact hreplaced action hany
  · rename_i hany
    have hnone : action.find? (·.1 = "agentKey") = none := by
      refine List.find?_eq_none.mpr fun e he hkey => hany ?_
      exact List.any_eq_true.mpr ⟨e,he,hkey⟩
    rw [Json.lookup,List.find?_append,hnone]
    rfl

variable (other) in
theorem get_field (fields : List (String × Json)) {k : String} (hk : js k = utf16 k) :
    JsValue.get (toJsFields other fields) (js k) = (Json.lookup fields k).map (toJs other) := by
  rw [hk]
  exact get_toJsFields fields k

variable (other) in
/-- An action that starts an agent, and has its key, is run. -/
theorem normalizeAction_starts {action : List (String × Json)} {key : String} (hkey : isKeySlug key = true)
    (htype : Json.lookup action "type" = some (.str "start_agent"))
    (hagent : Json.lookup action "agentKey" = some (.str key)) :
    (normalizeAction (some (.object (toJsFields other action)))).type = .startAgent ∧
      JsValue.get (normalizeAction (some (.object (toJsFields other action)))).fields (js "agentKey") =
        some (.string (utf16 key)) := by
  obtain ⟨htrim,hne⟩ := trim_slug hkey
  have hget : JsValue.get (toJsFields other action) (js "type") = some (.string (utf16 "start_agent")) := by
    rw [get_field other action (by decide),htype]
    rfl
  have hgetKey : JsValue.get (toJsFields other action) (js "agentKey") = some (.string (utf16 key)) := by
    rw [get_field other action (by decide),hagent]
    rfl
  obtain ⟨t,ht,-⟩ := nonEmptyString_of_ne (utf16 key) (by rw [htrim]; exact hne)
  have hknown : (ActionType.known (JsValue.get (toJsFields other action) (js "type"))).getD .none = .startAgent := by
    rw [hget]
    rfl
  have hrun : ¬ ((ActionType.known (JsValue.get (toJsFields other action) (js "type"))).getD .none = .startAgent ∧
      nonEmptyString (JsValue.get (toJsFields other action) (js "agentKey")) = none) := by
    rw [hgetKey,ht]
    rintro ⟨-,hnone⟩
    cases hnone
  simp only [normalizeAction,dif_neg hrun]
  refine ⟨hknown,?_⟩
  rw [JsValue.get_set_of_ne (by decide),hgetKey]

variable (other) in
/-- What `complete` makes of an object with a key and a text. -/
theorem complete_of (fields : List (String × Json)) {required key name : String} (hkey : isKeySlug key = true)
    (hid : Json.lookup fields "id" = some (.str key)) (hrequired : js required = utf16 required)
    (hname : Json.lookup fields required = some (.str name)) (hvisible : Json.lookup fields "visible" = some (.bool true)) :
    if worded name then ∃ id text : NonBlank, id.text = utf16 key ∧ text.text = trim (utf16 name) ∧
      complete (js required) (.object (toJsFields other fields)) = some (toJsFields other fields,id,text)
    else complete (js required) (.object (toJsFields other fields)) = none := by
  obtain ⟨htrim,hne⟩ := trim_slug hkey
  obtain ⟨id,hnonempty,hidText⟩ := nonEmptyString_of_ne (utf16 key) (by rw [htrim]; exact hne)
  have hgetId : JsValue.get (toJsFields other fields) (js "id") = some (.string (utf16 key)) := by
    rw [get_field other fields (by decide),hid]
    rfl
  have hgetName : JsValue.get (toJsFields other fields) (js required) = some (.string (utf16 name)) := by
    rw [get_field other fields hrequired,hname]
    rfl
  have hgetVisible : JsValue.get (toJsFields other fields) (js "visible") = some (.bool true) := by
    rw [get_field other fields (by decide),hvisible]
    rfl
  by_cases hworded : trim (utf16 name) ≠ []
  · obtain ⟨text,htext,htextText⟩ := nonEmptyString_of_ne (utf16 name) hworded
    rw [worded,decide_eq_true hworded,if_pos rfl]
    refine ⟨id,text,hidText.trans htrim,htextText,?_⟩
    simp only [complete,hgetId,hnonempty,hgetName,htext,CapabilitySchema.hidden,hgetVisible,Bool.false_eq_true,if_false]
  · rw [worded,decide_eq_false hworded,if_neg Bool.false_ne_true]
    simp only [complete,hgetId,hnonempty,hgetName,nonEmptyString_of_blank hworded]

theorem orderOr_integer {n : ℤ} (h : fitsInteger n = true) (i : ℕ) :
    orderOr i (some (toJs other (.num (toString n)))) = .value n := by
  have hread : toJs other (.num (toString n)) = .number (.finite (.value n)) :=
    congrArg JsValue.number (readLiteral_toString other (fits_exact h))
  rw [hread]
  rfl

theorem normalizeAgent_button (hkey : isKeySlug b.agentKey = true) (horder : fitsInteger b.order = true)
    (haction : Json.lookup b.action "agentKey" = some (.str b.agentKey)) (i : ℕ) :
    if worded b.label then
      ∃ a, normalizeAgent (toJs other (.obj (buttonFields icons b))) i = some a ∧ ShowsButton other b a
    else normalizeAgent (toJs other (.obj (buttonFields icons b))) i = none := by
  have hcomplete := complete_of other (buttonFields icons b) hkey rfl (by decide : js "label" = utf16 "label")
    rfl rfl
  by_cases hworded : worded b.label = true
  · rw [if_pos hworded] at hcomplete ⊢
    obtain ⟨id,label,hid,hlabel,hcomplete⟩ := hcomplete
    have hstatus := get_field other (buttonFields icons b) (by decide : js "status" = utf16 "status")
    have horderField := get_field other (buttonFields icons b) (by decide : js "order" = utf16 "order")
    have hactionField := get_field other (buttonFields icons b) (by decide : js "action" = utf16 "action")
    refine ⟨_,congrArg (Option.map _) hcomplete,hid,hlabel,?_,?_,?_,fun htype => ?_⟩
    · exact (congrArg normalizeStatus hstatus).trans rfl
    · exact (congrArg (orderOr i) horderField).trans (orderOr_integer horder i)
    · exact congrArg normalizeAction hactionField
    · have hstarts := normalizeAction_starts other hkey htype haction
      have hsame := congrArg normalizeAction hactionField
      exact ⟨(congrArg CardAction.type hsame).trans hstarts.1,
        (congrArg (fun a : CardAction => JsValue.get a.fields (js "agentKey")) hsame).trans hstarts.2⟩
  · rw [if_neg hworded] at hcomplete ⊢
    exact congrArg (Option.map _) hcomplete

end Buttons

/-- The page's word for a status. -/
def CapabilityStatus.shown : CapabilityStatus → CapabilitySchema.Status
  | active => .enabled
  | comingSoon => .comingSoon
  | disabled => .disabled

/-- The page shows a card of the document, with the buttons that have a label. -/
structure ShowsCard (other : String → JsNumber) (row : Option CapabilityRow) (card : CapabilityEntry)
    (c : CapabilitySchema.CapabilityEntry) : Prop where
  id : c.id.text = utf16 card.key
  title : c.title.text = CapabilitySchema.trim (utf16 card.title)
  description : c.description.val = CapabilitySchema.trim (utf16 ((row.bind (·.description)).getD ""))
  icon : c.icon.val = CapabilitySchema.trim (utf16 ((row.bind (·.icon)).getD ""))
  badge : c.badge.map (·.text) = ((row.bind (·.badge)).filter worded).map fun s => CapabilitySchema.trim (utf16 s)
  status : c.status = card.status.shown
  order : c.order = .value card.order
  action : c.action = CapabilitySchema.normalizeAction (some (.object (toJsFields other card.action)))
  agents : List.Forall₂ (ShowsButton other) (card.agents.filter fun b => worded b.label) c.agents

section Cards

open CapabilitySchema

/-- The columns of a button are of the database's kinds, and it has its key. -/
structure Sound (b : Catalogue.AgentEntry) : Prop where
  key : isKeySlug b.agentKey = true
  order : fitsInteger b.order = true
  action : Json.lookup b.action "agentKey" = some (.str b.agentKey)

/-- So are those of a card, whose buttons are ordered. -/
structure SoundCard (card : Catalogue.CapabilityEntry) : Prop where
  key : isKeySlug card.key = true
  order : fitsInteger card.order = true
  agents : ∀ b ∈ card.agents, Sound b
  ordered : card.agents.Pairwise fun b b' => b.order ≤ b'.order

variable {other : String → JsNumber} {icons : String → Option String} {row : Option CapabilityRow}
  {card : Catalogue.CapabilityEntry} {i : ℕ}

theorem orEmpty_nonEmptyString (us : JsString) : (orEmpty (nonEmptyString (some (.string us)))).val = trim us := by
  by_cases h : trim us = []
  · rw [nonEmptyString_of_blank (not_not.mpr h),h]
    rfl
  · obtain ⟨t,ht,htext⟩ := nonEmptyString_of_ne us h
    rw [ht]
    exact htext

theorem nonEmptyString_badge (badge : Option String) :
    (nonEmptyString (some (toJs other (textOrNull badge)))).map (·.text) =
      (badge.filter worded).map fun s => trim (utf16 s) := by
  cases badge with
  | none => rfl
  | some s =>
    have htext : toJs other (textOrNull (some s)) = .string (utf16 s) := rfl
    rw [htext]
    by_cases h : trim (utf16 s) = []
    · rw [nonEmptyString_of_blank (not_not.mpr h),Option.filter_some_neg (by simp [worded,h])]
      rfl
    · obtain ⟨t,ht,htext⟩ := nonEmptyString_of_ne (utf16 s) h
      rw [ht,Option.filter_some_pos (by simp [worded,h])]
      exact congrArg some htext

variable (other icons) in
/-- The buttons of a card are shown in their order, those without a label left out. -/
theorem buttons_shown {bs : List Catalogue.AgentEntry} (hsound : ∀ b ∈ bs, Sound b)
    (hordered : bs.Pairwise fun b b' => b.order ≤ b'.order) :
    List.Forall₂ (ShowsButton other) (bs.filter fun b => worded b.label)
      (arrange normalizeAgent (fun a b => byOrderThenIndex a.toPositioned b.toPositioned ≤ 0)
        (bs.map fun b => toJs other (.obj (buttonFields icons b)))) := by
  refine forall₂_arrange (fun b : Catalogue.AgentEntry => (b.order : ℚ)) (fun _ _ _ => normalizeAgent_index)
    (byOrderThenIndex_byKey AgentEntry.toPositioned)
    (fun b hb i => normalizeAgent_button (hsound b hb).key (hsound b hb).order (hsound b hb).action i)
    (fun b a hshows => ?_) ?_
  · rw [hshows.order]
    rfl
  · exact hordered.imp fun hle => by exact_mod_cast hle

theorem normalizeStatus_out (st : CapabilityStatus) : normalizeStatus (some (.string (utf16 st.out))) = st.shown := by
  cases st <;> decide

theorem normalizeCapability_card (h : SoundCard card) (i : ℕ) :
    if worded card.title then ∃ c, normalizeCapability (toJs other (.obj (cardFields icons row card))) i = some c ∧
      ShowsCard other row card c
    else normalizeCapability (toJs other (.obj (cardFields icons row card))) i = none := by
  have hcomplete := complete_of other (cardFields icons row card) h.key rfl
    (by decide : js "title" = utf16 "title") rfl rfl
  by_cases hworded : worded card.title = true
  · rw [if_pos hworded] at hcomplete ⊢
    obtain ⟨id,title,hid,htitle,hcomplete⟩ := hcomplete
    have hdescription := get_field other (cardFields icons row card) (by decide : js "description" = _)
    have hicon := get_field other (cardFields icons row card) (by decide : js "icon" = utf16 "icon")
    have hbadge := get_field other (cardFields icons row card) (by decide : js "badge" = utf16 "badge")
    have hstatus := get_field other (cardFields icons row card) (by decide : js "status" = utf16 "status")
    have horder := get_field other (cardFields icons row card) (by decide : js "order" = utf16 "order")
    have haction := get_field other (cardFields icons row card) (by decide : js "action" = utf16 "action")
    have hagents := get_field other (cardFields icons row card) (by decide : js "agents" = utf16 "agents")
    refine ⟨_,congrArg (Option.map _) hcomplete,hid,htitle,?_,?_,?_,?_,?_,?_,?_⟩
    · exact (congrArg (fun v => (orEmpty (nonEmptyString v)).val) hdescription).trans (orEmpty_nonEmptyString _)
    · exact (congrArg (fun v => (orEmpty (nonEmptyString v)).val) hicon).trans (orEmpty_nonEmptyString _)
    · exact (congrArg (fun v => (nonEmptyString v).map (·.text)) hbadge).trans (nonEmptyString_badge _)
    · exact (congrArg normalizeStatus hstatus).trans (normalizeStatus_out card.status)
    · exact (congrArg (orderOr i) horder).trans (orderOr_integer h.order i)
    · exact congrArg normalizeAction haction
    · have hlist : agentList (toJsFields other (cardFields icons row card)) =
          card.agents.map fun b => toJs other (.obj (buttonFields icons b)) := by
        unfold agentList
        rw [hagents]
        exact (toJsItems_eq _).trans (List.map_map ..)
      have hshown := buttons_shown other icons h.agents h.ordered
      rw [← hlist] at hshown
      exact hshown
  · rw [if_neg hworded] at hcomplete ⊢
    exact congrArg (Option.map _) hcomplete

end Cards

section Page

open CapabilitySchema

variable {st : CapabilityStore} {v : Validation} {user : Option UserContext}

theorem soundCard_cardFor (h : st.Checked) {cap : Capability} (hcap : cap ∈ st.catalogue.capabilityRows (scopeOf user)) :
    SoundCard (st.catalogue.cardFor v user cap) := by
  have hstored : cap ∈ st.catalogue.capabilities := by
    simp only [capabilityRows,List.mem_insertionSort,List.mem_filter] at hcap
    exact (List.mem_filter.mp ((mem_distinctOn_iff (CapabilityStore.onePlace_capabilities _ _)).mp hcap.1).1).1
  obtain ⟨r,hr,rfl⟩ := CapabilityStore.mem_capabilities.mp hstored
  refine ⟨h.keys r hr,h.orders r hr,fun b hb => ?_,?_⟩
  · obtain ⟨⟨m,a,cfg⟩,hrow,rfl⟩ := List.mem_map.mp hb
    obtain ⟨hm,-,-,ha,-⟩ := mem_agentRows_iff.mp ((List.filter_sublist.trans List.filter_sublist).subset hrow)
    exact ⟨h.agentKeys a ha,h.memberOrders m hm,lookup_withAgentKey a.key _⟩
  · exact List.pairwise_map.mpr (pairwise_cardRows_order st.catalogue v user r.toCapability)

/-- The entries of the document are its cards, as the page has them. -/
theorem documentList_document (other : String → JsNumber) (cards : List Json) :
    documentList (toJs other (.obj [("version",.num "1"),("capabilities",.arr cards)])) = some (cards.map (toJs other)) := by
  have hget := get_field other [("version",.num "1"),("capabilities",.arr cards)]
    (by decide : js "capabilities" = utf16 "capabilities")
  refine documentList_eq_some.mpr (.inr ⟨_,rfl,?_⟩)
  rw [hget,← toJsItems_eq]
  rfl

end Page

end Saarathi
