import Saarathi.CapabilityReach
import Saarathi.Histories

/-!
# Undoing a customisation

A card that is created and deleted again leaves no trace in the tables, whatever
has been done to it and to other cards in between.
-/

namespace Saarathi

open AdminConfig Catalogue Histories

namespace CapabilityRow

/-- The row is the card of the address. -/
def isAt (key : String) (scope : Scope) (r : CapabilityRow) : Bool := r.key = key && r.scope = scope

variable {key : String} {scope : Scope} {r : CapabilityRow}

theorem isAt_iff : r.isAt key scope = true ↔ r.key = key ∧ r.scope = scope := by
  simp [isAt]

/-- The card of the address has the id. -/
def hasAt (key : String) (scope : Scope) (rows : List CapabilityRow) (id : ℕ) : Bool :=
  rows.any fun r => r.isAt key scope && r.id = id

theorem hasAt_iff {rows : List CapabilityRow} {id : ℕ} :
    hasAt key scope rows id = true ↔ ∃ r ∈ rows, r.isAt key scope = true ∧ r.id = id := by
  simp only [hasAt,List.any_eq_true,Bool.and_eq_true,decide_eq_true_eq]

end CapabilityRow

namespace CapabilityStore

/-- Every member is one of a capability, as the foreign key has it. -/
def Referenced (st : CapabilityStore) : Prop := ∀ m ∈ st.catalogue.members, ∃ r ∈ st.rows, r.id = m.capabilityId

/-- The tables without the card of an address and its members. -/
def without (key : String) (scope : Scope) (st : CapabilityStore) : CapabilityStore :=
  st.withRows (st.rows.filter fun r => !r.isAt key scope)
    (st.catalogue.members.filter fun m => !CapabilityRow.hasAt key scope st.rows m.capabilityId)
    (st.nodup_id.sublist (List.filter_sublist.map _)) (st.nodup_address.sublist (List.filter_sublist.map _))
    (st.catalogue.membership.sublist (List.filter_sublist.map _))

variable {st st' : CapabilityStore} {key key' : String} {scope scope' : Scope}

theorem ext_tables (hrows : st'.rows = st.rows) (hmembers : st'.catalogue.members = st.catalogue.members)
    (hsame : st.SameElse st') : st' = st := by
  obtain ⟨c,rows,hc⟩ := st
  obtain ⟨c',rows',hc'⟩ := st'
  obtain ⟨hagents,hconfigs⟩ := hsame
  obtain rfl : rows' = rows := hrows
  have hcapabilities : c'.capabilities = c.capabilities := hc'.symm.trans hc
  cases c
  cases c'
  simp only at hagents hconfigs hcapabilities hmembers
  subst hagents hconfigs hcapabilities hmembers
  rfl

theorem without_of_find (h : st.find key scope = none) : st.without key scope = st := by
  have hat : ∀ r ∈ st.rows, r.isAt key scope = false := fun r hr => Bool.eq_false_iff.mpr (List.find?_eq_none.mp h r hr)
  refine ext_tables ?_ ?_ ⟨rfl,rfl⟩
  · exact List.filter_eq_self.mpr fun r hr => by rw [hat r hr]; rfl
  · refine List.filter_eq_self.mpr fun m _ => ?_
    rw [Bool.not_eq_true',← Bool.not_eq_true,CapabilityRow.hasAt_iff]
    rintro ⟨r,hr,hr',-⟩
    rw [hat r hr] at hr'
    cases hr'

/-- Other cards are found as before. -/
theorem find_without (h : ¬ (key' = key ∧ scope' = scope)) :
    (st.without key scope).find key' scope' = st.find key' scope' := by
  refine List.find?_filter.trans ?_
  unfold find
  congr 1
  funext r
  rw [Bool.eq_iff_iff]
  simp only [decide_eq_true_eq,Bool.and_eq_true,Bool.not_eq_true']
  refine and_iff_right_of_imp fun hr => Bool.eq_false_iff.mpr fun hat => h ?_
  obtain ⟨hkey,hscope⟩ := CapabilityRow.isAt_iff.mp hat
  exact ⟨hr.1.symm.trans hkey,hr.2.symm.trans hscope⟩

end CapabilityStore

namespace CapabilityChange

open CapabilityStore CapabilityRow

variable {dr : MemberColumns} {actor : String} {st : CapabilityStore} {q : CapabilityRequest} {e : CapabilityChange}
  {key : String} {scope : Scope} {row before cap : CapabilityRow} {p : CapabilityPatch} {id : ℕ}
  {sent : List Json} {members : List CapabilityAgent}

theorem patch_isAt (p : CapabilityPatch) (r : CapabilityRow) (id : ℕ) :
    (if r.id = id then r.patch p else r).isAt key scope = r.isAt key scope := by
  split <;> rfl

theorem patch_id (p : CapabilityPatch) (r : CapabilityRow) (id : ℕ) :
    (if r.id = id then r.patch p else r).id = r.id := by
  split <;> rfl

theorem eq_of_isAt {r r' : CapabilityRow} (hr : r ∈ st.rows) (hr' : r' ∈ st.rows) (hat : r.isAt key scope = true)
    (hat' : r'.isAt key scope = true) : r = r' := by
  obtain ⟨hkey,hscope⟩ := isAt_iff.mp hat
  obtain ⟨hkey',hscope'⟩ := isAt_iff.mp hat'
  exact List.inj_on_of_nodup_map st.nodup_address hr hr' (Prod.ext (hscope.trans hscope'.symm) (hkey.trans hkey'.symm))

theorem eq_of_id {r r' : CapabilityRow} (hr : r ∈ st.rows) (hr' : r' ∈ st.rows) (hid : r.id = r'.id) : r = r' :=
  List.inj_on_of_nodup_map st.nodup_id hr hr' hid

theorem hasAt_patch (p : CapabilityPatch) (rows : List CapabilityRow) (id : ℕ) :
    hasAt key scope (rows.map fun r => if r.id = id then r.patch p else r) = hasAt key scope rows := by
  funext id'
  refine List.any_map.trans (congrArg _ (funext fun r => ?_))
  simp only [Function.comp,patch_isAt,patch_id]

theorem filter_patch (p : CapabilityPatch) (rows : List CapabilityRow) (id : ℕ) :
    (rows.map fun r => if r.id = id then r.patch p else r).filter (fun r => !r.isAt key scope) =
      (rows.filter fun r => !r.isAt key scope).map fun r => if r.id = id then r.patch p else r := by
  refine List.filter_map.trans (congrArg _ (congrArg (List.filter · rows) (funext fun r => ?_)))
  exact congrArg _ (patch_isAt p r id)

/-- Deleting one card does not matter to the members of another. -/
theorem hasAt_delete (before : CapabilityRow) {id : ℕ} (hid : id ≠ before.id) :
    hasAt key scope (st.delete before.id).rows id = hasAt key scope st.rows id := by
  rw [Bool.eq_iff_iff,hasAt_iff,hasAt_iff]
  constructor
  · rintro ⟨r,hr,hat,hrid⟩
    exact ⟨r,(List.mem_filter.mp hr).1,hat,hrid⟩
  · rintro ⟨r,hr,hat,hrid⟩
    exact ⟨r,List.mem_filter.mpr ⟨hr,decide_eq_true (hrid ▸ hid)⟩,hat,hrid⟩

section Mine

/-- A card that was not there, inserted and taken away again. -/
theorem without_inserted (hsound : st.Referenced) (hat : row.isAt key scope = true) :
    ((inserted row).apply actor st).1.without key scope = st.without key scope := by
  cases h : st.insert row with
  | none => simp only [apply,h,Option.getD_none]
  | some st' =>
    obtain ⟨hid,hrows,hmembers,hsame⟩ := insert_eq h
    simp only [apply,h,Option.getD_some]
    refine ext_tables ?_ ?_ ⟨hsame.agents,hsame.configs⟩
    · simp only [without,withRows,hrows,List.filter_append,List.filter_cons,List.filter_nil,hat,Bool.not_true]
      simp
    · simp only [without,withRows,hrows,hmembers]
      refine List.filter_congr fun m hm => congrArg _ ?_
      obtain ⟨r,hr,hrm⟩ := hsound m hm
      have hne : row.id ≠ m.capabilityId := fun heq => hid (List.mem_map.mpr ⟨r,hr,hrm.trans heq.symm⟩)
      rw [hasAt,List.any_append,List.any_cons,List.any_nil,decide_eq_false hne,Bool.and_false,Bool.or_false,
        Bool.or_false,hasAt]

theorem without_updated (hmem : before ∈ st.rows) (hat : before.isAt key scope = true) :
    ((updated before p).apply actor st).1.without key scope = st.without key scope := by
  have hkept : ∀ r ∈ st.rows.filter (fun r => !r.isAt key scope), (if r.id = before.id then r.patch p else r) = r := by
    intro r hr
    obtain ⟨hr,hnot⟩ := List.mem_filter.mp hr
    refine if_neg fun hid => ?_
    rw [eq_of_id hr hmem hid,hat] at hnot
    cases hnot
  refine ext_tables ?_ ?_ ⟨rfl,rfl⟩
  · exact (filter_patch p st.rows before.id).trans ((List.map_congr_left hkept).trans (List.map_id _))
  · exact List.filter_congr fun m _ => congrArg _ (congrFun (hasAt_patch p st.rows before.id) m.capabilityId)

theorem without_deleted (hmem : before ∈ st.rows) (hat : before.isAt key scope = true) :
    ((deleted before).apply actor st).1.without key scope = st.without key scope := by
  refine ext_tables ?_ ?_ ⟨rfl,rfl⟩
  · refine List.filter_filter.trans (List.filter_congr fun r hr => ?_)
    rw [Bool.and_eq_left_iff_imp]
    intro hnot
    refine decide_eq_true fun hid => ?_
    rw [eq_of_id hr hmem hid,hat] at hnot
    cases hnot
  · refine List.filter_filter.trans (List.filter_congr fun m _ => ?_)
    by_cases hid : m.capabilityId = before.id
    · rw [hasAt_iff.mpr ⟨before,hmem,hat,hid.symm⟩,decide_eq_false (not_not.mpr hid),Bool.and_false]
      rfl
    · refine (congrArg (fun b => !b && decide (m.capabilityId ≠ before.id)) (hasAt_delete before hid)).trans ?_
      rw [decide_eq_true hid,Bool.and_true]

theorem without_replaced (hmem : cap ∈ st.rows) (hat : cap.isAt key scope = true)
    (hmembers : ∀ m ∈ members, m.capabilityId = cap.id) :
    ((replaced cap.id sent members).apply actor st).1.without key scope = st.without key scope := by
  have hhas : ∀ m : CapabilityAgent, m.capabilityId = cap.id → hasAt key scope st.rows m.capabilityId = true :=
    fun m hm => hasAt_iff.mpr ⟨cap,hmem,hat,hm.symm⟩
  simp only [apply,CapabilityStore.replaceMembers]
  split
  · refine ext_tables rfl ?_ ⟨rfl,rfl⟩
    have hnew : (members.filter fun m => !hasAt key scope st.rows m.capabilityId) = [] :=
      List.filter_eq_nil_iff.mpr fun m hm => by simp [hhas m (hmembers m hm)]
    refine (List.filter_append _ _).trans ((congrArg _ hnew).trans ((List.append_nil _).trans ?_))
    refine List.filter_filter.trans (List.filter_congr fun m _ => ?_)
    by_cases hid : m.capabilityId = cap.id
    · refine Eq.trans ?_ (congrArg (!·) (hhas m hid)).symm
      rw [decide_eq_false (not_not.mpr hid),Bool.and_false]
      rfl
    · rw [decide_eq_true hid,Bool.and_true]
      rfl
  · rfl

end Mine

section Others

/-- A card of another address, inserted beside. -/
theorem inserted_without (hid : row.id ∉ st.rows.map (·.id)) (hnone : st.find row.key row.scope = none)
    (hat : row.isAt key scope = false) :
    ((inserted row).apply actor st).1.without key scope = ((inserted row).apply actor (st.without key scope)).1 := by
  have haddress : (row.scope,row.key) ∉ st.rows.map fun r => (r.scope,r.key) := by
    intro hmem
    obtain ⟨r,hr,heq⟩ := List.mem_map.mp hmem
    obtain ⟨hscope,hkey⟩ := Prod.mk.inj heq
    have hno := List.find?_eq_none.mp hnone r hr
    simp [hscope,hkey] at hno
  have hsub : (st.without key scope).rows.Sublist st.rows := List.filter_sublist
  obtain ⟨st₁,h₁⟩ := Option.isSome_iff_exists.mp (insert_isSome hid haddress)
  have hid' : row.id ∉ (st.without key scope).rows.map (·.id) := fun hmem => hid ((hsub.map _).subset hmem)
  have haddress' : (row.scope,row.key) ∉ (st.without key scope).rows.map fun r => (r.scope,r.key) :=
    fun hmem => haddress ((hsub.map _).subset hmem)
  obtain ⟨st₂,h₂⟩ := Option.isSome_iff_exists.mp (insert_isSome hid' haddress')
  obtain ⟨-,hrows₁,hmembers₁,hsame₁⟩ := insert_eq h₁
  obtain ⟨-,hrows₂,hmembers₂,hsame₂⟩ := insert_eq h₂
  simp only [apply,h₁,h₂,Option.getD_some]
  refine ext_tables ?_ ?_ ⟨?_,?_⟩
  · rw [hrows₂]
    simp only [without,withRows,hrows₁,List.filter_append,List.filter_cons,List.filter_nil,hat,Bool.not_false,if_true]
  · rw [hmembers₂]
    simp only [without,withRows,hrows₁,hmembers₁]
    refine List.filter_congr fun m _ => congrArg _ ?_
    rw [hasAt,hasAt,List.any_append,List.any_cons,List.any_nil,hat,Bool.false_and,Bool.or_false,Bool.or_false]
  · exact hsame₁.agents.trans hsame₂.agents.symm
  · exact hsame₁.configs.trans hsame₂.configs.symm

theorem updated_without : ((updated before p).apply actor st).1.without key scope =
    ((updated before p).apply actor (st.without key scope)).1 := by
  refine ext_tables (filter_patch p st.rows before.id) ?_ ⟨rfl,rfl⟩
  exact List.filter_congr fun m _ => congrArg _ (congrFun (hasAt_patch p st.rows before.id) m.capabilityId)

theorem deleted_without (before : CapabilityRow) : ((deleted before).apply actor st).1.without key scope =
    ((deleted before).apply actor (st.without key scope)).1 := by
  refine ext_tables ?_ ?_ ⟨rfl,rfl⟩
  · refine List.filter_filter.trans (Eq.trans ?_ List.filter_filter.symm)
    exact List.filter_congr fun r _ => Bool.and_comm _ _
  · refine List.filter_filter.trans (Eq.trans ?_ List.filter_filter.symm)
    refine List.filter_congr fun m _ => ?_
    by_cases hid : m.capabilityId = before.id
    · rw [decide_eq_false (not_not.mpr hid),Bool.and_false,Bool.false_and]
    · refine (congrArg (fun b => !b && decide (m.capabilityId ≠ before.id)) (hasAt_delete before hid)).trans ?_
      exact Bool.and_comm _ _

theorem replaced_without (hmem : cap ∈ st.rows) (hat : cap.isAt key scope = false)
    (hrows : AreRows dr st.catalogue cap.toCapability sent members)
    (hdistinct : ((listed dr st.catalogue sent).map (·.1.id)).Nodup) :
    ((replaced cap.id sent members).apply actor st).1.without key scope =
      ((replaced cap.id sent members).apply actor (st.without key scope)).1 := by
  have hmembers := (nodup_iff hrows).mpr hdistinct
  have hmembers' : (((st.without key scope).catalogue.members.filter (·.capabilityId ≠ cap.id) ++ members).map fun m =>
      (m.capabilityId,m.agentId)).Nodup := (nodup_iff (c := (st.without key scope).catalogue) hrows).mpr hdistinct
  have hnot : ∀ m ∈ members, hasAt key scope st.rows m.capabilityId = false := by
    intro m hm
    rw [← Bool.not_eq_true,hasAt_iff,hrows.capability hm]
    rintro ⟨r,hr,hrat,hid⟩
    rw [eq_of_id hr hmem hid,hat] at hrat
    cases hrat
  have hkept : (members.filter fun m => !hasAt key scope st.rows m.capabilityId) = members :=
    List.filter_eq_self.mpr fun m hm => by rw [hnot m hm]; rfl
  simp only [apply,CapabilityStore.replaceMembers,dif_pos hmembers,dif_pos hmembers']
  refine ext_tables rfl ?_ ⟨rfl,rfl⟩
  refine (List.filter_append _ _).trans (congrArg₂ (· ++ ·) ?_ hkept)
  refine List.filter_filter.trans (Eq.trans ?_ List.filter_filter.symm)
  exact List.filter_congr fun m _ => Bool.and_comm _ _

end Others

/-- A row comes into the table with the id of the request alone. -/
theorem Fits.ids (h : e.Fits dr st q) (hid : id ∈ (e.apply actor st).1.rows.map (·.id)) :
    id ∈ st.rows.map (·.id) ∨ q.createdId = some id := by
  obtain ⟨r,hr,rfl⟩ := List.mem_map.mp hid
  cases h with
  | kept => exact .inl (List.mem_map_of_mem hr)
  | @inserted _ row =>
    cases hinsert : st.insert row with
    | none =>
      simp only [apply,hinsert,Option.getD_none] at hr
      exact .inl (List.mem_map_of_mem hr)
    | some st' =>
      simp only [apply,hinsert,Option.getD_some,(insert_eq hinsert).2.1] at hr
      rcases List.mem_append.mp hr with hr | hr
      · exact .inl (List.mem_map_of_mem hr)
      · rw [List.mem_singleton.mp hr]
        exact .inr rfl
  | updated =>
    obtain ⟨r',hr',rfl⟩ := List.mem_map.mp hr
    rw [patch_id]
    exact .inl (List.mem_map_of_mem hr')
  | deleted => exact .inl (List.mem_map_of_mem (List.mem_filter.mp hr).1)
  | replaced => exact .inl (List.mem_map_of_mem ((st.replaceMembers_same _ _).1 ▸ hr))

/-- No change leaves a member without its capability. -/
theorem Fits.referenced (h : e.Fits dr st q) (hst : st.Referenced) : (e.apply actor st).1.Referenced := by
  intro m hm
  cases h with
  | kept => exact hst m hm
  | @inserted _ row =>
    cases hinsert : st.insert row with
    | none =>
      simp only [apply,hinsert,Option.getD_none] at hm ⊢
      exact hst m hm
    | some st' =>
      obtain ⟨-,hrows,hmembers,-⟩ := insert_eq hinsert
      simp only [apply,hinsert,Option.getD_some,hmembers,hrows] at hm ⊢
      obtain ⟨r,hr,hid⟩ := hst m hm
      exact ⟨r,List.mem_append_left _ hr,hid⟩
  | updated =>
    obtain ⟨r,hr,hid⟩ := hst m hm
    exact ⟨_,List.mem_map_of_mem hr,(patch_id _ r _).trans hid⟩
  | deleted =>
    obtain ⟨hm,hne⟩ := List.mem_filter.mp hm
    obtain ⟨r,hr,hid⟩ := hst m hm
    exact ⟨r,List.mem_filter.mpr ⟨hr,hid ▸ hne⟩,hid⟩
  | @replaced _ cap sent members hfind hrows =>
    simp only [apply,CapabilityStore.replaceMembers] at hm ⊢
    split at hm
    · rename_i hnodup
      rw [dif_pos hnodup]
      rcases List.mem_append.mp hm with hm | hm
      · exact hst m (List.mem_filter.mp hm).1
      · exact ⟨cap,(find_spec hfind).1,(hrows.capability hm).symm⟩
    · rename_i hnodup
      rw [dif_neg hnodup]
      exact hst m hm

/-- A request for the card of an address comes to nothing, once the card is taken away. -/
theorem Fits.mine (h : e.Fits dr st q) (hst : st.Referenced) (hq : q.address dr = some (key,scope)) :
    (e.apply actor st).1.without key scope = st.without key scope := by
  cases h with
  | kept => rfl
  | inserted haddress =>
    obtain ⟨hkey,hscope⟩ := Prod.mk.inj (Option.some.inj (haddress.symm.trans hq))
    exact without_inserted hst (isAt_iff.mpr ⟨hkey,hscope⟩)
  | updated hfind =>
    obtain ⟨hmem,hat⟩ := find_spec hfind
    obtain ⟨rfl,rfl⟩ := Prod.mk.inj (Option.some.inj hq)
    exact without_updated hmem (isAt_iff.mpr hat)
  | deleted hfind =>
    obtain ⟨hmem,hat⟩ := find_spec hfind
    obtain ⟨rfl,rfl⟩ := Prod.mk.inj (Option.some.inj hq)
    exact without_deleted hmem (isAt_iff.mpr hat)
  | replaced hfind hrows =>
    obtain ⟨hmem,hat⟩ := find_spec hfind
    obtain ⟨rfl,rfl⟩ := Prod.mk.inj (Option.some.inj hq)
    exact without_replaced hmem (isAt_iff.mpr hat) fun m hm => hrows.capability hm

/-- A request for another card comes to the same. -/
theorem Fits.other (h : e.Fits dr st q) (hfresh : ∀ id, q.createdId = some id → id ∉ st.rows.map (·.id))
    (hq : q.address dr ≠ some (key,scope)) :
    (e.apply actor st).1.without key scope = (e.apply actor (st.without key scope)).1 := by
  have hnot : ∀ {r : CapabilityRow} {key' : String} {scope' : Scope}, r.key = key' → r.scope = scope' →
      q.address dr = some (key',scope') → r.isAt key scope = false := by
    rintro r _ _ rfl rfl hr
    refine Bool.eq_false_iff.mpr fun hat => hq ?_
    obtain ⟨hkey,hscope⟩ := isAt_iff.mp hat
    rw [hr,hkey,hscope]
  cases h with
  | kept => rfl
  | inserted haddress hnone => exact inserted_without (hfresh _ rfl) hnone (hnot rfl rfl haddress)
  | updated => exact updated_without
  | deleted => exact deleted_without _
  | replaced hfind hrows hdistinct =>
    obtain ⟨hmem,hkey,hscope⟩ := find_spec hfind
    exact replaced_without hmem (hnot hkey hscope rfl) hrows hdistinct

end CapabilityChange

/-- The ids that the rows of these requests are created with. -/
def createdIds (as : List (String × CapabilityRequest)) : List ℕ := as.filterMap (·.2.createdId)

/-- The members are of capabilities, and every row that is created gets an id of its own. -/
structure Undoable (st : CapabilityStore) (as : List (String × CapabilityRequest)) : Prop where
  referenced : st.Referenced
  fresh : ∀ id ∈ createdIds as, id ∉ st.rows.map (·.id)
  distinct : (createdIds as).Nodup

section Undo

variable {dr : MemberColumns} {st : CapabilityStore} {key : String} {scope : Scope} {a : String × CapabilityRequest}
  {as : List (String × CapabilityRequest)}

theorem createdIds_cons {id : ℕ} (h : a.2.createdId = some id) : createdIds (a :: as) = id :: createdIds as :=
  List.filterMap_cons_some h

theorem Undoable.step (h : Undoable st (a :: as)) : Undoable (administer dr st a).1 as := by
  obtain ⟨e,hfits,hstep⟩ := administer_fits dr st a
  have hlater : ∀ id ∈ createdIds as, id ∈ createdIds (a :: as) := fun id hid =>
    ((List.sublist_cons_self a as).filterMap (·.2.createdId)).subset hid
  rw [hstep]
  refine ⟨hfits.referenced h.referenced,fun id hid hmem => ?_,
    h.distinct.sublist ((List.sublist_cons_self a as).filterMap _)⟩
  rcases hfits.ids hmem with hold | hnew
  · exact h.fresh id (hlater id hid) hold
  · have hdistinct := h.distinct
    rw [createdIds_cons hnew] at hdistinct
    exact (List.nodup_cons.mp hdistinct).1 hid

/-- What requests make of the other cards does not depend on those for the card of one address. -/
theorem after_without (h : Undoable st as) : (st.after dr as).without key scope =
    (st.without key scope).after dr (as.filter fun a => !decide (a.2.address dr = some (key,scope))) := by
  refine erase_after Undoable (fun s a as => Undoable.step) (fun s a as hok hmine => ?_)
    (fun s a as hok hother => ?_) h
  · obtain ⟨e,hfits,hstep⟩ := administer_fits dr s a
    rw [hstep]
    exact hfits.mine hok.referenced (of_decide_eq_true hmine)
  · obtain ⟨e,hfits,hcomes⟩ := administer_comesTo dr a.1 a.2 s
    have hne := of_decide_eq_false hother
    have hstep : administer dr s a = e.apply a.1 s := hcomes s ⟨rfl,fun _ _ _ => rfl⟩
    have hstep' : administer dr (s.without key scope) a = e.apply a.1 (s.without key scope) := by
      refine hcomes _ ⟨rfl,fun key' scope' haddress => CapabilityStore.find_without ?_⟩
      rintro ⟨rfl,rfl⟩
      exact hne haddress
    rw [hstep,hstep']
    refine hfits.other (fun id hid => hok.fresh id ?_) hne
    rw [createdIds_cons hid]
    exact List.mem_cons_self

end Undo

/-- A card that is not there at the start nor at the end leaves nothing behind: the tables are as if it had never
been created, changed, given agents and deleted, whatever was done to other cards in between. -/
theorem customisation_undone (dr : MemberColumns) (key : String) (scope : Scope) (st : CapabilityStore)
    (as : List (String × CapabilityRequest)) (h : Undoable st as) (hstart : st.find key scope = none)
    (hend : (st.after dr as).find key scope = none) :
    st.after dr as = st.after dr (as.filter fun a => !decide (a.2.address dr = some (key,scope))) := by
  have hrest : (st.after dr as).without key scope = (st.without key scope).after dr
      (as.filter fun a => !decide (a.2.address dr = some (key,scope))) := after_without h
  rwa [CapabilityStore.without_of_find hend,CapabilityStore.without_of_find hstart] at hrest

/-- A tenant gets its own card, with an agent, and gives it up again; another tenant gets one that stays. -/
def tried : List (String × CapabilityRequest) :=
  [("admin",.create 10 [("key",.str "tell"),("name",.str "Tell us"),("tenant_id",.str "acme")]),
    ("admin",.setAgents { key := "tell", tenantId := some "acme", body := some [("agents",.arr [listing []])] }),
    ("admin",.create 11 [("key",.str "poll"),("name",.str "Poll"),("tenant_id",.str "umbrella")]),
    ("admin",.delete "tell" ("acme","default"))]

theorem customisation_undone_tenant :
    (CapabilityStore.plain disabledByTenant).after orderColumns tried =
      (CapabilityStore.plain disabledByTenant).after orderColumns
        (tried.filter fun a => !decide (a.2.address orderColumns = some ("tell","acme","default"))) ∧
    ((CapabilityStore.plain disabledByTenant).after orderColumns tried).rows.map (·.id) = [1,2,3,11] := by
  refine ⟨customisation_undone orderColumns "tell" ("acme","default") (CapabilityStore.plain disabledByTenant) tried ?_ ?_ ?_,
    by decide +kernel⟩
  · refine ⟨?_,by decide,by decide⟩
    unfold CapabilityStore.Referenced
    decide
  · exact Option.isNone_iff_eq_none.mp (by decide)
  · exact Option.isNone_iff_eq_none.mp (by decide +kernel)

end Saarathi
