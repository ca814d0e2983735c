import Saarathi.CapabilityAdmin
import Saarathi.MembershipReadBack

/-!
# What a request of an administrator changes

Every request makes at most one change, to the card that it names. Which one it is
depends on the request, on that card and on the agents, and on nothing else.
-/

namespace Saarathi

/-- The card that a request is about. -/
def CapabilityRequest.address (dr : MemberColumns) : CapabilityRequest → Option (String × Scope)
  | .create _ body =>
    (AdminConfig.nonEmptyText (Json.get body "key")).bind fun key => (dr.bodyScope body).map fun scope => (key,scope)
  | .update key scope _ => some (key,scope)
  | .delete key scope => some (key,scope)
  | .setAgents r => some (r.key,r.scope)

/-- The id that a new row gets. -/
def CapabilityRequest.createdId : CapabilityRequest → Option ℕ
  | .create id _ => some id
  | _ => none

/-- A change of the tables. -/
inductive CapabilityChange where
  | kept
  | inserted (row : CapabilityRow)
  | updated (before : CapabilityRow) (p : CapabilityPatch)
  | deleted (before : CapabilityRow)
  | replaced (id : ℕ) (sent : List Json) (members : List CapabilityAgent)

namespace CapabilityStore

variable (st : CapabilityStore)

/-- A capability with other members. -/
def replaceMembers (id : ℕ) (members : List CapabilityAgent) : CapabilityStore :=
  if h : ((st.catalogue.members.filter (·.capabilityId ≠ id) ++ members).map fun m =>
      (m.capabilityId,m.agentId)).Nodup then
    st.withRows st.rows (st.catalogue.members.filter (·.capabilityId ≠ id) ++ members) st.nodup_id st.nodup_address h
  else st

/-- The tables but for the cards and their members. -/
structure SameElse (st st' : CapabilityStore) : Prop where
  agents : st'.catalogue.agents = st.catalogue.agents
  configs : st'.catalogue.configs = st.catalogue.configs

variable {st} {row : CapabilityRow} {st' : CapabilityStore} {key : String} {scope : Scope}

theorem insert_eq (h : st.insert row = some st') : row.id ∉ st.rows.map (·.id) ∧ st'.rows = st.rows ++ [row] ∧
    st'.catalogue.members = st.catalogue.members ∧ st.SameElse st' := by
  unfold insert at h
  split at h
  · rename_i hunique
    obtain rfl := Option.some.inj h
    have hid := hunique.1
    rw [List.map_append,List.nodup_append] at hid
    exact ⟨fun hmem => hid.2.2 row.id hmem row.id (by simp) rfl,rfl,rfl,rfl,rfl⟩
  · cases h

theorem insert_isSome (hid : row.id ∉ st.rows.map (·.id))
    (hkey : (row.scope,row.key) ∉ st.rows.map fun r => (r.scope,r.key)) : (st.insert row).isSome = true := by
  have hids : ((st.rows ++ [row]).map (·.id)).Nodup := by
    rw [List.map_append,List.map_singleton,← List.concat_eq_append]
    exact st.nodup_id.concat hid
  have hkeys : ((st.rows ++ [row]).map fun r => (r.scope,r.key)).Nodup := by
    rw [List.map_append,List.map_singleton,← List.concat_eq_append]
    exact st.nodup_address.concat hkey
  rw [insert,dif_pos ⟨hids,hkeys⟩]
  rfl

theorem replaceMembers_same (st : CapabilityStore) (id : ℕ) (members : List CapabilityAgent) :
    (st.replaceMembers id members).rows = st.rows ∧ st.SameElse (st.replaceMembers id members) := by
  unfold replaceMembers
  split
  · exact ⟨rfl,rfl,rfl⟩
  · exact ⟨rfl,rfl,rfl⟩

theorem find_spec (h : st.find key scope = some row) : row ∈ st.rows ∧ row.key = key ∧ row.scope = scope := by
  have hfound := List.find?_some h
  simp only [Bool.and_eq_true,decide_eq_true_eq] at hfound
  exact ⟨List.mem_of_find?_eq_some h,hfound.1,hfound.2⟩

end CapabilityStore

namespace CapabilityChange

/-- The tables after a change, and what the audit log has on it. -/
def apply (actor : String) (st : CapabilityStore) : CapabilityChange → CapabilityStore × List AuditRow
  | kept => (st,[])
  | inserted row => ((st.insert row).getD st,if (st.insert row).isSome then
      [{ action := .capabilityCreate, entityId := row.id, actor := actor, after := some row.serialize }] else [])
  | updated before p => (st.update before.id p,[{
      action := .capabilityUpdate
      entityId := before.id
      actor := actor
      before := some before.serialize
      after := some (before.patch p).serialize }])
  | deleted before => (st.delete before.id,[{
      action := .capabilityDelete
      entityId := before.id
      actor := actor
      before := some before.serialize }])
  | replaced id sent members => (st.replaceMembers id members,[{
      action := .capabilityAgentSet
      entityId := id
      actor := actor
      after := some (.obj [("agents",.arr sent)])
      note := some s!"membership replaced ({sent.length} agent(s))" }])

theorem apply_same (actor : String) (st : CapabilityStore) (e : CapabilityChange) :
    st.SameElse (e.apply actor st).1 := by
  cases e with
  | kept => exact ⟨rfl,rfl⟩
  | inserted row =>
    cases h : st.insert row with
    | none =>
      rw [apply,h]
      exact ⟨rfl,rfl⟩
    | some st' =>
      rw [apply,h]
      exact (CapabilityStore.insert_eq h).2.2.2
  | updated before p => exact ⟨rfl,rfl⟩
  | deleted before => exact ⟨rfl,rfl⟩
  | replaced id sent members => exact (st.replaceMembers_same id members).2

/-- The changes that a request can make. -/
inductive Fits (dr : MemberColumns) (st : CapabilityStore) : CapabilityRequest → CapabilityChange → Prop
  | kept (q : CapabilityRequest) : Fits dr st q .kept
  | inserted {body : List (String × Json)} {row : CapabilityRow}
      (haddress : (CapabilityRequest.create row.id body).address dr = some (row.key,row.scope))
      (hnone : st.find row.key row.scope = none) : Fits dr st (.create row.id body) (.inserted row)
  | updated {key : String} {scope : Scope} {body : List (String × Json)} {before : CapabilityRow}
      {p : CapabilityPatch} (hfind : st.find key scope = some before) :
      Fits dr st (.update key scope body) (.updated before p)
  | deleted {key : String} {scope : Scope} {before : CapabilityRow} (hfind : st.find key scope = some before) :
      Fits dr st (.delete key scope) (.deleted before)
  | replaced {r : MembershipRequest} {cap : CapabilityRow} {sent : List Json} {members : List CapabilityAgent}
      (hfind : st.find r.key r.scope = some cap)
      (hrows : AdminConfig.AreRows dr st.catalogue cap.toCapability sent members)
      (hdistinct : ((AdminConfig.listed dr st.catalogue sent).map (·.1.id)).Nodup) :
      Fits dr st (.setAgents r) (.replaced cap.id sent members)

end CapabilityChange

namespace AdminConfig

/-- Two stores are the same to a request: they have the same agents and the same card at its address. -/
structure Alike (dr : MemberColumns) (q : CapabilityRequest) (st st' : CapabilityStore) : Prop where
  agents : st'.catalogue.agents = st.catalogue.agents
  card : ∀ key scope, q.address dr = some (key,scope) → st'.find key scope = st.find key scope

/-- What a request comes to, in every store that is the same to it. -/
def ComesTo (dr : MemberColumns) (actor : String) (q : CapabilityRequest) (st : CapabilityStore) : Prop :=
  ∃ e : CapabilityChange, e.Fits dr st q ∧
    ∀ st', Alike dr q st st' → administer dr st' (actor,q) = e.apply actor st'

variable {dr : MemberColumns} {actor : String} {st st' : CapabilityStore}

/-- A request that ends before it writes, in an answer or in an exception. -/
theorem comesTo_kept {q : CapabilityRequest}
    (h : ∀ st', Alike dr q st st' → handle dr actor st' q = none ∨ ∃ a, handle dr actor st' q = answered a st') :
    ComesTo dr actor q st := by
  refine ⟨.kept,.kept q,fun st' hst' => ?_⟩
  rcases h st' hst' with hnone | ⟨a,ha⟩
  · rw [administer,hnone]
    rfl
  · rw [administer,ha]
    rfl

/-- A request that writes, and records it. -/
theorem comesTo_audited {q : CapabilityRequest} {e : CapabilityChange} {row : AuditRow} (hfits : e.Fits dr st q)
    (h : ∀ st', Alike dr q st st' →
      (∃ a, handle dr actor st' q = audited dr a (e.apply actor st').1 row) ∧ (e.apply actor st').2 = [row]) :
    ComesTo dr actor q st := by
  by_cases hjsonb : (row.before.all dr.jsonb && row.after.all dr.jsonb) = true
  · refine ⟨e,hfits,fun st' hst' => ?_⟩
    obtain ⟨⟨a,ha⟩,hrow⟩ := h st' hst'
    rw [administer,ha,audited,if_pos hjsonb]
    exact Prod.ext rfl hrow.symm
  · refine comesTo_kept fun st' hst' => .inl ?_
    obtain ⟨⟨a,ha⟩,-⟩ := h st' hst'
    rw [ha,audited,if_neg hjsonb]

section Cards

variable {key : String} {scope : Scope} {body : List (String × Json)}

theorem delete_comesTo : ComesTo dr actor (.delete key scope) st := by
  by_cases hnul : (Text.hasNul key || Text.hasNul scope.1 || Text.hasNul scope.2) = true
  · exact comesTo_kept fun st' _ => .inl (by rw [handle,deleteCapability,withCapability,if_pos hnul])
  cases hfind : st.find key scope with
  | none =>
    refine comesTo_kept fun st' hst' => .inr ⟨capabilityNotFound,?_⟩
    rw [handle,deleteCapability,withCapability,if_neg hnul,hst'.card key scope rfl,hfind]
  | some before =>
    refine comesTo_audited (.deleted hfind) fun st' hst' => ⟨?_,rfl⟩
    rw [handle,deleteCapability,withCapability,if_neg hnul,hst'.card key scope rfl,hfind]
    exact ⟨_,rfl⟩

theorem change_comesTo {before : CapabilityRow} (hfind : st.find key scope = some before)
    (h : ∀ st', Alike dr (.update key scope body) st st' →
      handle dr actor st' (.update key scope body) = changeCapability dr actor before body st') :
    ComesTo dr actor (.update key scope body) st := by
  by_cases hsets : (!(capabilityFields.any fun field => (Json.lookup body field).isSome)) = true
  · refine comesTo_kept fun st' hst' => .inr ⟨⟨200,before.serialize⟩,?_⟩
    rw [h st' hst',changeCapability,if_pos hsets]
  cases hp : dr.patchOf body with
  | none =>
    refine comesTo_kept fun st' hst' => .inl ?_
    rw [h st' hst',changeCapability,if_neg hsets,hp]
  | some p =>
    refine comesTo_audited (.updated (p := p) hfind) fun st' hst' => ⟨?_,rfl⟩
    rw [h st' hst',changeCapability,if_neg hsets,hp]
    exact ⟨_,rfl⟩

theorem validStatus_cases (status : Option (Option (Option CapabilityStatus))) :
    (∀ st rest, validStatus status st rest = none) ∨ (∀ st rest, validStatus status st rest = answered statusInvalid st) ∨
      ∀ st rest, validStatus status st rest = rest := by
  rcases status with _ | _ | _ | _
  · exact .inr (.inr fun _ _ => rfl)
  · exact .inl fun _ _ => rfl
  · exact .inr (.inl fun _ _ => rfl)
  · exact .inr (.inr fun _ _ => rfl)

theorem update_comesTo : ComesTo dr actor (.update key scope body) st := by
  by_cases hempty : body.isEmpty = true
  · refine comesTo_kept fun st' _ => .inr ⟨emptyBody,?_⟩
    rw [handle,updateCapability,if_pos hempty]
  by_cases hunknown : (!(((body.map (·.1)).filter fun field => !capabilityFields.contains field).dedup).isEmpty) = true
  · refine comesTo_kept fun st' _ => .inr ?_
    rw [handle,updateCapability,if_neg hempty,if_pos hunknown]
    exact ⟨_,rfl⟩
  have hrest : ∀ st', handle dr actor st' (.update key scope body) =
      validStatus ((Json.lookup body "status").map statusOf) st'
        (withCapability key scope st' fun before => changeCapability dr actor before body st') := by
    intro st'
    rw [handle,updateCapability,if_neg hempty,if_neg hunknown]
  rcases validStatus_cases ((Json.lookup body "status").map statusOf) with hraise | hinvalid | hvalid
  · exact comesTo_kept fun st' _ => .inl (by rw [hrest,hraise])
  · exact comesTo_kept fun st' _ => .inr ⟨statusInvalid,by rw [hrest,hinvalid]⟩
  by_cases hnul : (Text.hasNul key || Text.hasNul scope.1 || Text.hasNul scope.2) = true
  · exact comesTo_kept fun st' _ => .inl (by rw [hrest,hvalid,withCapability,if_pos hnul])
  cases hfind : st.find key scope with
  | none =>
    refine comesTo_kept fun st' hst' => .inr ⟨capabilityNotFound,?_⟩
    rw [hrest,hvalid,withCapability,if_neg hnul,hst'.card key scope rfl,hfind]
  | some before =>
    refine change_comesTo hfind fun st' hst' => ?_
    rw [hrest,hvalid,withCapability,if_neg hnul,hst'.card key scope rfl,hfind]

end Cards

section Creation

variable {id : ℕ} {body : List (String × Json)}

/-- The insert of a row at the address of the request, where no row is. -/
theorem insert_comesTo {key : String} {scope : Scope} {row : Option CapabilityRow}
    (haddress : (CapabilityRequest.create id body).address dr = some (key,scope)) (hnone : st.find key scope = none)
    (hrow : ∀ r, row = some r → r.id = id ∧ r.key = key ∧ r.scope = scope)
    (h : ∀ st', Alike dr (.create id body) st st' →
      handle dr actor st' (.create id body) = insertCapability dr actor st' row) :
    ComesTo dr actor (.create id body) st := by
  cases hr : row with
  | none =>
    refine comesTo_kept fun st' hst' => .inr ⟨keyInvalid,?_⟩
    rw [h st' hst',hr]
    rfl
  | some r =>
    obtain ⟨rfl,rfl,rfl⟩ := hrow r hr
    by_cases hjsonb : dr.jsonb r.serialize = true
    · refine ⟨.inserted r,.inserted haddress hnone,fun st' hst' => ?_⟩
      rw [administer,h st' hst',hr,insertCapability,Option.bind_some]
      cases hinsert : st'.insert r with
      | none => simp [settle,answered,CapabilityChange.apply,hinsert]
      | some st'' => simp [settle,audited,CapabilityChange.apply,hinsert,hjsonb]
    · refine comesTo_kept fun st' hst' => ?_
      rw [h st' hst',hr,insertCapability,Option.bind_some]
      cases hinsert : st'.insert r with
      | none => exact .inr ⟨keyInvalid,rfl⟩
      | some st'' => exact .inl (by simp [audited,hjsonb])

theorem createdRow_spec {key : String} {scope : Scope} {name : String} {status : CapabilityStatus} {row : CapabilityRow}
    (h : dr.createdRow id key scope name status body = some row) :
    row.id = id ∧ row.key = key ∧ row.scope = scope := by
  unfold MemberColumns.createdRow at h
  obtain ⟨_,-,h⟩ := Option.bind_eq_some_iff.mp h
  obtain ⟨_,-,h⟩ := Option.bind_eq_some_iff.mp h
  obtain ⟨_,-,h⟩ := Option.bind_eq_some_iff.mp h
  obtain ⟨_,-,h⟩ := Option.bind_eq_some_iff.mp h
  obtain ⟨_,-,h⟩ := Option.bind_eq_some_iff.mp h
  obtain ⟨_,-,h⟩ := Option.bind_eq_some_iff.mp h
  split at h
  · obtain rfl := Option.some.inj h
    exact ⟨rfl,rfl,rfl⟩
  · cases h

theorem create_comesTo : ComesTo dr actor (.create id body) st := by
  by_cases hempty : body.isEmpty = true
  · refine comesTo_kept fun st' _ => .inr ⟨emptyBody,?_⟩
    rw [handle,createCapability,if_pos hempty]
  cases hkey : nonEmptyText (Json.get body "key") with
  | none =>
    refine comesTo_kept fun st' _ => .inr ?_
    rw [handle,createCapability,if_neg hempty,hkey]
    exact ⟨_,rfl⟩
  | some key =>
  cases hname : nonEmptyText (Json.get body "name") with
  | none =>
    refine comesTo_kept fun st' _ => .inr ?_
    rw [handle,createCapability,if_neg hempty,hkey,hname]
    exact ⟨_,rfl⟩
  | some name =>
  cases hstatus : statusOf ((Json.lookup body "status").getD (.str "active")) with
  | none =>
    refine comesTo_kept fun st' _ => .inl ?_
    rw [handle,createCapability,if_neg hempty,hkey,hname]
    simp only [hstatus]
  | some status =>
  cases status with
  | none =>
    refine comesTo_kept fun st' _ => .inr ⟨statusInvalid,?_⟩
    rw [handle,createCapability,if_neg hempty,hkey,hname]
    simp only [hstatus]
  | some status =>
  cases hscope : dr.bodyScope body with
  | none =>
    refine comesTo_kept fun st' _ => .inl ?_
    rw [handle,createCapability,if_neg hempty,hkey,hname]
    simp only [hstatus,hscope]
  | some scope =>
    have haddress : (CapabilityRequest.create id body).address dr = some (key,scope) := by
      rw [CapabilityRequest.address,hkey,hscope]
      rfl
    have hrest : ∀ st', Alike dr (.create id body) st st' → handle dr actor st' (.create id body) =
        if Text.hasNul key then none
        else if (st.find key scope).isSome then answered (adminError "CAPABILITY_EXISTS" 409 []) st'
        else insertCapability dr actor st' (dr.createdRow id key scope name status body) := by
      intro st' hst'
      rw [handle,createCapability,if_neg hempty,hkey,hname,← hst'.card key scope haddress]
      simp only [hstatus,hscope]
    by_cases hnul : Text.hasNul key = true
    · exact comesTo_kept fun st' hst' => .inl (by rw [hrest st' hst',if_pos hnul])
    by_cases hexists : (st.find key scope).isSome = true
    · refine comesTo_kept fun st' hst' => .inr ?_
      rw [hrest st' hst',if_neg hnul,if_pos hexists]
      exact ⟨_,rfl⟩
    · have hcreated : ∀ r, dr.createdRow id key scope name status body = some r →
          r.id = id ∧ r.key = key ∧ r.scope = scope := fun r hr => createdRow_spec hr
      refine insert_comesTo haddress (by simpa using hexists) hcreated fun st' hst' => ?_
      rw [hrest st' hst',if_neg hnul,if_neg hexists]

end Creation

section Agents

variable {r : MembershipRequest} {c c' : Catalogue} {members : List Json}

theorem named_agents (h : c'.agents = c.agents) : named dr c' = named dr c := by
  funext member
  cases member with
  | obj fields => simp only [named,h]
  | _ => rfl

theorem listed_agents (h : c'.agents = c.agents) (members : List Json) : listed dr c' members = listed dr c members := by
  rw [listed,named_agents h,listed]

theorem Writable.of_agents (hw : Writable dr c members) (h : c'.agents = c.agents) : Writable dr c' members where
  found := by
    rw [named_agents h]
    exact hw.found
  distinct := by
    rw [listed_agents h]
    exact hw.distinct
  columns := by
    rw [listed_agents h]
    exact hw.columns
  audited := hw.audited

theorem set_of_put {a : MembershipAnswer} (h : putMembership dr r c = (some a,c')) :
    setCapabilityAgents dr r c = .ok (a,c') := by
  unfold putMembership at h
  cases hset : setCapabilityAgents dr r c with
  | error e =>
    rw [hset] at h
    cases h
  | ok o =>
    rw [hset] at h
    cases h
    rfl

theorem set_of_raise (h : putMembership dr r c = (none,c')) : ∃ e, setCapabilityAgents dr r c = .error e := by
  unfold putMembership at h
  cases hset : setCapabilityAgents dr r c with
  | error e => exact ⟨e,rfl⟩
  | ok o =>
    rw [hset] at h
    cases h

theorem find_names {cap : CapabilityRow} (h : st.find r.key r.scope = some cap) :
    Names r st.catalogue cap.toCapability := by
  have hfound := List.find?_some h
  simp only [Bool.and_eq_true,decide_eq_true_eq] at hfound
  refine ⟨?_,hfound.1,hfound.2⟩
  rw [← st.rows_eq]
  exact List.mem_map_of_mem (List.mem_of_find?_eq_some h)

theorem find_of_names {cap : Capability} (h : Names r st.catalogue cap) : ∃ row, st.find r.key r.scope = some row := by
  have hmem := h.mem
  rw [← st.rows_eq] at hmem
  obtain ⟨row,hrow,rfl⟩ := List.mem_map.mp hmem
  cases hfind : st.find r.key r.scope with
  | some row' => exact ⟨row',rfl⟩
  | none =>
    have hno := List.find?_eq_none.mp hfind row hrow
    simp [h.key,h.scope] at hno

/-- An answer other than 200 leaves the tables as they are. -/
theorem setAgents_answered {a : MembershipAnswer} (h : putMembership dr r st.catalogue = (some a,c'))
    (ha : a.status ≠ 200) : ∃ a', setAgents dr actor r st = answered a' st := by
  rw [setAgents,set_of_put h]
  cases st.find r.key r.scope with
  | none => exact ⟨_,rfl⟩
  | some cap => exact ⟨_,if_neg ha⟩

theorem setAgents_raised (h : putMembership dr r st.catalogue = (none,c')) : setAgents dr actor r st = none := by
  obtain ⟨e,he⟩ := set_of_raise h
  rw [setAgents,he]

/-- What is not written leaves the tables as they are. -/
theorem setAgents_kept (h : ∀ members cap, Lists r members → Clean r → st.find r.key r.scope = some cap →
    ¬ Writable dr st.catalogue members) :
    setAgents dr actor r st = none ∨ ∃ a, setAgents dr actor r st = answered a st := by
  by_cases hlists : ∃ members, Lists r members
  swap
  · obtain ⟨a,ha,hstatus⟩ := put_malformed dr st.catalogue fun members hm => hlists ⟨members,hm⟩
    exact .inr (setAgents_answered ha (by omega))
  obtain ⟨members,hlists⟩ := hlists
  by_cases hclean : Clean r
  swap
  · exact .inl (setAgents_raised (put_dirty hlists hclean))
  cases hfind : st.find r.key r.scope with
  | none =>
    have hno : ∀ cap, ¬ Names r st.catalogue cap := by
      intro cap hcap
      obtain ⟨row,hrow⟩ := find_of_names hcap
      rw [hfind] at hrow
      cases hrow
    obtain ⟨a,ha,hstatus⟩ := put_unknown dr hlists hclean hno
    exact .inr (setAgents_answered ha (by omega))
  | some cap =>
    have hcap := find_names hfind
    by_cases hrefused : RefusedIn dr st.catalogue members
    · obtain ⟨a,ha,hstatus⟩ := put_refused hlists hclean hcap hrefused
      exact .inr (setAgents_answered ha (by omega))
    by_cases hfound : ∀ m ∈ members, (named dr st.catalogue m).isSome = true
    · exact .inl (setAgents_raised (put_unwritable hlists hclean hcap hfound (h members cap hlists hclean hfind)))
    · exact .inl (setAgents_raised (put_raised hlists hclean hcap hrefused hfound))

theorem setAgents_written {cap : CapabilityRow} {rows : List CapabilityAgent} (hlists : Lists r members)
    (hclean : Clean r) (hfind : st.find r.key r.scope = some cap) (hw : Writable dr st.catalogue members)
    (hrows : AreRows dr st.catalogue cap.toCapability members rows) :
    administer dr st (actor,.setAgents r) = (CapabilityChange.replaced cap.id members rows).apply actor st := by
  have hmembers := (nodup_iff hrows).mpr hw.distinct
  have hinsert : insertMembers dr cap.id (listed dr st.catalogue members) (st.catalogue.deleteMembers cap.id) =
      .ok (st.catalogue.withMembers _ hmembers) := insertMembers_ok hrows hmembers
  have hset : setCapabilityAgents dr r st.catalogue =
      .ok ({ agents := members },st.catalogue.withMembers _ hmembers) := by
    rw [set_found hlists hclean (find_names hfind) hw.found]
    exact writeMembers_shown hinsert hw.audited
  rw [administer,handle,setAgents,hset,hfind]
  simp only [settle,if_pos,CapabilityChange.apply,CapabilityStore.replaceMembers,dif_pos hmembers]
  rfl

theorem setAgents_comesTo : ComesTo dr actor (.setAgents r) st := by
  by_cases hwrite : ∃ members cap, Lists r members ∧ Clean r ∧ st.find r.key r.scope = some cap ∧
      Writable dr st.catalogue members
  · obtain ⟨members,cap,hlists,hclean,hfind,hw⟩ := hwrite
    obtain ⟨rows,hrows⟩ := exists_rows cap.toCapability hw.columns
    refine ⟨.replaced cap.id members rows,.replaced hfind hrows hw.distinct,fun st' hst' => ?_⟩
    refine setAgents_written hlists hclean ?_ (hw.of_agents hst'.agents) ?_
    · rw [hst'.card r.key r.scope rfl,hfind]
    · rw [AreRows,listed_agents hst'.agents]
      exact hrows
  · refine comesTo_kept fun st' hst' => setAgents_kept fun members cap hlists hclean hfind hw => hwrite ?_
    rw [hst'.card r.key r.scope rfl] at hfind
    exact ⟨members,cap,hlists,hclean,hfind,hw.of_agents hst'.agents.symm⟩

end Agents

/-- Every request comes to one change of the card that it names, the same one in every store that has the same
agents and the same card. -/
theorem administer_comesTo (dr : MemberColumns) (actor : String) (q : CapabilityRequest) (st : CapabilityStore) :
    ComesTo dr actor q st := by
  cases q with
  | create id body => exact create_comesTo
  | update key scope body => exact update_comesTo
  | delete key scope => exact delete_comesTo
  | setAgents r => exact setAgents_comesTo

theorem administer_fits (dr : MemberColumns) (st : CapabilityStore) (a : String × CapabilityRequest) :
    ∃ e : CapabilityChange, e.Fits dr st a.2 ∧ administer dr st a = e.apply a.1 st := by
  obtain ⟨e,hfits,hcomes⟩ := administer_comesTo dr a.1 a.2 st
  exact ⟨e,hfits,hcomes st ⟨rfl,fun _ _ _ => rfl⟩⟩

end AdminConfig

end Saarathi
