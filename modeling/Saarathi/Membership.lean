import Saarathi.CapabilityDocument
import Saarathi.ConfigWrites

/-!
# Replacing a membership

`PUT /api/admin/capabilities/{key}/agents` validates the listed keys, deletes the
members of the capability and inserts the listed ones. What the driver and the
server make of the other values is seen only when a row is inserted.
-/

namespace Saarathi

/-- What the driver and the server make of the values that are not of the column's own kind, and whether JSONB
takes a value; `none` where the statement raises. -/
structure MemberColumns where
  key : Json → Option String
  displayOrder : Json → Option ℤ
  label : Json → Option String
  isVisible : Json → Option Bool
  jsonb : Json → Bool
  repr : Json → String

namespace MemberColumns

variable (dr : MemberColumns)

/-- The text that `key = :key` compares with. -/
def keyText : Json → Option String
  | .str s => if Text.hasNul s then none else some s
  | j => dr.key j

/-- `display_order`, which falls back to the position and takes no null. -/
def orderValue (index : ℕ) : Option Json → Option ℤ
  | none => some ((index + 1) * 10)
  | some .null => none
  | some j => dr.displayOrder j

def labelValue : Json → Option (Option String)
  | .null => some none
  | .str s => if Text.hasNul s then none else some (some s)
  | j => (dr.label j).map some

/-- `is_visible`, which takes no null. -/
def visibleValue : Option Json → Option Bool
  | none => some true
  | some .null => none
  | some (.bool b) => some b
  | some j => dr.isVisible j

/-- The row that one listed agent is inserted as. -/
def memberRow (capabilityId : ℕ) (agent : AgentId) (index : ℕ) (fields : List (String × Json)) :
    Option CapabilityAgent := do
  let order ← dr.orderValue index (Json.lookup fields "display_order")
  let label ← dr.labelValue (Json.get fields "label_override")
  let visible ← dr.visibleValue (Json.lookup fields "is_visible")
  let metadata := (Json.get fields "metadata").orElse (.obj [])
  if fitsInteger order && dr.jsonb metadata then
    some {
      capabilityId := capabilityId
      agentId := agent
      displayOrder := order
      labelOverride := label
      isVisible := visible
      metadata := metadata }
  else none

end MemberColumns

namespace Catalogue

variable (c : Catalogue)

/-- The catalogue with other members. -/
def withMembers (members : List CapabilityAgent)
    (h : (members.map fun m => (m.capabilityId,m.agentId)).Nodup) : Catalogue :=
  { c with members := members, membership := h }

/-- `DELETE FROM capability_agents WHERE capability_id = :id`. -/
def deleteMembers (capabilityId : ℕ) : Catalogue :=
  c.withMembers (c.members.filter (·.capabilityId ≠ capabilityId))
    (c.membership.sublist (List.filter_sublist.map _))

/-- `INSERT INTO capability_agents`, within `uq_capability_agents_membership`. -/
def insertMember : Option CapabilityAgent → Except WriteError Catalogue
  | none => .error .unstorable
  | some m =>
    if h : ((c.members ++ [m]).map fun m => (m.capabilityId,m.agentId)).Nodup then
      .ok (c.withMembers (c.members ++ [m]) h)
    else .error (.unique .capabilityAgentsMembership)

end Catalogue

/-- What the route answers. -/
structure MembershipAnswer where
  status : ℕ := 200
  error : String := ""
  path : List Json := []
  msg : String := ""
  agents : List Json := []

/-- A request, with the object that its body is, if it is one. -/
structure MembershipRequest where
  key : String
  tenantId : Option String := none
  organizationId : Option String := none
  body : Option (List (String × Json))

namespace MembershipRequest

/-- `_scope`. -/
def scope (r : MembershipRequest) : Scope := (orDefault (r.tenantId.getD ""),orDefault (r.organizationId.getD ""))

end MembershipRequest

/-- An early answer, or an exception. -/
inductive Stop where
  | answered (a : MembershipAnswer)
  | raised (e : WriteError)

namespace AdminConfig

variable (dr : MemberColumns)

def keyPath (index : ℕ) : List Json := [.str "agents",.num (toString index),.str "agent_key"]

def keyRequired (index : ℕ) : MembershipAnswer where
  status := 422
  error := "MEMBERSHIP_INVALID"
  path := keyPath index
  msg := "agent_key is required"

/-- The agent of one listed member. -/
def resolveMember (c : Catalogue) (index : ℕ) : Json → Except Stop (Agent × List (String × Json) × ℕ)
  | .obj fields =>
    let key := Json.get fields "agent_key"
    if !key.truthy then .error (.answered (keyRequired index))
    else match dr.keyText key with
      | none => .error (.raised .unstorable)
      | some text => match c.agents.find? (·.key = text) with
        | none => .error (.answered {
            status := 422
            error := "AGENT_NOT_FOUND"
            path := keyPath index
            msg := s!"unknown agent {dr.repr key}" })
        | some a => .ok (a,fields,index)
  | _ => .error (.answered (keyRequired index))

def resolveMembers (c : Catalogue) : ℕ → List Json → Except Stop (List (Agent × List (String × Json) × ℕ))
  | _,[] => .ok []
  | index,member :: members => do
    let r ← resolveMember dr c index member
    let rs ← resolveMembers c (index + 1) members
    pure (r :: rs)

def insertMembers (capabilityId : ℕ) :
    List (Agent × List (String × Json) × ℕ) → Catalogue → Except WriteError Catalogue
  | [],c => .ok c
  | (a,fields,index) :: rs,c => do
    let c ← c.insertMember (dr.memberRow capabilityId a.id index fields)
    insertMembers capabilityId rs c

/-- The delete, the inserts and the row of the audit log, which holds the members as they were sent. -/
def writeMembers (cap : Capability) (members : List Json) (resolved : List (Agent × List (String × Json) × ℕ))
    (c : Catalogue) : Except WriteError (MembershipAnswer × Catalogue) := do
  let c' ← insertMembers dr cap.id resolved (c.deleteMembers cap.id)
  if dr.jsonb (.obj [("agents",.arr members)]) then pure ({ agents := members },c')
  else .error .unstorable

/-- Nothing is written before every key is validated. -/
def replaceMembers (cap : Capability) (members : List Json) (c : Catalogue) :
    Except WriteError (MembershipAnswer × Catalogue) :=
  match resolveMembers dr c 0 members with
  | .error (.answered a) => .ok (a,c)
  | .error (.raised e) => .error e
  | .ok resolved => writeMembers dr cap members resolved c

/-- `set_capability_agents`. -/
def setCapabilityAgents (r : MembershipRequest) (c : Catalogue) :
    Except WriteError (MembershipAnswer × Catalogue) :=
  match r.body.map fun fields => Json.get fields "agents" with
  | some (.arr members) =>
    if Text.hasNul r.key || Text.hasNul r.scope.1 || Text.hasNul r.scope.2 then .error .unstorable
    else match c.capabilities.find? fun cap => cap.key = r.key && cap.scope = r.scope with
      | none => .ok ({ status := 404, error := "CAPABILITY_NOT_FOUND" },c)
      | some cap => replaceMembers dr cap members c
  | _ => .ok ({
      status := 422
      error := "MEMBERSHIP_INVALID"
      path := [.str "agents"]
      msg := "agents must be a list" },c)

/-- The answer, which an exception leaves out, and the tables after the request: `get_db` rolls an exception
back. -/
def putMembership (r : MembershipRequest) (c : Catalogue) : Option MembershipAnswer × Catalogue :=
  match setCapabilityAgents dr r c with
  | .ok (a,c') => (some a,c')
  | .error _ => (none,c)

section Resolving

/-- The agent that a listed member names, with the member's fields. -/
def named (c : Catalogue) : Json → Option (Agent × List (String × Json))
  | .obj fields =>
    let key := Json.get fields "agent_key"
    if key.truthy then
      (dr.keyText key).bind fun text => (c.agents.find? (·.key = text)).map fun a => (a,fields)
    else none
  | _ => none

/-- A listed member that has no key, or one that no agent has. -/
def Refused (c : Catalogue) (member : Json) : Prop :=
  ∀ fields, member = .obj fields → (Json.get fields "agent_key").truthy = true →
    ∃ text, dr.keyText (Json.get fields "agent_key") = some text ∧ ∀ a ∈ c.agents, a.key ≠ text

/-- The agents of a list, each with its fields and its position. -/
def listed (c : Catalogue) (members : List Json) : List (Agent × List (String × Json) × ℕ) :=
  (members.filterMap (named dr c)).mapIdx fun index e => (e.1,e.2,index)

variable {dr} {c : Catalogue} {index : ℕ} {member : Json} {members : List Json}

theorem resolveMember_named {a : Agent} {fields : List (String × Json)} (h : named dr c member = some (a,fields)) :
    resolveMember dr c index member = .ok (a,fields,index) := by
  cases member with
  | obj fields' =>
    simp only [named] at h
    split at h
    · rename_i htruthy
      obtain ⟨text,htext,hfind⟩ := Option.bind_eq_some_iff.mp h
      obtain ⟨b,hb,heq⟩ := Option.map_eq_some_iff.mp hfind
      cases heq
      simp only [resolveMember,htruthy,htext,hb]
      rfl
    · cases h
  | _ => cases h

variable (index) in
theorem resolveMember_refused (h : Refused dr c member) :
    ∃ a, resolveMember dr c index member = .error (.answered a) ∧ a.status = 422 := by
  cases member with
  | obj fields =>
    by_cases htruthy : (Json.get fields "agent_key").truthy = true
    · obtain ⟨text,htext,hno⟩ := h fields rfl htruthy
      have hfind : c.agents.find? (·.key = text) = none := List.find?_eq_none.mpr (by simpa using hno)
      simp only [resolveMember,htruthy,htext,hfind]
      exact ⟨_,rfl,rfl⟩
    · simp only [resolveMember,htruthy]
      exact ⟨_,rfl,rfl⟩
  | _ => exact ⟨_,rfl,rfl⟩

theorem resolveMember_raised (h : named dr c member = none) (hr : ¬ Refused dr c member) :
    resolveMember dr c index member = .error (.raised .unstorable) := by
  unfold Refused at hr
  push Not at hr
  obtain ⟨fields,rfl,htruthy,hno⟩ := hr
  cases htext : dr.keyText (Json.get fields "agent_key") with
  | none =>
    simp only [resolveMember,htruthy,htext]
    rfl
  | some text =>
    obtain ⟨a,ha,hkey⟩ := hno text htext
    simp only [named,htruthy,htext,if_true,Option.bind_some,Option.map_eq_none_iff] at h
    exact absurd hkey (by simpa using List.find?_eq_none.mp h a ha)

theorem not_refused_of_named {e : Agent × List (String × Json)} (h : named dr c member = some e) :
    ¬ Refused dr c member := by
  intro hr
  obtain ⟨a,ha,-⟩ := resolveMember_refused 0 hr
  rw [resolveMember_named h] at ha
  cases ha

/-- A list whose members before the first that is refused are found. -/
def RefusedIn (dr : MemberColumns) (c : Catalogue) (members : List Json) : Prop :=
  ∃ before member after, members = before ++ member :: after ∧ (∀ m ∈ before, (named dr c m).isSome = true) ∧
    Refused dr c member

theorem resolveMembers_ok (h : ∀ m ∈ members, (named dr c m).isSome = true) :
    resolveMembers dr c index members =
      .ok ((members.filterMap (named dr c)).mapIdx fun i e => (e.1,e.2,index + i)) := by
  induction members generalizing index with
  | nil => rfl
  | cons m ms ih =>
    obtain ⟨e,he⟩ := Option.isSome_iff_exists.mp (h m List.mem_cons_self)
    have hrest := @ih (index + 1) fun m' hm' => h m' (List.mem_cons_of_mem _ hm')
    rw [resolveMembers,resolveMember_named he,hrest,List.filterMap_cons_some he,List.mapIdx_cons]
    have hshift : ∀ i, index + 1 + i = index + (i + 1) := fun i => by omega
    simp only [hshift]
    rfl

variable (index) in
theorem resolveMembers_refused (h : RefusedIn dr c members) :
    ∃ a, resolveMembers dr c index members = .error (.answered a) ∧ a.status = 422 := by
  obtain ⟨before,member,after,rfl,hbefore,hmember⟩ := h
  induction before generalizing index with
  | nil =>
    obtain ⟨a,ha,hstatus⟩ := resolveMember_refused index hmember
    refine ⟨a,?_,hstatus⟩
    rw [List.nil_append,resolveMembers,ha]
    rfl
  | cons m ms ih =>
    obtain ⟨e,he⟩ := Option.isSome_iff_exists.mp (hbefore m List.mem_cons_self)
    obtain ⟨a,ha,hstatus⟩ := @ih (index + 1) fun m' hm' => hbefore m' (List.mem_cons_of_mem _ hm')
    refine ⟨a,?_,hstatus⟩
    rw [List.cons_append,resolveMembers,resolveMember_named he,ha]
    rfl

variable (index) in
theorem resolveMembers_raised (h : ¬ ∀ m ∈ members, (named dr c m).isSome = true) (hr : ¬ RefusedIn dr c members) :
    ∃ e, resolveMembers dr c index members = .error (.raised e) := by
  induction members generalizing index with
  | nil => simp at h
  | cons m ms ih =>
    cases hm : named dr c m with
    | none =>
      have hmember : ¬ Refused dr c m := fun hrefused => hr ⟨[],m,ms,rfl,by simp,hrefused⟩
      refine ⟨.unstorable,?_⟩
      rw [resolveMembers,resolveMember_raised hm hmember]
      rfl
    | some e =>
      have hrest : ¬ ∀ m ∈ ms, (named dr c m).isSome = true := fun hall => h (by simpa [hm] using hall)
      have hrefused : ¬ RefusedIn dr c ms := by
        rintro ⟨before,member,after,rfl,hbefore,hmember⟩
        refine hr ⟨m :: before,member,after,rfl,?_,hmember⟩
        intro m' hm'
        rcases List.mem_cons.mp hm' with rfl | hm'
        · rw [hm]
          rfl
        · exact hbefore m' hm'
      obtain ⟨e',he'⟩ := @ih (index + 1) hrest hrefused
      refine ⟨e',?_⟩
      rw [resolveMembers,resolveMember_named hm,he']
      rfl

end Resolving

section Inserting

variable {dr} {c c' : Catalogue} {capabilityId : ℕ} {rs : List (Agent × List (String × Json) × ℕ)}

theorem insertMembers_ok {rows : List CapabilityAgent}
    (hrows : (rs.map fun e => dr.memberRow capabilityId e.1.id e.2.2 e.2.1) = rows.map some)
    (hnodup : ((c.members ++ rows).map fun m => (m.capabilityId,m.agentId)).Nodup) :
    insertMembers dr capabilityId rs c = .ok (c.withMembers (c.members ++ rows) hnodup) := by
  induction rs generalizing rows c with
  | nil =>
    obtain rfl : rows = [] := by simpa using hrows.symm
    simp only [insertMembers,Catalogue.withMembers,List.append_nil]
  | cons e rs ih =>
    obtain ⟨a,fields,index⟩ := e
    cases rows with
    | nil => cases hrows
    | cons m rows =>
      obtain ⟨hhead,hrest⟩ := List.cons.inj hrows
      have hm : dr.memberRow capabilityId a.id index fields = some m := hhead
      have hassoc : c.members ++ m :: rows = c.members ++ [m] ++ rows := by simp
      have hone : ((c.members ++ [m]).map fun m => (m.capabilityId,m.agentId)).Nodup := by
        rw [hassoc,List.map_append] at hnodup
        exact (List.nodup_append.mp hnodup).1
      have hinsert : c.insertMember (dr.memberRow capabilityId a.id index fields) =
          .ok (c.withMembers (c.members ++ [m]) hone) := by
        rw [hm]
        exact dif_pos hone
      rw [insertMembers,hinsert]
      have hnext : (((c.withMembers (c.members ++ [m]) hone).members ++ rows).map fun m =>
          (m.capabilityId,m.agentId)).Nodup := hassoc ▸ hnodup
      refine (ih hrest hnext).trans ?_
      simp only [Catalogue.withMembers,hassoc]

theorem insertMembers_eq (h : insertMembers dr capabilityId rs c = .ok c') :
    ∃ rows, (rs.map fun e => dr.memberRow capabilityId e.1.id e.2.2 e.2.1) = rows.map some ∧
      ((c.members ++ rows).map fun m => (m.capabilityId,m.agentId)).Nodup := by
  induction rs generalizing c with
  | nil => exact ⟨[],rfl,by simpa using c.membership⟩
  | cons e rs ih =>
    obtain ⟨a,fields,index⟩ := e
    rw [insertMembers] at h
    cases hm : dr.memberRow capabilityId a.id index fields with
    | none =>
      rw [hm] at h
      cases h
    | some m =>
      by_cases hone : ((c.members ++ [m]).map fun m => (m.capabilityId,m.agentId)).Nodup
      · have hinsert : c.insertMember (some m) = .ok (c.withMembers (c.members ++ [m]) hone) := dif_pos hone
        rw [hm,hinsert] at h
        obtain ⟨rows,hrows,hnodup⟩ := ih h
        refine ⟨m :: rows,?_,?_⟩
        · rw [List.map_cons,List.map_cons,hm,hrows]
        · have hassoc : c.members ++ m :: rows = c.members ++ [m] ++ rows := by simp
          rw [hassoc]
          exact hnodup
      · have hinsert : c.insertMember (some m) = .error (.unique .capabilityAgentsMembership) := dif_neg hone
        rw [hm,hinsert] at h
        cases h

end Inserting

end AdminConfig
end Saarathi
