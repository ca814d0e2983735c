import Saarathi.Membership

/-!
# Administering capabilities

`/api/admin/capabilities`: creating, changing and deleting the cards of one scope,
replacing the agents on a card, and the row of the audit log that each write adds.
-/

namespace Saarathi

def CapabilityStatus.value : CapabilityStatus → String
  | active => "active"
  | disabled => "disabled"
  | comingSoon => "coming_soon"

/-- A row of `capabilities`, with the columns that only its texts are read from. -/
structure CapabilityRow extends Capability where
  description : Option String := none
  icon : Option String := none
  badge : Option String := none

/-- A nullable text column. -/
def textOrNull : Option String → Json
  | none => .null
  | some s => .str s

namespace CapabilityRow

/-- `_serialize`. -/
def serialize (r : CapabilityRow) : Json := .obj [
  ("id",.str (toString r.id)),("tenant_id",.str r.scope.1),("organization_id",.str r.scope.2),
  ("key",.str r.key),("name",.str r.name),("description",textOrNull r.description),("icon",textOrNull r.icon),
  ("badge",textOrNull r.badge),("status",.str r.status.value),("display_order",.num (toString r.displayOrder)),
  ("metadata",r.metadata)]

end CapabilityRow

/-- The actions of `AuditActionEnum` that these routes record. -/
inductive AuditAction where
  | capabilityCreate
  | capabilityUpdate
  | capabilityDelete
  | capabilityAgentSet
  deriving DecidableEq

/-- A row of `audit_logs`. -/
structure AuditRow where
  action : AuditAction
  entityType : String := "capability"
  entityId : ℕ
  actor : String
  before : Option Json := none
  after : Option Json := none
  note : Option String := none

/-- The tables of the catalogue, with the rows of `capabilities` in full. -/
structure CapabilityStore where
  catalogue : Catalogue
  rows : List CapabilityRow
  rows_eq : rows.map (·.toCapability) = catalogue.capabilities

/-- The columns that an `UPDATE` sets. -/
structure CapabilityPatch where
  name : Option String := none
  description : Option (Option String) := none
  icon : Option (Option String) := none
  badge : Option (Option String) := none
  status : Option CapabilityStatus := none
  displayOrder : Option ℤ := none
  metadata : Option Json := none

def CapabilityRow.patch (p : CapabilityPatch) (r : CapabilityRow) : CapabilityRow where
  id := r.id
  key := r.key
  scope := r.scope
  name := p.name.getD r.name
  status := p.status.getD r.status
  displayOrder := p.displayOrder.getD r.displayOrder
  metadata := p.metadata.getD r.metadata
  description := p.description.getD r.description
  icon := p.icon.getD r.icon
  badge := p.badge.getD r.badge

namespace CapabilityStore

variable (st : CapabilityStore)

/-- The store with other rows of `capabilities` and other members. -/
def withRows (rows : List CapabilityRow) (members : List CapabilityAgent) (hid : (rows.map (·.id)).Nodup)
    (hkey : (rows.map fun r => (r.scope,r.key)).Nodup)
    (hmembers : (members.map fun m => (m.capabilityId,m.agentId)).Nodup) : CapabilityStore where
  catalogue := { st.catalogue with
    capabilities := rows.map (·.toCapability)
    members := members
    capability_id := by
      rw [List.map_map]
      exact hid
    capability_scope_key := by
      rw [List.map_map]
      exact hkey
    membership := hmembers }
  rows := rows
  rows_eq := rfl

theorem nodup_id : (st.rows.map (·.id)).Nodup := by
  have h := st.catalogue.capability_id
  rw [← st.rows_eq,List.map_map] at h
  exact h

theorem nodup_address : (st.rows.map fun r => (r.scope,r.key)).Nodup := by
  have h := st.catalogue.capability_scope_key
  rw [← st.rows_eq,List.map_map] at h
  exact h

def find (key : String) (scope : Scope) : Option CapabilityRow :=
  st.rows.find? fun r => r.key = key && r.scope = scope

/-- `INSERT INTO capabilities`, within its unique constraints. -/
def insert (row : CapabilityRow) : Option CapabilityStore :=
  if h : ((st.rows ++ [row]).map (·.id)).Nodup ∧ ((st.rows ++ [row]).map fun r => (r.scope,r.key)).Nodup then
    some (st.withRows (st.rows ++ [row]) st.catalogue.members h.1 h.2 st.catalogue.membership)
  else none

/-- `UPDATE capabilities … WHERE id = :id`. -/
def update (id : ℕ) (p : CapabilityPatch) : CapabilityStore :=
  st.withRows (st.rows.map fun r => if r.id = id then r.patch p else r) st.catalogue.members
    (by
      have h : st.rows.map ((·.id) ∘ fun r => if r.id = id then r.patch p else r) = st.rows.map (·.id) :=
        List.map_congr_left fun r _ => by dsimp only [Function.comp]; split <;> rfl
      rw [List.map_map,h]
      exact st.nodup_id)
    (by
      have h : st.rows.map ((fun r : CapabilityRow => (r.scope,r.key)) ∘ fun r => if r.id = id then r.patch p else r) =
          st.rows.map fun r => (r.scope,r.key) :=
        List.map_congr_left fun r _ => by dsimp only [Function.comp]; split <;> rfl
      rw [List.map_map,h]
      exact st.nodup_address)
    st.catalogue.membership

/-- `DELETE FROM capabilities WHERE id = :id`, on which the memberships cascade. -/
def delete (id : ℕ) : CapabilityStore :=
  st.withRows (st.rows.filter (·.id ≠ id)) (st.catalogue.members.filter (·.capabilityId ≠ id))
    (st.nodup_id.sublist (List.filter_sublist.map _)) (st.nodup_address.sublist (List.filter_sublist.map _))
    (st.catalogue.membership.sublist (List.filter_sublist.map _))

/-- The memberships of another catalogue. -/
def withMembersOf (c : Catalogue) : CapabilityStore :=
  st.withRows st.rows c.members st.nodup_id st.nodup_address c.membership

end CapabilityStore

/-- A status code and the body of a response. -/
structure CapabilityAnswer where
  status : ℕ := 200
  content : Json

namespace AdminConfig

/-- `_admin_error`. -/
def adminError (code : String) (status : ℕ) (extra : List (String × Json)) : CapabilityAnswer :=
  ⟨status,.obj (("error",.str code) :: extra)⟩

def capabilityInvalid (path : List String) (msg : String) : CapabilityAnswer :=
  adminError "CAPABILITY_INVALID" 422 [("path",.arr (path.map .str)),("msg",.str msg)]

def emptyBody : CapabilityAnswer := capabilityInvalid [] "empty body"

def statusInvalid : CapabilityAnswer :=
  capabilityInvalid ["status"] "status must be one of ['active', 'coming_soon', 'disabled']"

def keyInvalid : CapabilityAnswer := capabilityInvalid ["key"] "key must match ^[a-z][a-z0-9_]\x7b1,62\x7d$"

def capabilityNotFound : CapabilityAnswer := adminError "CAPABILITY_NOT_FOUND" 404 []

/-- `_CAPABILITY_FIELDS`. -/
def capabilityFields : List String :=
  ["name","description","icon","badge","status","display_order","metadata"]

/-- A key that is a text and not empty. -/
def nonEmptyText : Json → Option String
  | .str s => if s = "" then none else some s
  | _ => none

/-- A status of `_VALID_STATUSES`, another value, or one that cannot be hashed, which raises. -/
def statusOf : Json → Option (Option CapabilityStatus)
  | .str s =>
    if s = "active" then some (some .active)
    else if s = "disabled" then some (some .disabled)
    else if s = "coming_soon" then some (some .comingSoon)
    else some none
  | .arr _ => none
  | .obj _ => none
  | _ => some none

/-- `ck_capabilities_key_slug`. -/
def isKeySlug (key : String) : Bool :=
  match key.toList with
  | [] => false
  | c :: cs => c.isLower && decide (1 ≤ cs.length) && decide (cs.length ≤ 62) &&
      cs.all fun c => c.isLower || c.isDigit || c = '_'

end AdminConfig

namespace MemberColumns

open AdminConfig

variable (dr : MemberColumns)

/-- A text column that takes no null. -/
def requiredText (j : Json) : Option String := (dr.labelValue j).join

def integerValue (j : Json) : Option ℤ := (dr.orderValue 0 (some j)).filter fitsInteger

/-- `json.dumps(value or {})`, as JSONB. -/
def metadataValue (j : Json) : Option Json :=
  if dr.jsonb (j.orElse (.obj [])) then some (j.orElse (.obj [])) else none

/-- One half of a scope in a body. -/
def scopeText (j : Json) : Option String := if j.truthy then dr.keyText j else some "default"

/-- `_scope`, of the object of a body. -/
def bodyScope (fields : List (String × Json)) : Option Scope := do
  let tenant ← dr.scopeText (Json.get fields "tenant_id")
  let organization ← dr.scopeText (Json.get fields "organization_id")
  pure (tenant,organization)

/-- The row that a body creates, if the columns take its values. -/
def createdRow (id : ℕ) (key : String) (scope : Scope) (name : String) (status : CapabilityStatus)
    (fields : List (String × Json)) : Option CapabilityRow := do
  let name ← dr.requiredText (.str name)
  let description ← dr.labelValue (Json.get fields "description")
  let icon ← dr.labelValue (Json.get fields "icon")
  let badge ← dr.labelValue (Json.get fields "badge")
  let order ← dr.integerValue ((Json.lookup fields "display_order").getD (.num "100"))
  let metadata ← dr.metadataValue (Json.get fields "metadata")
  if isKeySlug key then
    some {
      id := id
      key := key
      scope := scope
      name := name
      status := status
      displayOrder := order
      metadata := metadata
      description := description
      icon := icon
      badge := badge }
  else none

/-- A column that a body sets, if it has the field. -/
def setColumn {A : Type} (fields : List (String × Json)) (field : String) (f : Json → Option A) : Option (Option A) :=
  match Json.lookup fields field with
  | none => some none
  | some j => (f j).map some

/-- What a body sets, if the columns take its values. -/
def patchOf (fields : List (String × Json)) : Option CapabilityPatch := do
  let name ← setColumn fields "name" dr.requiredText
  let description ← setColumn fields "description" dr.labelValue
  let icon ← setColumn fields "icon" dr.labelValue
  let badge ← setColumn fields "badge" dr.labelValue
  let status ← setColumn fields "status" fun j => (statusOf j).join
  let order ← setColumn fields "display_order" dr.integerValue
  let metadata ← setColumn fields "metadata" dr.metadataValue
  pure {
    name := name
    description := description
    icon := icon
    badge := badge
    status := status
    displayOrder := order
    metadata := metadata }

end MemberColumns

namespace AdminConfig

variable (dr : MemberColumns) (actor : String)

/-- What a request leaves behind: its answer, the tables and what it adds to the audit log. -/
abbrev CapabilityOutcome := CapabilityAnswer × CapabilityStore × List AuditRow

/-- An answer before any write. -/
def answered (a : CapabilityAnswer) (st : CapabilityStore) : Option CapabilityOutcome := some (a,st,[])

/-- The write is recorded; the audit log takes only what is JSONB. -/
def audited (a : CapabilityAnswer) (st : CapabilityStore) (row : AuditRow) : Option CapabilityOutcome :=
  if row.before.all dr.jsonb && row.after.all dr.jsonb then some (a,st,[row]) else none

/-- The insert, whose exceptions are all taken for a key that is no slug. -/
def insertCapability (st : CapabilityStore) (row : Option CapabilityRow) : Option CapabilityOutcome :=
  match row.bind fun row => (st.insert row).map fun st' => (row,st') with
  | none => answered keyInvalid st
  | some (row,st') => audited dr ⟨200,row.serialize⟩ st'
      { action := .capabilityCreate, entityId := row.id, actor := actor, after := some row.serialize }

/-- `create_capability`; `id` is what `gen_random_uuid()` yields. -/
def createCapability (id : ℕ) (body : List (String × Json)) (st : CapabilityStore) : Option CapabilityOutcome :=
  if body.isEmpty then answered emptyBody st
  else match nonEmptyText (Json.get body "key"),nonEmptyText (Json.get body "name") with
    | none,_ => answered (capabilityInvalid ["key"] "key is required") st
    | some _,none => answered (capabilityInvalid ["name"] "name is required") st
    | some key,some name => match statusOf ((Json.lookup body "status").getD (.str "active")) with
      | none => none
      | some none => answered statusInvalid st
      | some (some status) => match dr.bodyScope body with
        | none => none
        | some scope =>
          if Text.hasNul key then none
          else if (st.find key scope).isSome then answered (adminError "CAPABILITY_EXISTS" 409 []) st
          else insertCapability dr actor st (dr.createdRow id key scope name status body)

/-- The update of the row found. -/
def changeCapability (before : CapabilityRow) (body : List (String × Json)) (st : CapabilityStore) :
    Option CapabilityOutcome :=
  if !(capabilityFields.any fun field => (Json.lookup body field).isSome) then answered ⟨200,before.serialize⟩ st
  else match dr.patchOf body with
    | none => none
    | some p => audited dr ⟨200,(before.patch p).serialize⟩ (st.update before.id p)
        { action := .capabilityUpdate, entityId := before.id, actor := actor, before := some before.serialize,
          after := some (before.patch p).serialize }

/-- The row at a scope, where the database can be asked for it. -/
def withCapability (key : String) (scope : Scope) (st : CapabilityStore)
    (f : CapabilityRow → Option CapabilityOutcome) : Option CapabilityOutcome :=
  if Text.hasNul key || Text.hasNul scope.1 || Text.hasNul scope.2 then none
  else match st.find key scope with
    | none => answered capabilityNotFound st
    | some row => f row

/-- The rest of an update, whose status is one of `_VALID_STATUSES` if it has one. -/
def validStatus (status : Option (Option (Option CapabilityStatus))) (st : CapabilityStore)
    (rest : Option CapabilityOutcome) : Option CapabilityOutcome :=
  match status with
  | none => rest
  | some none => none
  | some (some none) => answered statusInvalid st
  | some (some (some _)) => rest

/-- `update_capability`. -/
def updateCapability (key : String) (scope : Scope) (body : List (String × Json)) (st : CapabilityStore) :
    Option CapabilityOutcome :=
  let unknown := ((body.map (·.1)).filter fun field => !capabilityFields.contains field).dedup
  if body.isEmpty then answered emptyBody st
  else if !unknown.isEmpty then
    answered (capabilityInvalid (unknown.insertionSort (· ≤ ·)) "unknown field(s)") st
  else validStatus ((Json.lookup body "status").map statusOf) st
    (withCapability key scope st fun before => changeCapability dr actor before body st)

/-- `delete_capability`. -/
def deleteCapability (key : String) (scope : Scope) (st : CapabilityStore) : Option CapabilityOutcome :=
  withCapability key scope st fun before =>
    audited dr
      ⟨200,.obj [("deleted",.bool true),("key",.str key),("tenant_id",.str scope.1),("organization_id",.str scope.2)]⟩
      (st.delete before.id)
      { action := .capabilityDelete, entityId := before.id, actor := actor, before := some before.serialize }

/-- What the membership route answers. -/
def membershipContent (r : MembershipRequest) (a : MembershipAnswer) : CapabilityAnswer :=
  if a.status = 200 then
    ⟨200,.obj [("key",.str r.key),("tenant_id",.str r.scope.1),("organization_id",.str r.scope.2),
      ("agents",.arr a.agents)]⟩
  else adminError a.error a.status
    (if a.msg = "" then [] else [("path",.arr a.path),("msg",.str a.msg)])

/-- `set_capability_agents`, with its row of the audit log. -/
def setAgents (r : MembershipRequest) (st : CapabilityStore) : Option CapabilityOutcome :=
  match setCapabilityAgents dr r st.catalogue,st.find r.key r.scope with
  | .error _,_ => none
  | .ok (a,_),none => answered (membershipContent r a) st
  | .ok (a,c),some cap =>
    if a.status = 200 then some (membershipContent r a,st.withMembersOf c,
      [{ action := .capabilityAgentSet, entityId := cap.id, actor := actor,
         after := some (.obj [("agents",.arr a.agents)]),
         note := some s!"membership replaced ({a.agents.length} agent(s))" }])
    else answered (membershipContent r a) st

end AdminConfig

/-- A request of an administrator, with the object that its body is, where an empty one stands for none, and with
its scope after `_scope`. -/
inductive CapabilityRequest where
  | create (id : ℕ) (body : List (String × Json))
  | update (key : String) (scope : Scope) (body : List (String × Json))
  | delete (key : String) (scope : Scope)
  | setAgents (r : MembershipRequest)

namespace AdminConfig

variable (dr : MemberColumns)

def handle (actor : String) (st : CapabilityStore) : CapabilityRequest → Option CapabilityOutcome
  | .create id body => createCapability dr actor id body st
  | .update key scope body => updateCapability dr actor key scope body st
  | .delete key scope => deleteCapability dr actor key scope st
  | .setAgents r => setAgents dr actor r st

/-- What is committed; an exception is rolled back. -/
def settle (st : CapabilityStore) : Option CapabilityOutcome → CapabilityStore × List AuditRow
  | none => (st,[])
  | some (_,st',rows) => (st',rows)

/-- The tables after a request of an administrator, and what it adds to the audit log. -/
def administer (st : CapabilityStore) (a : String × CapabilityRequest) : CapabilityStore × List AuditRow :=
  settle st (handle dr a.1 st a.2)

end AdminConfig

end Saarathi
