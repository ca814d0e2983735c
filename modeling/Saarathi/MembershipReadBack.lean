import Saarathi.Membership

/-!
# Reading a membership back

Which bodies of the membership route leave the capability with the listed agents
and are read back so in the document, and which are refused with the membership
unchanged. Every other body ends in an exception.
-/

namespace Saarathi
namespace AdminConfig

open Catalogue ScopedSelection

section Statement

variable (dr : MemberColumns) (v : Validation)

/-- The agent is enabled, and the configuration that the caller's scope selects permits the caller. -/
def permitted (c : Catalogue) (user : Option UserContext) (a : Agent) : Bool :=
  decide (a.status = .enabled) &&
    (c.lateralConfig (scopeOf user) a.id).any fun cfg => accessPermits v cfg.config user

/-- A listed agent that is visible, enabled and permitted. -/
def shown (c : Catalogue) (user : Option UserContext) (e : Agent × List (String × Json) × ℕ) : Bool :=
  decide (dr.visibleValue (Json.lookup e.2.1 "is_visible") = some true) && permitted v c user e.1

/-- The keys of these agents, in the order of the list. -/
def wanted (c : Catalogue) (user : Option UserContext) (members : List Json) : List String :=
  ((listed dr c members).filter (shown dr v c user)).map (·.1.key)

/-- The caller's document has the capability unless it is disabled, and under it exactly the listed agents that
are visible, enabled and permitted, in the order of the list when no display order is given. -/
def ReadBack (c c' : Catalogue) (cap : Capability) (members : List Json) (user : Option UserContext) : Prop :=
  ∃ doc, c'.resolveForUser v user = .ok doc ∧ ((∃ card ∈ doc, card.key = cap.key) ↔ cap.status ≠ .disabled) ∧
    ∀ card ∈ doc, card.key = cap.key →
      (card.agents.map (·.agentKey)).Perm (wanted dr v c user members) ∧
        ((∀ fields, .obj fields ∈ members → Json.lookup fields "display_order" = none) →
          card.agents.map (·.agentKey) = wanted dr v c user members)

/-- The body has a list of agents. -/
def Lists (r : MembershipRequest) (members : List Json) : Prop :=
  ∃ fields, r.body = some fields ∧ Json.get fields "agents" = .arr members

/-- The capability that the request is about. -/
structure Names (r : MembershipRequest) (c : Catalogue) (cap : Capability) : Prop where
  mem : cap ∈ c.capabilities
  key : cap.key = r.key
  scope : cap.scope = r.scope

/-- The database can be asked for the key and the scope. -/
structure Clean (r : MembershipRequest) : Prop where
  key : Text.hasNul r.key = false
  tenant : Text.hasNul r.scope.1 = false
  organization : Text.hasNul r.scope.2 = false

/-- Either the answer is 200 and every caller in the scope reads the list back, or it is a 4xx and the tables are
as they were. -/
def AllOrNothing (r : MembershipRequest) (c : Catalogue) : Prop :=
  ∃ a, (putMembership dr r c).1 = some a ∧
    ((a.status = 200 ∧ ∃ cap members, Names r c cap ∧ Lists r members ∧
        ∀ user, scopeOf user = r.scope → ReadBack dr v c (putMembership dr r c).2 cap members user) ∨
      (400 ≤ a.status ∧ a.status < 500 ∧ (putMembership dr r c).2 = c))

/-- The columns take the values of a listed member. -/
structure Storable (index : ℕ) (fields : List (String × Json)) : Prop where
  order : ∃ n, dr.orderValue index (Json.lookup fields "display_order") = some n ∧ fitsInteger n = true
  label : (dr.labelValue (Json.get fields "label_override")).isSome = true
  visible : (dr.visibleValue (Json.lookup fields "is_visible")).isSome = true
  metadata : dr.jsonb ((Json.get fields "metadata").orElse (.obj [])) = true

/-- The list names agents, none of them twice, with values that the columns take. -/
structure Writable (c : Catalogue) (members : List Json) : Prop where
  found : ∀ m ∈ members, (named dr c m).isSome = true
  distinct : ((listed dr c members).map (·.1.id)).Nodup
  columns : ∀ e ∈ listed dr c members, Storable dr e.2.2 e.2.1
  audited : dr.jsonb (.obj [("agents",.arr members)]) = true

/-- The caller's document can be made: of the cards, of the buttons of other capabilities, and of the listed
agents that are shown. -/
structure Displayable (c : Catalogue) (cap : Capability) (members : List Json) (user : Option UserContext) :
    Prop where
  cards : ∀ cap' ∈ c.capabilityRows (scopeOf user), Actionable cap'.metadata
  others : ∀ r ∈ c.permittedRows v user, r.1.capabilityId ≠ cap.id → Actionable r.1.metadata
  listed : cap.status ≠ .disabled → ∀ e ∈ listed dr c members, shown dr v c user e = true →
    Actionable (Json.get e.2.1 "metadata")

/-- The bodies that the route treats as it should, beside the state that they meet. -/
inductive Treated (r : MembershipRequest) (c : Catalogue) : Prop
  | malformed (h : ∀ members, ¬ Lists r members)
  | unknown (h : Clean r) (hno : ∀ cap, ¬ Names r c cap)
  | refused {cap : Capability} {members : List Json} (h : Clean r) (hcap : Names r c cap) (hlists : Lists r members)
      (hrefused : RefusedIn dr c members)
  | written {cap : Capability} {members : List Json} (h : Clean r) (hcap : Names r c cap) (hlists : Lists r members)
      (hwritable : Writable dr c members)
      (hdisplay : ∀ user, scopeOf user = r.scope → Displayable dr v c cap members user)

end Statement

section Rows

variable {dr : MemberColumns} {c : Catalogue} {cap : ℕ} {agent : AgentId} {index : ℕ} {m : CapabilityAgent}
  {fields : List (String × Json)}

/-- What a listed member is inserted as. -/
structure RowOf (dr : MemberColumns) (cap : ℕ) (agent : AgentId) (index : ℕ) (fields : List (String × Json))
    (m : CapabilityAgent) : Prop where
  capability : m.capabilityId = cap
  agent : m.agentId = agent
  order : dr.orderValue index (Json.lookup fields "display_order") = some m.displayOrder
  visible : dr.visibleValue (Json.lookup fields "is_visible") = some m.isVisible
  metadata : m.metadata = (Json.get fields "metadata").orElse (.obj [])

theorem memberRow_spec (h : dr.memberRow cap agent index fields = some m) :
    RowOf dr cap agent index fields m ∧ Storable dr index fields := by
  unfold MemberColumns.memberRow at h
  obtain ⟨order,horder,h⟩ := Option.bind_eq_some_iff.mp h
  obtain ⟨label,hlabel,h⟩ := Option.bind_eq_some_iff.mp h
  obtain ⟨visible,hvisible,h⟩ := Option.bind_eq_some_iff.mp h
  dsimp only at h
  split at h
  · rename_i hfits
    obtain rfl := Option.some.inj h
    obtain ⟨hfits,hjsonb⟩ := Bool.and_eq_true_iff.mp hfits
    exact ⟨⟨rfl,rfl,horder,hvisible,rfl⟩,⟨order,horder,hfits⟩,by rw [hlabel]; rfl,by rw [hvisible]; rfl,hjsonb⟩
  · cases h

variable (cap agent) in
theorem memberRow_of_storable (h : Storable dr index fields) :
    ∃ m, dr.memberRow cap agent index fields = some m := by
  obtain ⟨order,horder,hfits⟩ := h.order
  obtain ⟨label,hlabel⟩ := Option.isSome_iff_exists.mp h.label
  obtain ⟨visible,hvisible⟩ := Option.isSome_iff_exists.mp h.visible
  simp only [MemberColumns.memberRow,horder,hlabel,hvisible,h.metadata,hfits,Option.bind_eq_bind,
    Option.bind_some,Bool.and_self,if_true]
  exact ⟨_,rfl⟩

theorem actionable_orElse {metadata : Json} : Actionable (metadata.orElse (.obj [])) ↔ Actionable metadata := by
  unfold Json.orElse
  by_cases h : metadata.truthy = true
  · rw [if_pos h]
  · rw [if_neg h]
    exact iff_of_true (.inr ⟨[],rfl⟩) (.inl (by simpa using h))

end Rows

section Listed

variable {dr : MemberColumns} {v : Validation} {c : Catalogue} {members : List Json} {user : Option UserContext}
  {e e' : Agent × List (String × Json) × ℕ}

theorem named_mem {member : Json} {a : Agent} {fields : List (String × Json)}
    (h : named dr c member = some (a,fields)) : member = .obj fields ∧ a ∈ c.agents := by
  cases member with
  | obj fields' =>
    simp only [named] at h
    split at h
    · obtain ⟨text,-,hfind⟩ := Option.bind_eq_some_iff.mp h
      obtain ⟨b,hb,heq⟩ := Option.map_eq_some_iff.mp hfind
      cases heq
      exact ⟨rfl,List.mem_of_find?_eq_some hb⟩
    · cases h
  | _ => cases h

theorem listed_mem (h : e ∈ listed dr c members) : .obj e.2.1 ∈ members ∧ e.1 ∈ c.agents := by
  obtain ⟨i,hi,rfl⟩ := List.mem_mapIdx.mp h
  obtain ⟨member,hmember,hnamed⟩ := List.mem_filterMap.mp (List.getElem_mem hi)
  obtain ⟨rfl,ha⟩ := named_mem hnamed
  exact ⟨hmember,ha⟩

/-- The positions increase along the list. -/
theorem pairwise_listed (dr : MemberColumns) (c : Catalogue) (members : List Json) :
    (listed dr c members).Pairwise fun e e' => e.2.2 < e'.2.2 := by
  rw [List.pairwise_iff_getElem]
  intro i j hi hj hij
  simpa [listed] using hij

/-- A list that names no agent twice names each by a key of its own. -/
theorem listed_inj (hdistinct : ((listed dr c members).map (·.1.id)).Nodup) (he : e ∈ listed dr c members)
    (he' : e' ∈ listed dr c members) (hkey : e.1.key = e'.1.key) : e = e' := by
  have hagent : e.1 = e'.1 :=
    List.inj_on_of_nodup_map c.agent_key (listed_mem he).2 (listed_mem he').2 hkey
  exact List.inj_on_of_nodup_map hdistinct he he' (congrArg (·.id) hagent)

theorem listed_index_inj (he : e ∈ listed dr c members) (he' : e' ∈ listed dr c members)
    (hindex : e.2.2 = e'.2.2) : e = e' := by
  have hnodup : ((listed dr c members).map (·.2.2)).Nodup :=
    List.pairwise_map.mpr ((pairwise_listed dr c members).imp fun h => h.ne)
  exact List.inj_on_of_nodup_map hnodup he he' hindex

theorem nodup_wanted (hdistinct : ((listed dr c members).map (·.1.id)).Nodup) :
    (wanted dr v c user members).Nodup := by
  have hkeys : ((listed dr c members).map (·.1.key)).Nodup := by
    refine List.Nodup.map_on ?_ hdistinct.of_map
    intro e he e' he' hkey
    exact listed_inj hdistinct he he' hkey
  exact (List.filter_sublist.map _).nodup hkeys

end Listed

section Rewritten

variable {dr : MemberColumns} {v : Validation} {c : Catalogue} {cap : Capability} {members : List Json}
  {user : Option UserContext} {rows : List CapabilityAgent}
  {hmembers : ((c.members.filter (·.capabilityId ≠ cap.id) ++ rows).map fun m => (m.capabilityId,m.agentId)).Nodup}

/-- The rows of the listed members. -/
def AreRows (dr : MemberColumns) (c : Catalogue) (cap : Capability) (members : List Json)
    (rows : List CapabilityAgent) : Prop :=
  ((listed dr c members).map fun e => dr.memberRow cap.id e.1.id e.2.2 e.2.1) = rows.map some

theorem AreRows.mem_iff (h : AreRows dr c cap members rows) {m : CapabilityAgent} :
    m ∈ rows ↔ ∃ e ∈ listed dr c members, dr.memberRow cap.id e.1.id e.2.2 e.2.1 = some m := by
  have hmem : m ∈ rows ↔ some m ∈ (listed dr c members).map fun e =>
      dr.memberRow cap.id e.1.id e.2.2 e.2.1 := by
    rw [h]
    simp
  rw [hmem,List.mem_map]

/-- The only row of its key that the scope's own capability leaves is itself. -/
theorem mem_capabilityRows_own (hcap : cap ∈ c.capabilities) (hscope : cap.scope = scopeOf user) {cap' : Capability}
    (hkey : cap'.key = cap.key) :
    cap' ∈ c.capabilityRows (scopeOf user) ↔ cap' = cap ∧ cap.status ≠ .disabled := by
  have hmem : cap ∈ c.capabilitiesOf cap.key := by simp [capabilitiesOf,hcap]
  have hcrossed : ¬ Crossed (scopeOf user) (·.scope) (c.capabilitiesOf cap.key) := by
    rintro ⟨-,-,-,hno⟩
    exact hno cap hmem hscope
  have hresolve := (resolve_eq_precedent_iff (onePerScope_capabilitiesOf c cap.key)).mpr
    fun hsh => hcrossed (shadowed_iff.mp hsh)
  have hown : precedent defaultScope (scopeOf user) (·.scope) (c.capabilitiesOf cap.key) = some cap :=
    capabilityFor_closest hcap (.inl hscope)
  simp only [capabilityRows,List.mem_insertionSort,List.mem_filter,resolve_capability_iff,hkey,hresolve,hown,
    decide_eq_true_eq,Option.some.injEq]
  constructor
  · rintro ⟨rfl,hstatus⟩
    exact ⟨rfl,hstatus⟩
  · rintro ⟨rfl,hstatus⟩
    exact ⟨rfl,hstatus⟩

theorem id_mem_iff (hcap : cap ∈ c.capabilities) (hscope : cap.scope = scopeOf user) :
    cap.id ∈ (c.capabilityRows (scopeOf user)).map (·.id) ↔ cap.status ≠ .disabled := by
  rw [List.mem_map]
  constructor
  · rintro ⟨cap',hcap',hid⟩
    have hstored : cap' ∈ c.capabilities := by
      simp only [capabilityRows,List.mem_insertionSort,List.mem_filter,resolve_capability_iff] at hcap'
      exact (List.mem_filter.mp (mem_of_resolve hcap'.1)).1
    obtain rfl : cap' = cap := List.inj_on_of_nodup_map c.capability_id hstored hcap hid
    exact ((mem_capabilityRows_own hcap hscope rfl).mp hcap').2
  · intro hstatus
    exact ⟨cap,(mem_capabilityRows_own hcap hscope rfl).mpr ⟨rfl,hstatus⟩,rfl⟩

theorem shown_iff {e : Agent × List (String × Json) × ℕ} {m : CapabilityAgent}
    (hm : dr.memberRow cap.id e.1.id e.2.2 e.2.1 = some m) :
    shown dr v c user e = true ↔ m.isVisible = true ∧ e.1.status = .enabled ∧
      ∃ cfg, c.lateralConfig (scopeOf user) e.1.id = some cfg ∧ accessPermits v cfg.config user = true := by
  have hvisible := (memberRow_spec hm).1.visible
  simp only [shown,permitted,hvisible,Option.some.injEq,Bool.and_eq_true,decide_eq_true_eq,Option.any_eq_true]

variable (hmembers) in
/-- Of the capability, the rows that are joined after the request are of the listed agents that are shown. -/
theorem mem_permittedRows_own (hcap : cap ∈ c.capabilities) (hscope : cap.scope = scopeOf user)
    (hrows : AreRows dr c cap members rows) {m : CapabilityAgent} {a : Agent} {cfg : AgentConfig} :
    (m,a,cfg) ∈ (c.withMembers _ hmembers).permittedRows v user ∧ m.capabilityId = cap.id ↔
      cap.status ≠ .disabled ∧ ∃ e ∈ listed dr c members, dr.memberRow cap.id e.1.id e.2.2 e.2.1 = some m ∧
        a = e.1 ∧ shown dr v c user e = true ∧ c.lateralConfig (scopeOf user) a.id = some cfg := by
  have hids := id_mem_iff hcap hscope
  rw [permittedRows,List.mem_filter,mem_agentRows_iff]
  change ((m ∈ c.members.filter (·.capabilityId ≠ cap.id) ++ rows ∧
    m.capabilityId ∈ (c.capabilityRows (scopeOf user)).map (·.id) ∧ m.isVisible = true ∧ a ∈ c.agents ∧
    a.id = m.agentId ∧ a.status = .enabled ∧ c.lateralConfig (scopeOf user) a.id = some cfg) ∧
    accessPermits v cfg.config user = true) ∧ m.capabilityId = cap.id ↔ _
  constructor
  · rintro ⟨⟨⟨hm,hid,hvisible,ha,hagent,hstatus,hcfg⟩,hpermits⟩,hof⟩
    rw [hof] at hid
    rcases List.mem_append.mp hm with hm | hm
    · exact absurd hof (of_decide_eq_true (List.mem_filter.mp hm).2)
    · obtain ⟨e,he,hrow⟩ := hrows.mem_iff.mp hm
      obtain rfl : a = e.1 :=
        List.inj_on_of_nodup_map c.agent_id ha (listed_mem he).2 (hagent.trans (memberRow_spec hrow).1.agent)
      exact ⟨hids.mp hid,e,he,hrow,rfl,(shown_iff hrow).mpr ⟨hvisible,hstatus,cfg,hcfg,hpermits⟩,hcfg⟩
  · rintro ⟨hshow,e,he,hrow,rfl,hshown,hcfg⟩
    obtain ⟨hvisible,hstatus,cfg',hcfg',hpermits⟩ := (shown_iff hrow).mp hshown
    obtain rfl := Option.some.inj (hcfg.symm.trans hcfg')
    have hspec := (memberRow_spec hrow).1
    refine ⟨⟨⟨List.mem_append_right _ (hrows.mem_iff.mpr ⟨e,he,hrow⟩),?_,hvisible,(listed_mem he).2,
      hspec.agent.symm,hstatus,hcfg⟩,hpermits⟩,hspec.capability⟩
    rw [hspec.capability]
    exact hids.mpr hshow

/-- Of the other capabilities the same rows are joined as before. -/
theorem mem_permittedRows_other (hrows : AreRows dr c cap members rows) {m : CapabilityAgent} {a : Agent}
    {cfg : AgentConfig} (hof : m.capabilityId ≠ cap.id) :
    (m,a,cfg) ∈ (c.withMembers _ hmembers).permittedRows v user ↔ (m,a,cfg) ∈ c.permittedRows v user := by
  have hmem : m ∈ c.members.filter (·.capabilityId ≠ cap.id) ++ rows ↔ m ∈ c.members := by
    rw [List.mem_append,List.mem_filter]
    constructor
    · rintro (⟨hm,-⟩ | hm)
      · exact hm
      · obtain ⟨e,-,hrow⟩ := hrows.mem_iff.mp hm
        exact absurd (memberRow_spec hrow).1.capability hof
    · exact fun hm => .inl ⟨hm,decide_eq_true hof⟩
  rw [permittedRows,permittedRows,List.mem_filter,List.mem_filter,mem_agentRows_iff,mem_agentRows_iff]
  change (m ∈ c.members.filter (·.capabilityId ≠ cap.id) ++ rows ∧ _) ∧ _ ↔ _
  rw [hmem]
  exact Iff.rfl

variable (hmembers) in
theorem drawable_iff (hcap : cap ∈ c.capabilities) (hscope : cap.scope = scopeOf user)
    (hrows : AreRows dr c cap members rows)
    (hall : ∀ e ∈ listed dr c members, ∃ m, dr.memberRow cap.id e.1.id e.2.2 e.2.1 = some m) :
    (c.withMembers _ hmembers).Drawable v user ↔ Displayable dr v c cap members user := by
  constructor
  · intro h
    refine ⟨h.cards,?_,?_⟩
    · rintro ⟨m,a,cfg⟩ hr hof
      exact h.buttons _ ((mem_permittedRows_other hrows hof).mpr hr)
    · intro hshow e he hshown
      obtain ⟨m,hrow⟩ := hall e he
      obtain ⟨-,-,cfg,hcfg,-⟩ := (shown_iff hrow).mp hshown
      have hr := ((mem_permittedRows_own hmembers hcap hscope hrows).mpr
        ⟨hshow,e,he,hrow,rfl,hshown,hcfg⟩).1
      have hmetadata := h.buttons _ hr
      rw [(memberRow_spec hrow).1.metadata] at hmetadata
      exact actionable_orElse.mp hmetadata
  · intro h
    refine ⟨h.cards,?_⟩
    rintro ⟨m,a,cfg⟩ hr
    by_cases hof : m.capabilityId = cap.id
    · obtain ⟨hshow,e,he,hrow,-,hshown,-⟩ := (mem_permittedRows_own _ hcap hscope hrows).mp ⟨hr,hof⟩
      change Actionable m.metadata
      rw [(memberRow_spec hrow).1.metadata]
      exact actionable_orElse.mpr (h.listed hshow e he hshown)
    · exact h.others _ ((mem_permittedRows_other hrows hof).mp hr) hof

/-- The keys on the capability's card after the request. -/
theorem cardFor_keys (c : Catalogue) (v : Validation) (user : Option UserContext) (cap : Capability) :
    (c.cardFor v user cap).agents.map (·.agentKey) = (c.cardRows v user cap).map (·.2.1.key) := by
  simp only [cardFor,List.map_map]
  rfl

theorem mem_cardRows_own (hcap : cap ∈ c.capabilities) (hscope : cap.scope = scopeOf user)
    (hrows : AreRows dr c cap members rows) {m : CapabilityAgent} {a : Agent} {cfg : AgentConfig}
    (hr : (m,a,cfg) ∈ (c.withMembers _ hmembers).cardRows v user cap) :
    ∃ e ∈ listed dr c members, dr.memberRow cap.id e.1.id e.2.2 e.2.1 = some m ∧ a = e.1 ∧
      shown dr v c user e = true := by
  obtain ⟨hr,hof⟩ := List.mem_filter.mp hr
  obtain ⟨-,e,he,hrow,ha,hshown,-⟩ :=
    (mem_permittedRows_own _ hcap hscope hrows).mp ⟨hr,of_decide_eq_true hof⟩
  exact ⟨e,he,hrow,ha,hshown⟩

variable (v hmembers) in
theorem card_perm (hcap : cap ∈ c.capabilities) (hscope : cap.scope = scopeOf user)
    (hstatus : cap.status ≠ .disabled) (hrows : AreRows dr c cap members rows)
    (hall : ∀ e ∈ listed dr c members, ∃ m, dr.memberRow cap.id e.1.id e.2.2 e.2.1 = some m)
    (hdistinct : ((listed dr c members).map (·.1.id)).Nodup) :
    (((c.withMembers _ hmembers).cardRows v user cap).map (·.2.1.key)).Perm (wanted dr v c user members) := by
  have hnodup : (((c.withMembers _ hmembers).cardRows v user cap).map (·.2.1.key)).Nodup :=
    List.pairwise_map.mpr (pairwise_cardRows (c.withMembers _ hmembers) v user cap)
  refine (List.perm_ext_iff_of_nodup hnodup (nodup_wanted hdistinct)).mpr fun key => ?_
  simp only [wanted,List.mem_map,List.mem_filter]
  constructor
  · rintro ⟨⟨m,a,cfg⟩,hr,rfl⟩
    obtain ⟨e,he,-,rfl,hshown⟩ := mem_cardRows_own hcap hscope hrows hr
    exact ⟨e,⟨he,hshown⟩,rfl⟩
  · rintro ⟨e,⟨he,hshown⟩,rfl⟩
    obtain ⟨m,hrow⟩ := hall e he
    obtain ⟨-,-,cfg,hcfg,-⟩ := (shown_iff hrow).mp hshown
    obtain ⟨hr,hof⟩ := (mem_permittedRows_own hmembers hcap hscope hrows).mpr
      ⟨hstatus,e,he,hrow,rfl,hshown,hcfg⟩
    exact ⟨(m,e.1,cfg),List.mem_filter.mpr ⟨hr,decide_eq_true hof⟩,rfl⟩

/-- The one key is listed no later than the other. -/
def ListedBefore (dr : MemberColumns) (c : Catalogue) (members : List Json) (key key' : String) : Prop :=
  ∀ e ∈ listed dr c members, ∀ e' ∈ listed dr c members, e.1.key = key → e'.1.key = key' → e.2.2 ≤ e'.2.2

theorem pairwise_cardRows_order (c : Catalogue) (v : Validation) (user : Option UserContext) (cap : Capability) :
    (c.cardRows v user cap).Pairwise fun r r' => r.1.displayOrder ≤ r'.1.displayOrder := by
  have hrows : (c.agentRows (scopeOf user) ((c.capabilityRows (scopeOf user)).map (·.id))).Pairwise fun r r' =>
      r.1.displayOrder < r'.1.displayOrder ∨ (r.1.displayOrder = r'.1.displayOrder ∧ r.2.1.key ≤ r'.2.1.key) :=
    pairwise_orderBy (f := fun r : CapabilityAgent × Agent × AgentConfig => r.1.displayOrder)
      (g := fun r => r.2.1.key) _
  refine (hrows.sublist (List.filter_sublist.trans List.filter_sublist)).imp ?_
  rintro r r' (hlt | ⟨heq,-⟩)
  · exact hlt.le
  · exact heq.le

/-- Rows without an order of their own are ordered as they are listed. -/
theorem index_le_of_order {e e' : Agent × List (String × Json) × ℕ} {m m' : CapabilityAgent}
    (hunordered : ∀ fields, .obj fields ∈ members → Json.lookup fields "display_order" = none)
    (he : e ∈ listed dr c members) (he' : e' ∈ listed dr c members)
    (hrow : dr.memberRow cap.id e.1.id e.2.2 e.2.1 = some m)
    (hrow' : dr.memberRow cap.id e'.1.id e'.2.2 e'.2.1 = some m') (h : m.displayOrder ≤ m'.displayOrder) :
    e.2.2 ≤ e'.2.2 := by
  have horder := (memberRow_spec hrow).1.order
  have horder' := (memberRow_spec hrow').1.order
  rw [hunordered _ (listed_mem he).1] at horder
  rw [hunordered _ (listed_mem he').1] at horder'
  obtain horder := Option.some.inj horder
  obtain horder' := Option.some.inj horder'
  omega

theorem card_eq (hcap : cap ∈ c.capabilities) (hscope : cap.scope = scopeOf user)
    (hrows : AreRows dr c cap members rows) (hdistinct : ((listed dr c members).map (·.1.id)).Nodup)
    (hunordered : ∀ fields, .obj fields ∈ members → Json.lookup fields "display_order" = none)
    (hperm : (((c.withMembers _ hmembers).cardRows v user cap).map (·.2.1.key)).Perm
      (wanted dr v c user members)) :
    ((c.withMembers _ hmembers).cardRows v user cap).map (·.2.1.key) = wanted dr v c user members := by
  have hcard : (((c.withMembers _ hmembers).cardRows v user cap).map (·.2.1.key)).Pairwise
      (ListedBefore dr c members) := by
    refine List.pairwise_map.mpr ((pairwise_cardRows_order _ v user cap).imp_of_mem ?_)
    rintro ⟨m,a,cfg⟩ ⟨m',a',cfg'⟩ hr hr' horder e₁ he₁ e₂ he₂ hkey₁ hkey₂
    obtain ⟨e,he,hrow,rfl,-⟩ := mem_cardRows_own hcap hscope hrows hr
    obtain ⟨e',he',hrow',rfl,-⟩ := mem_cardRows_own hcap hscope hrows hr'
    obtain rfl := listed_inj hdistinct he₁ he hkey₁
    obtain rfl := listed_inj hdistinct he₂ he' hkey₂
    exact index_le_of_order hunordered he₁ he₂ hrow hrow' horder
  have hwanted : (wanted dr v c user members).Pairwise (ListedBefore dr c members) := by
    refine List.pairwise_map.mpr (((pairwise_listed dr c members).sublist List.filter_sublist).imp_of_mem ?_)
    intro e e' he he' hlt e₁ he₁ e₂ he₂ hkey₁ hkey₂
    obtain rfl := listed_inj hdistinct he₁ (List.mem_filter.mp he).1 hkey₁
    obtain rfl := listed_inj hdistinct he₂ (List.mem_filter.mp he').1 hkey₂
    exact hlt.le
  refine List.Perm.eq_of_pairwise ?_ hcard hwanted hperm
  intro key key' hkey hkey' hle hge
  obtain ⟨e,he,rfl⟩ := List.mem_map.mp (hperm.subset hkey)
  obtain ⟨e',he',rfl⟩ := List.mem_map.mp hkey'
  have hmem := (List.mem_filter.mp he).1
  have hmem' := (List.mem_filter.mp he').1
  have hindex : e.2.2 = e'.2.2 := le_antisymm (hle e hmem e' hmem' rfl rfl) (hge e' hmem' e hmem rfl rfl)
  rw [listed_index_inj hmem hmem' hindex]

/-- What was read back is the list. -/
theorem readBack_of (hcap : cap ∈ c.capabilities) (hscope : cap.scope = scopeOf user)
    (hrows : AreRows dr c cap members rows)
    (hall : ∀ e ∈ listed dr c members, ∃ m, dr.memberRow cap.id e.1.id e.2.2 e.2.1 = some m)
    (hdistinct : ((listed dr c members).map (·.1.id)).Nodup)
    (hdraw : (c.withMembers _ hmembers).Drawable v user) :
    ReadBack dr v c (c.withMembers _ hmembers) cap members user := by
  refine ⟨_,resolveForUser_ok hdraw,?_,?_⟩
  · constructor
    · rintro ⟨card,hcard,hkey⟩
      obtain ⟨cap',hcap',rfl⟩ := List.mem_map.mp hcard
      exact ((mem_capabilityRows_own hcap hscope hkey).mp hcap').2
    · intro hstatus
      exact ⟨_,List.mem_map.mpr ⟨cap,(mem_capabilityRows_own hcap hscope rfl).mpr ⟨rfl,hstatus⟩,rfl⟩,rfl⟩
  · intro card hcard hkey
    obtain ⟨cap',hcap',rfl⟩ := List.mem_map.mp hcard
    obtain ⟨rfl,hstatus⟩ := (mem_capabilityRows_own hcap hscope hkey).mp hcap'
    rw [cardFor_keys]
    have hperm := card_perm v hmembers hcap hscope hstatus hrows hall hdistinct
    exact ⟨hperm,fun hunordered => card_eq hcap hscope hrows hdistinct hunordered hperm⟩

end Rewritten

section Inserted

variable {dr : MemberColumns} {c : Catalogue} {cap : Capability} {members : List Json} {rows : List CapabilityAgent}

theorem AreRows.isSome (h : AreRows dr c cap members rows) {e : Agent × List (String × Json) × ℕ}
    (he : e ∈ listed dr c members) : ∃ m, dr.memberRow cap.id e.1.id e.2.2 e.2.1 = some m := by
  have hmem : dr.memberRow cap.id e.1.id e.2.2 e.2.1 ∈ rows.map some := h ▸ List.mem_map_of_mem he
  obtain ⟨m,-,hm⟩ := List.mem_map.mp hmem
  exact ⟨m,hm.symm⟩

theorem AreRows.agents (h : AreRows dr c cap members rows) :
    rows.map (·.agentId) = (listed dr c members).map (·.1.id) := by
  have hsome : (rows.map (·.agentId)).map some = ((listed dr c members).map (·.1.id)).map some := by
    calc (rows.map (·.agentId)).map some
      _ = (rows.map some).map (Option.map (·.agentId)) := by simp [Function.comp_def]
      _ = ((listed dr c members).map fun e => dr.memberRow cap.id e.1.id e.2.2 e.2.1).map
            (Option.map (·.agentId)) := by rw [h]
      _ = ((listed dr c members).map (·.1.id)).map some := by
          rw [List.map_map,List.map_map]
          refine List.map_congr_left fun e he => ?_
          obtain ⟨m,hm⟩ := h.isSome he
          simp only [Function.comp_apply,hm,Option.map_some,(memberRow_spec hm).1.agent]
  exact List.map_injective_iff.mpr (Option.some_injective _) hsome

theorem AreRows.capability (h : AreRows dr c cap members rows) {m : CapabilityAgent} (hm : m ∈ rows) :
    m.capabilityId = cap.id := by
  obtain ⟨e,-,hrow⟩ := h.mem_iff.mp hm
  exact (memberRow_spec hrow).1.capability

variable (cap) in
theorem exists_rows (h : ∀ e ∈ listed dr c members, Storable dr e.2.2 e.2.1) :
    ∃ rows, AreRows dr c cap members rows := by
  have hall : ∀ e ∈ listed dr c members, ∃ m, some m = dr.memberRow cap.id e.1.id e.2.2 e.2.1 := by
    intro e he
    obtain ⟨m,hm⟩ := memberRow_of_storable cap.id e.1.id (h e he)
    exact ⟨m,hm.symm⟩
  unfold AreRows
  generalize listed dr c members = L at hall
  induction L with
  | nil => exact ⟨[],rfl⟩
  | cons e L ih =>
    obtain ⟨m,hm⟩ := hall e List.mem_cons_self
    obtain ⟨rows,hrows⟩ := ih fun e' he' => hall e' (List.mem_cons_of_mem _ he')
    exact ⟨m :: rows,by rw [List.map_cons,List.map_cons,hrows,hm]⟩

/-- The rows that were there and the new ones are of different memberships exactly when no agent is listed twice. -/
theorem nodup_iff (h : AreRows dr c cap members rows) :
    ((c.members.filter (·.capabilityId ≠ cap.id) ++ rows).map fun m => (m.capabilityId,m.agentId)).Nodup ↔
      ((listed dr c members).map (·.1.id)).Nodup := by
  have hkept : ((c.members.filter (·.capabilityId ≠ cap.id)).map fun m => (m.capabilityId,m.agentId)).Nodup :=
    c.membership.sublist (List.filter_sublist.map _)
  have hrows : (rows.map fun m => (m.capabilityId,m.agentId)) = (rows.map (·.agentId)).map (Prod.mk cap.id) := by
    rw [List.map_map]
    refine List.map_congr_left fun m hm => ?_
    rw [h.capability hm]
    rfl
  have hapart : ∀ p ∈ (c.members.filter (·.capabilityId ≠ cap.id)).map fun m => (m.capabilityId,m.agentId),
      ∀ p' ∈ rows.map fun m => (m.capabilityId,m.agentId), p ≠ p' := by
    rintro p hp p' hp' rfl
    obtain ⟨m,hm,rfl⟩ := List.mem_map.mp hp
    obtain ⟨m',hm',heq⟩ := List.mem_map.mp hp'
    have hof : m.capabilityId = cap.id := (Prod.ext_iff.mp heq).1.symm.trans (h.capability hm')
    exact of_decide_eq_true (List.mem_filter.mp hm).2 hof
  rw [List.map_append,List.nodup_append]
  constructor
  · rintro ⟨-,hnew,-⟩
    rw [hrows,h.agents] at hnew
    exact hnew.of_map
  · intro hdistinct
    refine ⟨hkept,?_,hapart⟩
    rw [hrows,h.agents]
    exact hdistinct.map (Prod.mk_right_injective cap.id)

end Inserted

section Requests

variable {dr : MemberColumns} {v : Validation} {r : MembershipRequest} {c : Catalogue} {cap : Capability}
  {members : List Json}

theorem lists_unique {members' : List Json} (h : Lists r members) (h' : Lists r members') : members = members' := by
  obtain ⟨fields,hbody,hget⟩ := h
  obtain ⟨fields',hbody',hget'⟩ := h'
  obtain rfl := Option.some.inj (hbody.symm.trans hbody')
  exact Json.arr.inj (hget.symm.trans hget')

theorem names_unique {cap' : Capability} (h : Names r c cap) (h' : Names r c cap') : cap = cap' :=
  List.inj_on_of_nodup_map c.capability_scope_key h.mem h'.mem
    (Prod.ext (h.scope.trans h'.scope.symm) (h.key.trans h'.key.symm))

variable (dr c) in
theorem put_malformed (h : ∀ members, ¬ Lists r members) :
    ∃ a, putMembership dr r c = (some a,c) ∧ a.status = 422 := by
  unfold putMembership setCapabilityAgents
  cases hbody : r.body with
  | none => exact ⟨_,rfl,rfl⟩
  | some fields =>
    cases hget : Json.get fields "agents" with
    | arr members => exact absurd ⟨fields,hbody,hget⟩ (h members)
    | _ =>
      simp only [Option.map_some,hget]
      exact ⟨_,rfl,rfl⟩

/-- A well-formed request gets to the lookup of the capability, if the database can be asked for it. -/
theorem set_lists (h : Lists r members) : setCapabilityAgents dr r c =
    if Text.hasNul r.key || Text.hasNul r.scope.1 || Text.hasNul r.scope.2 then .error .unstorable
    else (c.capabilities.find? fun cap => cap.key = r.key && cap.scope = r.scope).elim
      (.ok ({ status := 404, error := "CAPABILITY_NOT_FOUND" },c)) fun cap => replaceMembers dr cap members c := by
  obtain ⟨fields,hbody,hget⟩ := h
  unfold setCapabilityAgents
  rw [hbody,Option.map_some,hget]
  cases c.capabilities.find? fun cap => cap.key = r.key && cap.scope = r.scope <;> rfl

theorem put_dirty (hlists : Lists r members) (h : ¬ Clean r) : putMembership dr r c = (none,c) := by
  have hnul : (Text.hasNul r.key || Text.hasNul r.scope.1 || Text.hasNul r.scope.2) = true := by
    by_contra hno
    simp only [Bool.not_eq_true,Bool.or_eq_false_iff] at hno
    exact h ⟨hno.1.1,hno.1.2,hno.2⟩
  rw [putMembership,set_lists hlists,if_pos hnul]

theorem not_nul (h : Clean r) :
    ¬ (Text.hasNul r.key || Text.hasNul r.scope.1 || Text.hasNul r.scope.2) = true := by
  simp [h.key,h.tenant,h.organization]

variable (dr) in
theorem put_unknown (hlists : Lists r members) (h : Clean r) (hno : ∀ cap, ¬ Names r c cap) :
    ∃ a, putMembership dr r c = (some a,c) ∧ a.status = 404 := by
  have hfind : (c.capabilities.find? fun cap => cap.key = r.key && cap.scope = r.scope) = none := by
    refine List.find?_eq_none.mpr fun cap hcap hfound => hno cap ⟨hcap,?_,?_⟩
    · exact of_decide_eq_true (Bool.and_eq_true_iff.mp hfound).1
    · exact of_decide_eq_true (Bool.and_eq_true_iff.mp hfound).2
  rw [putMembership,set_lists hlists,if_neg (not_nul h),hfind]
  exact ⟨_,rfl,rfl⟩

theorem set_named (hlists : Lists r members) (h : Clean r) (hcap : Names r c cap) :
    setCapabilityAgents dr r c = replaceMembers dr cap members c := by
  have hfind : (c.capabilities.find? fun cap => cap.key = r.key && cap.scope = r.scope) = some cap := by
    cases hf : c.capabilities.find? fun cap => cap.key = r.key && cap.scope = r.scope with
    | none =>
      have hnone := List.find?_eq_none.mp hf cap hcap.mem
      simp [hcap.key,hcap.scope] at hnone
    | some cap' =>
      have hfound := List.find?_some hf
      simp only [Bool.and_eq_true,decide_eq_true_eq] at hfound
      rw [names_unique hcap ⟨List.mem_of_find?_eq_some hf,hfound.1,hfound.2⟩]
  rw [set_lists hlists,if_neg (not_nul h),hfind,Option.elim_some]

theorem put_refused (hlists : Lists r members) (h : Clean r) (hcap : Names r c cap)
    (hrefused : RefusedIn dr c members) : ∃ a, putMembership dr r c = (some a,c) ∧ a.status = 422 := by
  obtain ⟨a,ha,hstatus⟩ := resolveMembers_refused 0 hrefused
  rw [putMembership,set_named hlists h hcap,replaceMembers,ha]
  exact ⟨a,rfl,hstatus⟩

theorem put_raised (hlists : Lists r members) (h : Clean r) (hcap : Names r c cap)
    (hrefused : ¬ RefusedIn dr c members) (hfound : ¬ ∀ m ∈ members, (named dr c m).isSome = true) :
    putMembership dr r c = (none,c) := by
  obtain ⟨e,he⟩ := resolveMembers_raised 0 hfound hrefused
  rw [putMembership,set_named hlists h hcap,replaceMembers,he]

theorem set_found (hlists : Lists r members) (h : Clean r) (hcap : Names r c cap)
    (hfound : ∀ m ∈ members, (named dr c m).isSome = true) :
    setCapabilityAgents dr r c = writeMembers dr cap members (listed dr c members) c := by
  have hresolve : resolveMembers dr c 0 members = .ok (listed dr c members) := by
    rw [resolveMembers_ok hfound,listed]
    simp only [Nat.zero_add]
  rw [set_named hlists h hcap,replaceMembers,hresolve]

theorem writeMembers_shown {cap : Capability} {rows : List (Agent × List (String × Json) × ℕ)} {c' : Catalogue}
    (hinsert : insertMembers dr cap.id rows (c.deleteMembers cap.id) = .ok c')
    (h : dr.jsonb (.obj [("agents",.arr members)]) = true) :
    writeMembers dr cap members rows c = .ok ({ agents := members },c') := by
  rw [writeMembers,hinsert]
  exact if_pos h

theorem writeMembers_hidden {cap : Capability} {rows : List (Agent × List (String × Json) × ℕ)} {c' : Catalogue}
    (hinsert : insertMembers dr cap.id rows (c.deleteMembers cap.id) = .ok c')
    (h : ¬ dr.jsonb (.obj [("agents",.arr members)]) = true) :
    writeMembers dr cap members rows c = .error .unstorable := by
  rw [writeMembers,hinsert]
  exact if_neg h

theorem put_written (hlists : Lists r members) (h : Clean r) (hcap : Names r c cap)
    (hwritable : Writable dr c members) : ∃ a rows, ∃ _ : AreRows dr c cap members rows,
      ∃ hmembers : ((c.members.filter (·.capabilityId ≠ cap.id) ++ rows).map fun m =>
        (m.capabilityId,m.agentId)).Nodup,
      putMembership dr r c = (some a,c.withMembers _ hmembers) ∧ a.status = 200 := by
  obtain ⟨rows,hrows⟩ := exists_rows cap hwritable.columns
  have hmembers := (nodup_iff hrows).mpr hwritable.distinct
  have hinsert : insertMembers dr cap.id (listed dr c members) (c.deleteMembers cap.id) =
      .ok (c.withMembers _ hmembers) := insertMembers_ok hrows hmembers
  refine ⟨{ agents := members },rows,hrows,hmembers,?_,rfl⟩
  rw [putMembership,set_found hlists h hcap hwritable.found,writeMembers_shown hinsert hwritable.audited]

theorem put_unwritable (hlists : Lists r members) (h : Clean r) (hcap : Names r c cap)
    (hfound : ∀ m ∈ members, (named dr c m).isSome = true) (hno : ¬ Writable dr c members) :
    putMembership dr r c = (none,c) := by
  rw [putMembership,set_found hlists h hcap hfound]
  cases hinsert : insertMembers dr cap.id (listed dr c members) (c.deleteMembers cap.id) with
  | error e =>
    rw [writeMembers,hinsert]
    rfl
  | ok c' =>
    obtain ⟨rows,hrows,hmembers⟩ := insertMembers_eq hinsert
    have hcolumns : ∀ e ∈ listed dr c members, Storable dr e.2.2 e.2.1 := by
      intro e he
      obtain ⟨m,hm⟩ := AreRows.isSome hrows he
      exact (memberRow_spec hm).2
    have haudit : ¬ dr.jsonb (.obj [("agents",.arr members)]) = true := fun haudited =>
      hno ⟨hfound,(nodup_iff hrows).mp hmembers,hcolumns,haudited⟩
    rw [writeMembers_hidden hinsert haudit]

end Requests

/-- For every request, content of the tables and behaviour of the columns: either the answer is 200 and every
caller in the scope reads the list back, or it is a 4xx and the tables are as they were, exactly when the body is
malformed, its capability is unknown, one of its members is refused, or its list can be written and shown. -/
theorem membership_treated_iff (dr : MemberColumns) (v : Validation) (r : MembershipRequest) (c : Catalogue) :
    AllOrNothing dr v r c ↔ Treated dr v r c := by
  constructor
  · rintro ⟨a,hput,hresult⟩
    by_cases hmalformed : ∀ members, ¬ Lists r members
    · exact .malformed hmalformed
    · push Not at hmalformed
      obtain ⟨members,hlists⟩ := hmalformed
      by_cases hclean : Clean r
      · by_cases hno : ∀ cap, ¬ Names r c cap
        · exact .unknown hclean hno
        · push Not at hno
          obtain ⟨cap,hcap⟩ := hno
          by_cases hrefused : RefusedIn dr c members
          · exact .refused hclean hcap hlists hrefused
          · have hfound : ∀ m ∈ members, (named dr c m).isSome = true := by
              by_contra hfound
              rw [put_raised hlists hclean hcap hrefused hfound] at hput
              cases hput
            have hwritable : Writable dr c members := by
              by_contra hwritable
              rw [put_unwritable hlists hclean hcap hfound hwritable] at hput
              cases hput
            refine .written hclean hcap hlists hwritable fun user huser => ?_
            obtain ⟨a',rows,hrows,hmembers,hwrite,hstatus⟩ := put_written hlists hclean hcap hwritable
            rw [hwrite] at hput hresult
            obtain rfl := Option.some.inj hput
            rcases hresult with ⟨-,cap',members',hcap',hlists',hread⟩ | ⟨hge,hlt,-⟩
            · obtain rfl := names_unique hcap hcap'
              obtain rfl := lists_unique hlists hlists'
              obtain ⟨doc,hdoc,-⟩ := hread user huser
              have hscope : cap.scope = scopeOf user := hcap.scope.trans huser.symm
              refine (drawable_iff hmembers hcap.mem hscope hrows fun e he => hrows.isSome he).mp ?_
              by_contra hdraw
              obtain ⟨e,he⟩ := resolveForUser_error hdraw
              rw [he] at hdoc
              cases hdoc
            · omega
      · rw [put_dirty hlists hclean] at hput
        cases hput
  · rintro (hmalformed | ⟨hclean,hno⟩ | ⟨hclean,hcap,hlists,hrefused⟩ | ⟨hclean,hcap,hlists,hwritable,hdisplay⟩)
    · obtain ⟨a,hput,hstatus⟩ := put_malformed dr c hmalformed
      exact ⟨a,by rw [hput],.inr ⟨by omega,by omega,by rw [hput]⟩⟩
    · by_cases hmalformed : ∀ members, ¬ Lists r members
      · obtain ⟨a,hput,hstatus⟩ := put_malformed dr c hmalformed
        exact ⟨a,by rw [hput],.inr ⟨by omega,by omega,by rw [hput]⟩⟩
      · push Not at hmalformed
        obtain ⟨members,hlists⟩ := hmalformed
        obtain ⟨a,hput,hstatus⟩ := put_unknown dr hlists hclean hno
        exact ⟨a,by rw [hput],.inr ⟨by omega,by omega,by rw [hput]⟩⟩
    · obtain ⟨a,hput,hstatus⟩ := put_refused hlists hclean hcap hrefused
      exact ⟨a,by rw [hput],.inr ⟨by omega,by omega,by rw [hput]⟩⟩
    · obtain ⟨a,rows,hrows,hmembers,hput,hstatus⟩ := put_written hlists hclean hcap hwritable
      refine ⟨a,by rw [hput],.inl ⟨hstatus,_,_,hcap,hlists,fun user huser => ?_⟩⟩
      have hscope := hcap.scope.trans huser.symm
      rw [hput]
      refine readBack_of hcap.mem hscope hrows (fun e he => hrows.isSome he) hwritable.distinct ?_
      exact (drawable_iff _ hcap.mem hscope hrows fun e he => hrows.isSome he).mpr (hdisplay user huser)

/-- Columns that take only values of their own kind. -/
def plainColumns : MemberColumns where
  key _ := none
  displayOrder _ := none
  label _ := none
  isVisible _ := none
  jsonb _ := true
  repr _ := ""

/-- A request for the default card of the chat. -/
def putting (members : List Json) : MembershipRequest where
  key := "chat"
  body := some [("agents",.arr members)]

def listing (fields : List (String × Json)) : Json := .obj (("agent_key",.str "assistant") :: fields)

def anyAccess : Validation := ⟨fun _ => none,fun _ => some {}⟩

/-- A list that names an agent twice ends in an exception; so does one with a number for a flag; and one whose
metadata is a list is written, and no document can be made after it. -/
theorem duplicate_unhandled :
    (putMembership plainColumns (putting [listing [],listing []]) disabledByTenant).1.isNone = true ∧
    ¬ AllOrNothing plainColumns anyAccess (putting [listing [],listing []]) disabledByTenant ∧
    (putMembership plainColumns (putting [listing [("is_visible",.num "1")]]) disabledByTenant).1.isNone = true ∧
    ((putMembership plainColumns (putting [listing [("metadata",.arr [.null])]]) disabledByTenant).1.map (·.status)) =
      some 200 ∧
    ((putMembership plainColumns (putting [listing [("metadata",.arr [.null])]]) disabledByTenant).2.resolveForUser
      anyAccess none).toOption.isNone = true := by
  have hnone : (putMembership plainColumns (putting [listing [],listing []]) disabledByTenant).1.isNone = true := by
    decide +kernel
  refine ⟨hnone,?_,by decide +kernel,by decide +kernel,by decide +kernel⟩
  rintro ⟨a,hput,-⟩
  rw [hput] at hnone
  cases hnone

end AdminConfig
end Saarathi
