import Saarathi.ScopePrecedence
import Mathlib.Data.String.Basic

/-!
# The capability document

The document has a card for each key whose most specific row is not disabled, and
on the card a button for each visible member that is enabled, configured in the
caller's chain of scopes and open to the caller. This module says so without the
queries and their joins.
-/

namespace Saarathi
namespace Catalogue

open ScopedSelection

variable (c : Catalogue) (v : Validation) (user : Option UserContext)

/-- The documented kinds of scope: the default one, a tenant's and an organization's of a tenant. -/
def Documented (s : Scope) : Prop := s.1 = "default" → s.2 = "default"

instance (s : Scope) : Decidable (Documented s) := inferInstanceAs (Decidable (_ → _))

structure DocumentedScopes : Prop where
  capability : ∀ cap ∈ c.capabilities, Documented cap.scope
  config : ∀ cfg ∈ c.configs, Documented cfg.scope

/-- The most specific row of a key for the caller. -/
def capabilityFor (key : String) : Option Capability :=
  precedent defaultScope (scopeOf user) (·.scope) (c.capabilitiesOf key)

/-- The most specific active configuration of an agent for the caller. -/
def configFor (agent : AgentId) : Option AgentConfig :=
  precedent defaultScope (scopeOf user) (·.scope) (c.activeConfigs agent)

/-- An agent that has a button on a capability's card. -/
structure Offers (cap : Capability) (m : CapabilityAgent) (a : Agent) : Prop where
  member : m ∈ c.members
  of : m.capabilityId = cap.id
  visible : m.isVisible = true
  agent : a ∈ c.agents
  joined : a.id = m.agentId
  enabled : a.status = .enabled
  permits : ∃ cfg, c.configFor user a.id = some cfg ∧ accessPermits v cfg.config user = true

/-- The action of a row, where its metadata has `get`. -/
def actionOf (metadata : Json) (fallback : List (String × Json)) : List (String × Json) :=
  (actionFrom metadata fallback).toOption.getD fallback

/-- Metadata that is falsy or an object. -/
def Actionable (metadata : Json) : Prop := metadata.truthy = false ∨ ∃ fields, metadata = .obj fields

def buttonOf (m : CapabilityAgent) (a : Agent) : AgentEntry where
  agentKey := a.key
  label := m.labelOverride.getD a.name
  description := a.description
  order := m.displayOrder
  action := withAgentKey a.key (actionOf m.metadata [("type",.str "start_agent")])

/-- The card of a row: the row's own texts, and a button for each agent that it offers. -/
structure CardOf (cap : Capability) (card : CapabilityEntry) : Prop where
  key : card.key = cap.key
  title : card.title = cap.name
  status : card.status = cap.status
  order : card.order = cap.displayOrder
  action : card.action = actionOf cap.metadata [("type",.str "display_card")]
  agents : ∀ b, b ∈ card.agents ↔ ∃ m a, c.Offers v user cap m a ∧ b = buttonOf m a
  once : (card.agents.map (·.agentKey)).Nodup
  ordered : card.agents.Pairwise fun b b' => b.order < b'.order ∨ (b.order = b'.order ∧ b.agentKey < b'.agentKey)

/-- A tenant's row that no row of its key is closer than: the caller's own, or the tenant's where the caller's
organization has none. -/
def Closest (s : Scope) (cap : Capability) : Prop :=
  cap.scope = s ∨ cap.scope = (s.1,"default") ∧ ∀ cap' ∈ c.capabilities, cap'.key = cap.key → cap'.scope ≠ s

/-- The document that a caller should see. -/
structure Exact (doc : List CapabilityEntry) : Prop where
  listed : ∀ key, (∃ card ∈ doc, card.key = key) ↔ ∃ cap, c.capabilityFor user key = some cap ∧ cap.status ≠ .disabled
  cards : ∀ card ∈ doc, ∃ cap, c.capabilityFor user card.key = some cap ∧ c.CardOf v user cap card
  once : (doc.map (·.key)).Nodup
  ordered : doc.Pairwise fun d d' => d.order < d'.order ∨ (d.order = d'.order ∧ d.key < d'.key)
  hidden : ∀ cap ∈ c.capabilities, c.Closest (scopeOf user) cap → cap.status = .disabled →
    ∀ card ∈ doc, card.key ≠ cap.key

section Selection

variable {c v user} {s : Scope}

/-- No row of a documented scope comes before the tenant's own. -/
theorem not_crossed {α : Type} {scope : α → Scope} {rows : List α} (h : ∀ a ∈ rows, Documented (scope a)) :
    ¬ Crossed s scope rows := by
  rintro ⟨horg,-,⟨a,ha,hscope⟩,-⟩
  have hdefault := h a ha
  rw [hscope] at hdefault
  exact horg (hdefault rfl)

theorem mem_resolvedCapabilities_iff (h : c.DocumentedScopes) {cap : Capability} :
    cap ∈ c.resolvedCapabilities (scopeOf user) ↔ c.capabilityFor user cap.key = some cap := by
  have hcrossed : ¬ Crossed (scopeOf user) (·.scope) (c.capabilitiesOf cap.key) :=
    not_crossed fun a ha => h.capability a (List.mem_filter.mp ha).1
  have hchain := (resolve_eq_precedent_iff (onePerScope_capabilitiesOf c cap.key)).mpr
    (fun hsh => hcrossed (shadowed_iff.mp hsh))
  rw [resolve_capability_iff,hchain]
  rfl

theorem lateralConfig_eq (h : c.DocumentedScopes) (agent : AgentId) :
    c.lateralConfig (scopeOf user) agent = c.configFor user agent := by
  have hcrossed : ¬ Crossed (scopeOf user) (·.scope) (c.activeConfigs agent) :=
    not_crossed fun a ha => h.config a (List.mem_filter.mp ha).1
  exact (resolve_eq_precedent_iff (onePerScope_activeConfigs c agent)).mpr (fun hsh => hcrossed (shadowed_iff.mp hsh))

theorem mem_capabilityRows_iff (h : c.DocumentedScopes) {cap : Capability} :
    cap ∈ c.capabilityRows (scopeOf user) ↔ c.capabilityFor user cap.key = some cap ∧ cap.status ≠ .disabled := by
  simp [capabilityRows,List.mem_insertionSort,mem_resolvedCapabilities_iff h]

/-- The key under which a row is found is its own. -/
theorem key_of_capabilityFor {key : String} {cap : Capability} (h : c.capabilityFor user key = some cap) :
    cap ∈ c.capabilities ∧ cap.key = key := by
  simpa [capabilitiesOf] using (mem_of_precedent h).1

theorem capabilityFor_closest {cap : Capability} (hcap : cap ∈ c.capabilities) (h : c.Closest (scopeOf user) cap) :
    c.capabilityFor user cap.key = some cap := by
  have hone := onePerScope_capabilitiesOf c cap.key
  have hmem : cap ∈ c.capabilitiesOf cap.key := by simp [capabilitiesOf,hcap]
  rcases h with hscope | ⟨hscope,hno⟩
  · have hfind : (c.capabilitiesOf cap.key).find? (·.scope = scopeOf user) = some cap :=
      (find_eq_some hone).mpr ⟨hmem,hscope⟩
    simp [capabilityFor,precedent,chain,hfind]
  · have hown : (c.capabilitiesOf cap.key).find? (·.scope = scopeOf user) = none := by
      refine find_eq_none.mpr fun cap' hcap' => ?_
      obtain ⟨hcap',hkey⟩ := List.mem_filter.mp hcap'
      exact hno cap' hcap' (of_decide_eq_true hkey)
    have hfind : (c.capabilitiesOf cap.key).find? (·.scope = ((scopeOf user).1,defaultScope.2)) = some cap :=
      (find_eq_some hone).mpr ⟨hmem,hscope⟩
    simp [capabilityFor,precedent,chain,hown,hfind]

end Selection

section Rows

variable {c v user} {s : Scope} {ids : List ℕ}

theorem nodup_capabilityRows (c : Catalogue) (s : Scope) : ((c.capabilityRows s).map (·.key)).Nodup := by
  have hperm := (List.perm_insertionSort (fun a b : Capability =>
    a.displayOrder < b.displayOrder ∨ (a.displayOrder = b.displayOrder ∧ a.key ≤ b.key))
      ((c.resolvedCapabilities s).filter (·.status ≠ .disabled))).map (·.key)
  refine hperm.nodup_iff.mpr ?_
  exact ((List.filter_sublist ..).map _).nodup nodup_distinctOn

theorem pairwise_capabilityRows (c : Catalogue) (s : Scope) : (c.capabilityRows s).Pairwise fun a b =>
    a.displayOrder < b.displayOrder ∨ (a.displayOrder = b.displayOrder ∧ a.key < b.key) := by
  have hrows : (c.capabilityRows s).Pairwise fun a b =>
      a.displayOrder < b.displayOrder ∨ (a.displayOrder = b.displayOrder ∧ a.key ≤ b.key) :=
    pairwise_orderBy (f := fun cap : Capability => cap.displayOrder) (g := fun cap => cap.key) _
  exact pairwise_lt_of_orderBy hrows (List.pairwise_map.mp (nodup_capabilityRows c s))

/-- The rows that one membership joins. -/
def joinedRows (c : Catalogue) (s : Scope) (ids : List ℕ) (m : CapabilityAgent) :
    List (CapabilityAgent × Agent × AgentConfig) :=
  if ids.contains m.capabilityId && m.isVisible then
    (c.agents.filter fun a => a.id = m.agentId && a.status = .enabled).filterMap fun a =>
      (c.lateralConfig s a.id).map fun cfg => (m,a,cfg)
  else []

theorem mem_joinedRows_iff {m m' : CapabilityAgent} {a : Agent} {cfg : AgentConfig} :
    (m,a,cfg) ∈ c.joinedRows s ids m' ↔ m' = m ∧ m.capabilityId ∈ ids ∧ m.isVisible = true ∧ a ∈ c.agents ∧
      a.id = m.agentId ∧ a.status = .enabled ∧ c.lateralConfig s a.id = some cfg := by
  unfold joinedRows
  split
  · rename_i hm
    simp only [Bool.and_eq_true,List.contains_iff_mem] at hm
    simp only [List.mem_filterMap,List.mem_filter,Option.map_eq_some_iff,Prod.mk.injEq,Bool.and_eq_true,
      decide_eq_true_eq]
    constructor
    · rintro ⟨a',⟨ha,hid,hstatus⟩,cfg',hcfg,rfl,rfl,rfl⟩
      exact ⟨rfl,hm.1,hm.2,ha,hid,hstatus,hcfg⟩
    · rintro ⟨rfl,-,-,ha,hid,hstatus,hcfg⟩
      exact ⟨a,⟨ha,hid,hstatus⟩,cfg,hcfg,rfl,rfl,rfl⟩
  · rename_i hm
    refine iff_of_false (by simp) ?_
    rintro ⟨rfl,hid,hvisible,-⟩
    simp [hid,hvisible] at hm

theorem mem_agentRows_iff {m : CapabilityAgent} {a : Agent} {cfg : AgentConfig} :
    (m,a,cfg) ∈ c.agentRows s ids ↔ m ∈ c.members ∧ m.capabilityId ∈ ids ∧ m.isVisible = true ∧ a ∈ c.agents ∧
      a.id = m.agentId ∧ a.status = .enabled ∧ c.lateralConfig s a.id = some cfg := by
  change (m,a,cfg) ∈ List.insertionSort _ (c.members.flatMap (c.joinedRows s ids)) ↔ _
  simp only [List.mem_insertionSort,List.mem_flatMap,mem_joinedRows_iff]
  constructor
  · rintro ⟨m',hm,rfl,h⟩
    exact ⟨hm,h⟩
  · rintro ⟨hm,h⟩
    exact ⟨m,hm,rfl,h⟩

/-- Two rows are of other capabilities or of other agents. -/
def OtherThan (r r' : CapabilityAgent × Agent × AgentConfig) : Prop :=
  r.1.capabilityId = r'.1.capabilityId → r.2.1.id ≠ r'.2.1.id

/-- A membership joins one agent, and an agent has one most specific configuration. -/
theorem pairwise_joinedRows (c : Catalogue) (s : Scope) (ids : List ℕ) (m : CapabilityAgent) :
    (c.joinedRows s ids m).Pairwise OtherThan := by
  unfold joinedRows
  split
  · have hagents : c.agents.Pairwise fun a a' => a.id ≠ a'.id := List.pairwise_map.mp c.agent_id
    refine List.pairwise_filterMap.mpr ((hagents.sublist List.filter_sublist).imp ?_)
    intro a a' hne r hr r' hr' hsame
    obtain ⟨cfg,-,rfl⟩ := Option.map_eq_some_iff.mp hr
    obtain ⟨cfg',-,rfl⟩ := Option.map_eq_some_iff.mp hr'
    exact hne
  · exact List.Pairwise.nil

theorem pairwise_agentRows (c : Catalogue) (s : Scope) (ids : List ℕ) : (c.agentRows s ids).Pairwise OtherThan := by
  have hsym : ∀ {r r' : CapabilityAgent × Agent × AgentConfig}, OtherThan r r' → OtherThan r' r :=
    fun h hid heq => h hid.symm heq.symm
  have hmembers : c.members.Pairwise fun m m' => (m.capabilityId,m.agentId) ≠ (m'.capabilityId,m'.agentId) :=
    List.pairwise_map.mp c.membership
  have hrows : (c.members.flatMap (c.joinedRows s ids)).Pairwise OtherThan := by
    refine List.pairwise_flatMap.mpr ⟨fun m _ => pairwise_joinedRows c s ids m,hmembers.imp ?_⟩
    rintro m m' hne ⟨m₁,a,cfg⟩ hr ⟨m₂,a',cfg'⟩ hr' hcap hid
    obtain ⟨rfl,-,-,-,ha,-⟩ := mem_joinedRows_iff.mp hr
    obtain ⟨rfl,-,-,-,ha',-⟩ := mem_joinedRows_iff.mp hr'
    exact hne (Prod.ext hcap (ha.symm.trans (hid.trans ha')))
  exact (@List.Perm.pairwise_iff _ OtherThan hsym _ _ (List.perm_insertionSort _ _)).mpr hrows

end Rows

section Document

variable {c v user}

/-- The rows behind the buttons of one card. -/
def cardRows (c : Catalogue) (v : Validation) (user : Option UserContext) (cap : Capability) :
    List (CapabilityAgent × Agent × AgentConfig) :=
  (c.permittedRows v user).filter fun (m,_,_) => m.capabilityId = cap.id

theorem mem_cardRows_iff (h : c.DocumentedScopes) {cap : Capability} (hcap : cap ∈ c.capabilityRows (scopeOf user))
    {m : CapabilityAgent} {a : Agent} :
    (∃ cfg, (m,a,cfg) ∈ c.cardRows v user cap) ↔ c.Offers v user cap m a := by
  have hids : ∀ {m : CapabilityAgent}, m.capabilityId = cap.id →
      m.capabilityId ∈ (c.capabilityRows (scopeOf user)).map (·.id) :=
    fun hid => List.mem_map.mpr ⟨cap,hcap,hid.symm⟩
  simp only [cardRows,permittedRows,List.mem_filter,mem_agentRows_iff,lateralConfig_eq h,decide_eq_true_eq]
  constructor
  · rintro ⟨cfg,⟨⟨hm,-,hvisible,ha,hid,hstatus,hcfg⟩,hpermits⟩,hof⟩
    exact ⟨hm,hof,hvisible,ha,hid,hstatus,cfg,hcfg,hpermits⟩
  · rintro ⟨hm,hof,hvisible,ha,hid,hstatus,cfg,hcfg,hpermits⟩
    exact ⟨cfg,⟨⟨hm,hids hof,hvisible,ha,hid,hstatus,hcfg⟩,hpermits⟩,hof⟩

/-- The rows of one card are of agents with keys of their own. -/
theorem pairwise_cardRows (c : Catalogue) (v : Validation) (user : Option UserContext) (cap : Capability) :
    (c.cardRows v user cap).Pairwise fun r r' => r.2.1.key ≠ r'.2.1.key := by
  have hsub : (c.cardRows v user cap).Sublist
      (c.agentRows (scopeOf user) ((c.capabilityRows (scopeOf user)).map (·.id))) :=
    List.filter_sublist.trans List.filter_sublist
  have hapart := (pairwise_agentRows c _ _).sublist hsub
  refine hapart.imp_of_mem ?_
  rintro ⟨m,a,cfg⟩ ⟨m',a',cfg'⟩ hr hr' hne hkey
  have hof : m.capabilityId = m'.capabilityId := by
    have hm := of_decide_eq_true (List.mem_filter.mp hr).2
    have hm' := of_decide_eq_true (List.mem_filter.mp hr').2
    exact hm.trans hm'.symm
  obtain ⟨-,-,-,ha,-⟩ := mem_agentRows_iff.mp (hsub.subset hr)
  obtain ⟨-,-,-,ha',-⟩ := mem_agentRows_iff.mp (hsub.subset hr')
  obtain rfl : a = a' := List.inj_on_of_nodup_map c.agent_key ha ha' hkey
  exact hne hof rfl

/-- The card of the document for one row of the capability query. -/
def cardFor (c : Catalogue) (v : Validation) (user : Option UserContext) (cap : Capability) : CapabilityEntry where
  key := cap.key
  title := cap.name
  status := cap.status
  order := cap.displayOrder
  action := actionOf cap.metadata [("type",.str "display_card")]
  agents := (c.cardRows v user cap).map fun (m,a,_) => buttonOf m a

theorem actionFrom_ok {metadata : Json} (h : Actionable metadata) (fallback : List (String × Json)) :
    actionFrom metadata fallback = .ok (actionOf metadata fallback) := by
  have hok : ∃ action, actionFrom metadata fallback = .ok action := by
    unfold actionFrom
    rcases h with hfalsy | ⟨fields,rfl⟩
    · simp only [Json.orElse,hfalsy,Bool.false_eq_true,if_false]
      exact ⟨_,rfl⟩
    · have hfields : ∃ fields', (Json.obj fields).orElse (.obj []) = .obj fields' := by
        unfold Json.orElse
        split
        · exact ⟨fields,rfl⟩
        · exact ⟨[],rfl⟩
      obtain ⟨fields',hfields'⟩ := hfields
      rw [hfields']
      exact ⟨_,rfl⟩
  obtain ⟨action,haction⟩ := hok
  rw [actionOf,haction]
  rfl

theorem actionFrom_error {metadata : Json} (h : ¬ Actionable metadata) (fallback : List (String × Json)) :
    ∃ e, actionFrom metadata fallback = .error e := by
  have htruthy : metadata.truthy = true := by
    by_contra hfalsy
    exact h (.inl (Bool.not_eq_true _ ▸ hfalsy))
  unfold actionFrom
  simp only [Json.orElse,htruthy,if_true]
  cases metadata with
  | obj fields => exact absurd (.inr ⟨fields,rfl⟩) h
  | _ => exact ⟨_,rfl⟩

/-- What the queries select for the user can be made into the document. -/
structure Drawable (c : Catalogue) (v : Validation) (user : Option UserContext) : Prop where
  cards : ∀ cap ∈ c.capabilityRows (scopeOf user), Actionable cap.metadata
  buttons : ∀ r ∈ c.permittedRows v user, Actionable r.1.metadata

theorem agentEntries_ok (h : ∀ r ∈ c.permittedRows v user, Actionable r.1.metadata) :
    (c.permittedRows v user).mapM (fun (m,a,_) => agentEntry m a) =
      .ok ((c.permittedRows v user).map fun (m,a,_) => (m.capabilityId,buttonOf m a)) := by
  refine mapM_eq_ok ?_
  rintro ⟨m,a,cfg⟩ hr
  simp only [agentEntry]
  rw [actionFrom_ok (h _ hr)]
  rfl

theorem resolveForUser_ok (h : c.Drawable v user) :
    c.resolveForUser v user = .ok ((c.capabilityRows (scopeOf user)).map (c.cardFor v user)) := by
  unfold resolveForUser
  rw [agentEntries_ok h.buttons]
  refine mapM_eq_ok fun cap hcap => ?_
  rw [actionFrom_ok (h.cards cap hcap)]
  simp only [cardFor,cardRows,List.filter_map,List.map_map,Function.comp_def]
  rfl

theorem resolveForUser_error (h : ¬ c.Drawable v user) : ∃ e, c.resolveForUser v user = .error e := by
  unfold resolveForUser
  by_cases hbuttons : ∀ r ∈ c.permittedRows v user, Actionable r.1.metadata
  · have hcards : ∃ cap ∈ c.capabilityRows (scopeOf user), ¬ Actionable cap.metadata := by
      by_contra hall
      push Not at hall
      exact h ⟨hall,hbuttons⟩
    obtain ⟨cap,hcap,hmetadata⟩ := hcards
    obtain ⟨e,he⟩ := actionFrom_error hmetadata [("type",.str "display_card")]
    rw [agentEntries_ok hbuttons]
    refine mapM_raises (e := e) hcap ?_
    rw [he]
    rfl
  · push Not at hbuttons
    obtain ⟨⟨m,a,cfg⟩,hr,hmetadata⟩ := hbuttons
    obtain ⟨e,he⟩ := actionFrom_error hmetadata [("type",.str "start_agent")]
    have hentry : agentEntry m a = .error e := by
      rw [agentEntry,he]
      rfl
    obtain ⟨e',hraise⟩ := mapM_raises (f := fun (m,a,_) => agentEntry m a) hr hentry
    rw [hraise]
    exact ⟨e',rfl⟩

theorem cardFor_cardOf (h : c.DocumentedScopes) {cap : Capability} (hcap : cap ∈ c.capabilityRows (scopeOf user)) :
    c.CardOf v user cap (c.cardFor v user cap) := by
  have hkeys := pairwise_cardRows c v user cap
  refine ⟨rfl,rfl,rfl,rfl,rfl,?_,?_,?_⟩
  · intro b
    simp only [← mem_cardRows_iff h hcap,cardFor,List.mem_map]
    constructor
    · rintro ⟨⟨m,a,cfg⟩,hr,rfl⟩
      exact ⟨m,a,⟨cfg,hr⟩,rfl⟩
    · rintro ⟨m,a,⟨cfg,hr⟩,rfl⟩
      exact ⟨(m,a,cfg),hr,rfl⟩
  · simp only [cardFor,List.map_map,List.Nodup,List.pairwise_map]
    exact hkeys
  · have hrows : (c.agentRows (scopeOf user) ((c.capabilityRows (scopeOf user)).map (·.id))).Pairwise fun r r' =>
        r.1.displayOrder < r'.1.displayOrder ∨ (r.1.displayOrder = r'.1.displayOrder ∧ r.2.1.key ≤ r'.2.1.key) :=
      pairwise_orderBy (f := fun r : CapabilityAgent × Agent × AgentConfig => r.1.displayOrder)
        (g := fun r => r.2.1.key) _
    exact List.pairwise_map.mpr
      (pairwise_lt_of_orderBy (hrows.sublist (List.filter_sublist.trans List.filter_sublist)) hkeys)

/-- The cards of the rows that the caller is to see are exact. -/
theorem cards_exact (h : c.DocumentedScopes) :
    c.Exact v user ((c.capabilityRows (scopeOf user)).map (c.cardFor v user)) := by
  have hlisted : ∀ key, (∃ card ∈ (c.capabilityRows (scopeOf user)).map (c.cardFor v user), card.key = key) ↔
      ∃ cap, c.capabilityFor user key = some cap ∧ cap.status ≠ .disabled := by
    intro key
    constructor
    · rintro ⟨card,hcard,rfl⟩
      obtain ⟨cap,hcap,rfl⟩ := List.mem_map.mp hcard
      exact ⟨cap,(mem_capabilityRows_iff h).mp hcap⟩
    · rintro ⟨cap,hcap,hstatus⟩
      obtain ⟨-,rfl⟩ := key_of_capabilityFor hcap
      exact ⟨_,List.mem_map.mpr ⟨cap,(mem_capabilityRows_iff h).mpr ⟨hcap,hstatus⟩,rfl⟩,rfl⟩
  refine ⟨hlisted,?_,?_,?_,?_⟩
  · intro card hcard
    obtain ⟨cap,hcap,rfl⟩ := List.mem_map.mp hcard
    exact ⟨cap,((mem_capabilityRows_iff h).mp hcap).1,cardFor_cardOf h hcap⟩
  · rw [List.map_map]
    exact nodup_capabilityRows c (scopeOf user)
  · exact List.pairwise_map.mpr (pairwise_capabilityRows c (scopeOf user))
  · intro cap hcap hclosest hstatus card hcard hkey
    obtain ⟨cap',hcap',hshown⟩ := (hlisted cap.key).mp ⟨card,hcard,hkey⟩
    rw [capabilityFor_closest hcap hclosest] at hcap'
    obtain rfl := Option.some.inj hcap'
    exact hshown hstatus

/-- Every row that the caller is to see a card or a button of has metadata that is falsy or an object. -/
structure Readable (c : Catalogue) (v : Validation) (user : Option UserContext) : Prop where
  cards : ∀ key cap, c.capabilityFor user key = some cap → cap.status ≠ .disabled → Actionable cap.metadata
  buttons : ∀ key cap, c.capabilityFor user key = some cap → cap.status ≠ .disabled →
    ∀ m a, c.Offers v user cap m a → Actionable m.metadata

/-- Nothing else is on record. -/
theorem Readable.of_stored (hcap : ∀ cap ∈ c.capabilities, Actionable cap.metadata)
    (hmember : ∀ m ∈ c.members, Actionable m.metadata) : c.Readable v user where
  cards _ cap hfor _ := hcap cap (key_of_capabilityFor hfor).1
  buttons _ _ _ _ m _ hoffers := hmember m hoffers.member

theorem drawable_iff_readable (h : c.DocumentedScopes) : c.Drawable v user ↔ c.Readable v user := by
  constructor
  · intro hdraw
    refine ⟨fun key cap hcap hstatus => ?_,fun key cap hcap hstatus m a hoffers => ?_⟩
    all_goals
      obtain ⟨-,rfl⟩ := key_of_capabilityFor hcap
      have hrow : cap ∈ c.capabilityRows (scopeOf user) := (mem_capabilityRows_iff h).mpr ⟨hcap,hstatus⟩
    · exact hdraw.cards cap hrow
    · obtain ⟨cfg,hr⟩ := (mem_cardRows_iff h hrow).mpr hoffers
      exact hdraw.buttons _ (List.mem_filter.mp hr).1
  · intro hread
    refine ⟨fun cap hcap => ?_,?_⟩
    · obtain ⟨hfor,hstatus⟩ := (mem_capabilityRows_iff h).mp hcap
      exact hread.cards cap.key cap hfor hstatus
    · rintro ⟨m,a,cfg⟩ hr
      obtain ⟨-,hid,-⟩ := mem_agentRows_iff.mp (List.mem_filter.mp hr).1
      obtain ⟨cap,hcap,hof⟩ := List.mem_map.mp hid
      obtain ⟨hfor,hstatus⟩ := (mem_capabilityRows_iff h).mp hcap
      refine hread.buttons cap.key cap hfor hstatus m a ((mem_cardRows_iff h hcap).mp ⟨cfg,?_⟩)
      exact List.mem_filter.mpr ⟨hr,decide_eq_true hof.symm⟩

/-- Where the scopes are of the documented kinds, a caller gets the exact document, a card for each key whose
most specific row is not disabled, in their order, and on it the agents that are offered, in theirs, exactly
when the metadata of these rows can be read. -/
theorem document_exact_iff (c : Catalogue) (v : Validation) (user : Option UserContext) (h : c.DocumentedScopes) :
    (∃ doc, c.resolveForUser v user = .ok doc ∧ c.Exact v user doc) ↔ c.Readable v user := by
  rw [← drawable_iff_readable h]
  constructor
  · rintro ⟨doc,hdoc,-⟩
    by_contra hnot
    obtain ⟨e,he⟩ := resolveForUser_error hnot
    rw [he] at hdoc
    cases hdoc
  · intro hdraw
    exact ⟨_,resolveForUser_ok hdraw,cards_exact h⟩

end Document

/-- Two cards at the default scope, of which a tenant has disabled one. -/
def disabledByTenant : Catalogue where
  agents := [{ id := 1, key := "assistant", name := "Saarthi" },{ id := 2, key := "story", name := "Story" }]
  configs := [
    { agentId := 1, version := 1, source := .yaml, checksum := "a", config := .obj [], isActive := true },
    { agentId := 2, version := 1, source := .yaml, checksum := "b", config := .obj [], isActive := true },
    { agentId := 2, scope := ("acme","default"), version := 1, source := .db, checksum := "c",
      config := .obj [("access",.null)], isActive := true }]
  capabilities := [{ id := 1, key := "chat", name := "Chat" },{ id := 2, key := "tell", name := "Tell" },
    { id := 3, key := "chat", scope := ("acme","default"), name := "Chat", status := .disabled }]
  members := [{ capabilityId := 1, agentId := 1 },{ capabilityId := 2, agentId := 2 },
    { capabilityId := 2, agentId := 1, displayOrder := 50 }]
  agent_id := by decide
  agent_key := by decide
  agent_name := by decide
  single_default := by decide
  one_active := by decide
  scope_version := by decide
  capability_id := by decide
  capability_scope_key := by decide
  membership := by decide

/-- The tenant's user sees the other card only, with both agents in their order. -/
theorem document_disabled : ∃ v : Validation, ∃ user : UserContext, scopeOf (some user) = ("acme","default") ∧
    (∃ doc, disabledByTenant.resolveForUser v (some user) = .ok doc ∧ disabledByTenant.Exact v (some user) doc) ∧
    (disabledByTenant.resolveForUser v (some user)).toOption.map
      (fun doc => doc.map fun card => (card.key,card.agents.map (·.agentKey))) =
      some [("tell",["assistant","story"])] := by
  refine ⟨⟨fun _ => none,fun _ => some {}⟩,{ userId := "user", tenantCode := "acme" },by decide,?_,by decide⟩
  refine (document_exact_iff _ _ _ ⟨by decide,by decide⟩).mpr (Readable.of_stored ?_ ?_)
  · intro cap hcap
    simp only [disabledByTenant,List.mem_cons,List.not_mem_nil,or_false] at hcap
    rcases hcap with rfl | rfl | rfl <;> exact .inr ⟨[],rfl⟩
  · intro m hm
    simp only [disabledByTenant,List.mem_cons,List.not_mem_nil,or_false] at hm
    rcases hm with rfl | rfl | rfl <;> exact .inr ⟨[],rfl⟩

/-- One card whose metadata is a list. -/
def listedMetadata : Catalogue :=
  { blank with
    capabilities := [{ id := 1, key := "chat", name := "Chat", metadata := .arr [.str "action"] }]
    capability_id := by decide
    capability_scope_key := by decide }

/-- No caller gets a document while it is there. -/
theorem document_raises : listedMetadata.DocumentedScopes ∧ ∀ v : Validation,
    listedMetadata.resolveForUser v none = .error (.python "AttributeError" "no attribute 'get'") ∧
    ¬ ∃ doc, listedMetadata.resolveForUser v none = .ok doc ∧ listedMetadata.Exact v none doc := by
  refine ⟨⟨by decide,by decide⟩,fun v => ?_⟩
  have hraise : listedMetadata.resolveForUser v none = .error (.python "AttributeError" "no attribute 'get'") := rfl
  refine ⟨hraise,?_⟩
  rintro ⟨doc,hdoc,-⟩
  rw [hraise] at hdoc
  cases hdoc

end Catalogue
end Saarathi
