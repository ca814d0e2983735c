import Saarathi.Sidebar
import Saarathi.Statements

/-!
# The scope cache and the snapshot

Turns take an agent from a snapshot and resolve it for the caller's scope, and the
sidebar resolves all agents of a snapshot, while the registry reloads in between.
-/

namespace Saarathi

open Program Program.Prog Machine Interleaving

/-- What a turn is handed: the agent that was chosen, as this scope sees it. -/
structure Handed where
  tenant : String
  organization : String
  key : String
  agent : RegisteredAgent

/-- The requests that resolve agents: step 4 of a turn, and the sidebar. -/
inductive RoutingReq where
  | turn (conv : Conversation) (inp : TurnInput)
  | agents (user : Option UserContext)

def RoutingReq.prog (d : Deployment) : RoutingReq → Proc (Option Handed)
  | turn conv inp => do
    let (decision,agent) ← OrchestrationService.routeTurn d inp conv
    pure (decision.agent.map fun chosen =>
      ⟨tenantOf (some inp.user),organizationOf (some inp.user),chosen.key,agent⟩)
  | agents user => do
    let _ ← AgentRoutes.getAgents user
    pure none

/-- These requests over one world. -/
def routing (d : Deployment) : Services RoutingReq (Option Handed) where
  prog _ req := req.prog d
  begin w _ _ := w
  exec w x o c := w.exec d x o c
  env w e := w.env d e

/-- A scoped row that the database answered with, under a version of the registry. -/
structure ScopedRow where
  version : ℕ
  agent : AgentId
  tenant : String
  organization : String
  checksum : String
  spec : AgentSpec

/-- The snapshot that each request read last, with its version, and the rows of the database. -/
structure Reads where
  last : Conn → Option (ℕ × AgentRegistry) := fun _ => none
  rows : List ScopedRow := []

namespace Reads

/-- What a call notes. -/
def after (h : Reads) (w : World) (x : Conn) (o : Op) (r : Except Exn o.Ans) : Reads :=
  match o,r with
  | .snapshot,.ok registry => { h with last := Function.update h.last x (some (w.registryVersion,registry)) }
  | .stmt (.scopedConfig agent tenant organization),.ok (some (checksum,some spec)) =>
    { h with rows := h.rows ++ [⟨w.registryVersion,agent,tenant,organization,checksum,spec⟩] }
  | _,_ => h

end Reads

/-- The requests, with these notes. -/
def notedRouting (d : Deployment) :
    Interp (World × Reads) Conn RoutingReq Choice World.EnvAct Op Op.Ans Exn (Option Handed) :=
  (routing d).noting fun w x o r h => h.after w x o r

abbrev RoutingConfig := Interleaving.Config (World × Reads) Conn Op Op.Ans Exn (Option Handed)

/-- The agent, or the agent with a row that the database answered with for this scope. -/
def InScope (rows : List ScopedRow) (version : ℕ) (tenant organization : String) (a b : RegisteredAgent) : Prop :=
  b = a ∨ ∃ checksum spec, ⟨version,a.id,tenant,organization,checksum,spec⟩ ∈ rows ∧
    b = { a with checksum := checksum, spec := spec }

theorem InScope.mono {rows rows' : List ScopedRow} {version : ℕ} {tenant organization : String}
    {a b : RegisteredAgent} (h : InScope rows version tenant organization a b) (hrows : rows ⊆ rows') :
    InScope rows' version tenant organization a b := by
  rcases h with rfl | ⟨checksum,sp,hrow,rfl⟩
  · exact .inl rfl
  · exact .inr ⟨checksum,sp,hrows hrow,rfl⟩

/-- An agent of the snapshot, as the scope sees it. -/
def OfSnapshot (registry : AgentRegistry) (rows : List ScopedRow) (version : ℕ)
    (tenant organization key : String) (b : RegisteredAgent) : Prop :=
  ∃ a ∈ registry.snapshot, a.key = key ∧ InScope rows version tenant organization a b

/-- The scope and the key of a lookup. -/
def Op.lookup : Op → Option (String × String × String)
  | .scopeLookup tenant organization key => some (tenant,organization,key)
  | _ => none

/-- A request resolves an agent while it is in the snapshot as it was when the request read it, or where
the scope's entry is there already. -/
def Unraced (c : RoutingConfig) : Interleaving.Act Conn RoutingReq Choice World.EnvAct → Prop
  | .call x _ => ∀ scope ∈ (c.nextCall x).bind Op.lookup,
      (c.world.1.scopeLookup scope.1 scope.2.1 scope.2.2).2.isSome = true ∨
        ∀ read ∈ c.world.2.last x, ∀ a ∈ read.2.snapshot, a.key = scope.2.2 →
          a ∈ c.world.1.registry.snapshot
  | _ => True

instance (c : RoutingConfig) : (a : Interleaving.Act Conn RoutingReq Choice World.EnvAct) →
    Decidable (Unraced c a)
  | .call x _ => inferInstanceAs (Decidable (∀ scope ∈ (c.nextCall x).bind Op.lookup,
      (c.world.1.scopeLookup scope.1 scope.2.1 scope.2.2).2.isSome = true ∨
        ∀ read ∈ c.world.2.last x, ∀ a ∈ read.2.snapshot, a.key = scope.2.2 →
          a ∈ c.world.1.registry.snapshot))
  | .start .. => isTrue trivial
  | .finish _ => isTrue trivial
  | .env _ => isTrue trivial

/-- What a request sees. -/
structure RegistryView where
  version : ℕ
  registry : AgentRegistry
  rows : List ScopedRow
  last : Option (ℕ × AgentRegistry)

namespace RegistryView

/-- What the others do meanwhile. -/
structure Moves (l l' : RegistryView) : Prop where
  last : l'.last = l.last
  version : l.version ≤ l'.version
  registry : l'.version = l.version → l'.registry = l.registry
  rows : l.rows ⊆ l'.rows

theorem Moves.refl (l : RegistryView) : Moves l l := ⟨rfl,le_refl _,fun _ => rfl,fun _ h => h⟩

theorem Moves.trans {l₁ l₂ l₃ : RegistryView} (h : Moves l₁ l₂) (h' : Moves l₂ l₃) : Moves l₁ l₃ := by
  refine ⟨h'.last.trans h.last,h.version.trans h'.version,fun hv => ?_,fun r hr => h'.rows (h.rows hr)⟩
  have h₁ := h.version
  have h₂ := h'.version
  rw [h'.registry (by omega),h.registry (by omega)]

/-- The agents of this key in the snapshot that was read are in the snapshot that is there. -/
def Settled (l : RegistryView) (key : String) : Prop :=
  ∀ v r, l.last = some (v,r) → ∀ a ∈ r.snapshot, a.key = key → a ∈ l.registry.snapshot

/-- Of the snapshot that is there under the current version, unless a request may race a reload. -/
def Current (U : Prop) (l : RegistryView) (version : ℕ) (tenant organization key : String)
    (b : RegisteredAgent) : Prop :=
  U → version = l.version → OfSnapshot l.registry l.rows version tenant organization key b

/-- The calls of these requests, where `P` holds of every configuration on record and `U` says that no
request races a reload. -/
def spec (P : String → AgentSpec → Prop) (U : Prop) : Spec Op Op.Ans Exn RegistryView where
  pre o l := match o with
    | .stmt _ => True
    | .snapshot => True
    | .routerModel _ => True
    | .scopeLookup .. => True
    | .scopeStore version tenant organization b => P b.checksum b.spec ∧ version ≤ l.version ∧
        l.Current U version tenant organization b.key b
    | _ => False
  post o l r l' := match o,r with
    | .snapshot,r => r = .ok l.registry ∧ l' = { l with last := some (l.version,l.registry) } ∧
        ∀ a ∈ l.registry.snapshot, P a.checksum a.spec
    | .scopeLookup tenant organization key,r => l' = l ∧ ∃ cached, r = .ok (l.version,cached) ∧
        (∀ b, cached = some b → P b.checksum b.spec ∧
          l.Current U l.version tenant organization key b) ∧
        (cached = none → U → l.Settled key)
    | .stmt (.scopedConfig agent tenant organization),.ok (some (checksum,some spec)) =>
        l' = { l with rows := l.rows ++ [⟨l.version,agent,tenant,organization,checksum,spec⟩] } ∧
          P checksum spec
    | _,_ => l' = l
  rely := Moves

variable {P : String → AgentSpec → Prop} {U : Prop}

/-- An assertion that survives what the others do. -/
def Stable (A : RegistryView → Prop) : Prop := ∀ l l', A l → Moves l l' → A l'

theorem moves_rows (l : RegistryView) (row : ScopedRow) : Moves l { l with rows := l.rows ++ [row] } :=
  ⟨rfl,le_refl _,fun _ => rfl,fun _ h => List.mem_append_left _ h⟩

/-- Statements leave what survives the others. -/
theorem post_stmt {st : Stmt} {l l' : RegistryView} {r : Except Exn st.Ans}
    (h : (spec P U).post (.stmt st) l r l') :
    Moves l l' := by
  cases st with
  | scopedConfig agent tenant organization =>
    rcases r with e | - | ⟨checksum,- | sp⟩
    · obtain rfl : l' = l := h
      exact .refl _
    · obtain rfl : l' = l := h
      exact .refl _
    · obtain rfl : l' = l := h
      exact .refl _
    · obtain ⟨rfl,-⟩ : l' = { l with rows := l.rows ++ [⟨l.version,agent,tenant,organization,checksum,sp⟩] } ∧
          P checksum sp := h
      exact moves_rows l _
  | _ =>
    obtain rfl : l' = l := h
    exact .refl _

theorem Op.eq_stmt {o : Op} (h : o.role ∈ [Role.query,.abandon,.unpin,.record]) : ∃ st, o = .stmt st := by
  cases o with
  | stmt st => exact ⟨st,rfl⟩
  | _ => simp [Op.role] at h

variable {α : Type} {A : RegistryView → Prop}

theorem keeps_statements {p : Proc α} (hp : Within [.query,.abandon,.unpin,.record] p) (hA : Stable A) :
    Keeps (spec P U) A p := by
  apply Keeps.of_all hp
  intro o ho l hl l₁ h₁
  obtain ⟨st,rfl⟩ := Op.eq_stmt ho
  exact ⟨trivial,fun r l₂ h₂ => hA _ _ (hA _ _ hl h₁) (post_stmt h₂)⟩

/-- The snapshot that was read last is the current one as long as the version is. -/
def Read (P : String → AgentSpec → Prop) (r : AgentRegistry) (l : RegistryView) : Prop :=
  (∀ a ∈ r.snapshot, P a.checksum a.spec) ∧
    ∃ v, l.last = some (v,r) ∧ v ≤ l.version ∧ (v = l.version → l.registry = r)

theorem stable_read (r : AgentRegistry) : Stable (Read P r) := by
  rintro l l' ⟨hP,v,hlast,hle,hreg⟩ hm
  have hv := hm.version
  refine ⟨hP,v,hm.last.trans hlast,hle.trans hv,fun he => ?_⟩
  rw [hm.registry (by omega),hreg (by omega)]

/-- An agent of the snapshot that was read last. -/
def From (P : String → AgentSpec → Prop) (a : RegisteredAgent) (l : RegistryView) : Prop :=
  ∃ r, Read P r l ∧ a ∈ r.snapshot

theorem stable_from (a : RegisteredAgent) : Stable (From P a) := by
  rintro l l' ⟨r,hr,ha⟩ hm
  exact ⟨r,stable_read r _ _ hr hm,ha⟩

/-- Read the snapshot. -/
theorem triple_snapshot : Triple (spec P U) A snapshot fun r => Read P r := by
  apply Triple.perform
  rintro l hl l₁ h₁
  refine ⟨trivial,?_⟩
  rintro r l₂ ⟨hr,rfl,hP⟩
  obtain rfl := Except.ok.inj hr
  exact ⟨hP,l₁.version,rfl,le_refl _,fun _ => rfl⟩

end RegistryView

namespace RouterService

open RegistryView

variable {d : Deployment} {conv : Conversation} {inp : TurnInput} {A : RegistryView → Prop}
variable {P : String → AgentSpec → Prop} {U : Prop}

/-- The agent of the decision, if it has one, is of the snapshot that was read last. -/
def FromLast (P : String → AgentSpec → Prop) (decision : RouteDecision) (l : RegistryView) : Prop := ∀ a, decision.agent = some a → From P a l

theorem stable_true : Stable fun _ => True := fun _ _ _ _ => trivial

/-- Statements in front of a program. -/
theorem triple_after {α β : Type} {p : Proc α} {f : α → Proc β} {B : β → RegistryView → Prop}
    (hp : Within [.query,.abandon,.unpin,.record] p) (hA : Stable A) (hf : ∀ a, Triple (spec P U) A (f a) B) :
    Triple (spec P U) A (p >>= f) B :=
  (Triple.of_keeps (keeps_statements hp hA)).bind hf

theorem triple_default : Triple (spec P U) A (do
    pure { agent := (← snapshot).default, reason := .exitToDefault, confidence := 1, unpinned := true })
      (FromLast P) := by
  apply triple_snapshot.bind
  intro r
  apply Triple.pure
  intro l hl a ha
  exact ⟨r,hl,List.mem_of_find?_eq_some ha⟩

theorem exitToDefault_from (c : ConversationId) :
    Triple (spec P U) (fun _ => True) (exitToDefault c) (FromLast P) := by
  unfold exitToDefault
  apply triple_after ((SessionService.abandon_calls ..).within.mono (by decide)) stable_true
  intro _
  exact triple_after (Within.stmt rfl) stable_true fun _ => triple_default

theorem pinFor_from : Triple (spec P U) (fun _ => True) (pinFor conv) fun a l => ∀ b, a = some b → From P b l := by
  unfold pinFor
  have hget : ∀ id, Triple (spec P U) (fun _ => True) (do pure ((← snapshot).getById id))
      fun a l => ∀ b, a = some b → From P b l := by
    intro id
    apply triple_snapshot.bind
    intro r
    apply Triple.pure
    intro l hl b hb
    exact ⟨r,hl,List.mem_of_find?_eq_some hb⟩
  apply Triple.bind (P := fun a l => ∀ b, a = some b → From P b l)
  · cases conv.pinnedAgentId with
    | none => exact Triple.pure (by simp)
    | some id => exact hget id
  · intro pinned
    cases pinned with
    | some a => exact Triple.pure fun l hl => hl
    | none =>
      refine Triple.mono (A := fun _ => True) ?_ (fun _ _ => trivial) fun _ _ h => h
      apply triple_after ((Within.one rfl).mono (by decide : [Role.query] ⊆ _)) stable_true
      intro session
      cases session with
      | none => exact Triple.pure (by simp)
      | some session => exact hget session.agentId

theorem modelRoute_from (c : ConversationId) (hA : Stable A) : Triple (spec P U) A (modelRoute d c)
    fun r l => ∀ decision, r = some decision → FromLast P decision l := by
  unfold modelRoute
  have hmodel : Keeps (spec P U) A (perform (Op.routerModel c) : Proc _) := by
    apply Keeps.perform
    intro l hl l₁ h₁
    refine ⟨trivial,?_⟩
    rintro r l₂ rfl
    exact hA _ _ hl h₁
  apply (Triple.of_keeps hmodel.attempt).bind
  intro r
  rcases r with e | - | ⟨key,confidence⟩
  · exact Triple.pure (by simp)
  · exact Triple.pure (by simp)
  · apply triple_snapshot.bind
    intro r
    cases hkey : r.getByKeyExact d.lower key with
    | none => exact Triple.pure (by simp)
    | some a =>
      dsimp only
      split
      · apply Triple.pure
        rintro l hl decision ⟨⟩ b ⟨⟩
        exact ⟨r,hl,getByKeyExact_mem hkey⟩
      · exact Triple.pure (by simp)

theorem selectFree_from : Triple (spec P U) (fun _ => True) (selectFree d conv inp) (FromLast P) := by
  unfold selectFree
  apply triple_snapshot.bind
  intro r
  have hvisible : ∀ a ∈ visible r (some inp.user), a ∈ r.snapshot := by
    intro a ha
    exact List.mem_of_mem_filter (List.mem_of_mem_filter ha)
  refine Triple.bind (P := fun hits l => Read P r l ∧ ∀ a ∈ hits, a ∈ r.snapshot) ?_ ?_
  · apply Triple.branch
    · exact Triple.pure fun l hl => ⟨hl,by simp⟩
    · apply triple_after (textOnly_calls inp.text).within (stable_read r)
      intro text
      exact Triple.pure fun l hl => ⟨hl,fun a ha => hvisible a (List.mem_of_mem_filter ha)⟩
  · intro hits
    cases hmax : maxPriority hits with
    | some a =>
      apply Triple.pure
      rintro l ⟨hl,hhits⟩ b ⟨⟩
      exact ⟨r,hl,hhits a (maxPriority_mem hmax)⟩
    | none =>
      refine Triple.mono (A := fun _ => True) ?_ (fun _ _ => trivial) fun _ _ h => h
      apply (modelRoute_from conv.id stable_true).bind
      intro routed
      cases routed with
      | some decision => exact Triple.pure fun l hl => hl decision rfl
      | none =>
        apply triple_snapshot.bind
        intro r'
        apply Triple.pure
        intro l hl a ha
        exact ⟨r',hl,List.mem_of_find?_eq_some ha⟩

/-- The end of gates 1 and 2, for an agent that was read last. -/
theorem exitOr_from {a : RegisteredAgent} {decision : RouteDecision} (hdecision : decision.agent = some a) :
    Triple (spec P U) (From P a) (do
      if isExit d.lower (← textOr inp.text) a.spec.routing.exitKeywords then exitToDefault conv.id
      else pure decision) (FromLast P) := by
  apply triple_after (textOr_calls inp.text).within (stable_from a)
  intro text
  apply Triple.branch
  · exact (exitToDefault_from conv.id).mono (fun _ _ => trivial) fun _ _ h => h
  · apply Triple.pure
    intro l hl b hb
    rw [hdecision] at hb
    exact Option.some.inj hb ▸ hl

theorem selectPinned_from : Triple (spec P U) (fun _ => True) (selectPinned d conv inp) (FromLast P) := by
  unfold selectPinned
  apply pinFor_from.bind
  intro pin
  cases pin with
  | none => exact selectFree_from.mono (fun _ _ => trivial) fun _ _ h => h
  | some a => exact (exitOr_from rfl).mono (fun l hl => hl a rfl) fun _ _ h => h

/-- Every agent that the gates choose is of the snapshot that was read last. -/
theorem select_from : Triple (spec P U) (fun _ => True) (select d conv inp) (FromLast P) := by
  unfold select
  cases inp.agentKey with
  | none => exact selectPinned_from
  | some key =>
    apply Triple.branch
    · unfold selectExplicit
      apply triple_snapshot.bind
      intro r
      have hget : Triple (spec P U) (Read P r) (registryGet r key) fun a l => ∀ b, a = some b → From P b l := by
        unfold registryGet
        split
        · exact Triple.pure fun l hl a ha => ⟨r,hl,registry_get_mem ha⟩
        · exact Triple.throw _
        · exact Triple.throw _
        · exact Triple.pure (by simp)
      apply hget.bind
      intro a
      cases a with
      | none => exact Triple.throw _
      | some a =>
        apply Triple.branch
        · exact Triple.throw _
        · exact (exitOr_from rfl).mono (fun l hl => hl a rfl) fun _ _ h => h
    · exact selectPinned_from

end RouterService

namespace RegistryView

variable {P : String → AgentSpec → Prop} {U : Prop} {a : RegisteredAgent} {tenant organization : String}

/-- What a request gets for its scope: the agent of this key in the snapshot that it read last, as long as
that is the current one. -/
structure Served (P : String → AgentSpec → Prop) (U : Prop) (tenant organization key : String)
    (b : RegisteredAgent) (l : RegistryView) : Prop where
  meets : P b.checksum b.spec
  last : ∃ v r, l.last = some (v,r) ∧ v ≤ l.version ∧
    (U → v = l.version → l.registry = r ∧ OfSnapshot r l.rows v tenant organization key b)

theorem stable_served (tenant organization key : String) (b : RegisteredAgent) :
    Stable (Served P U tenant organization key b) := by
  rintro l l' ⟨hP,v,r,hlast,hle,hserved⟩ hm
  have hv := hm.version
  refine ⟨hP,v,r,hm.last.trans hlast,hle.trans hv,fun hU he => ?_⟩
  obtain ⟨hreg,a,ha,hkey,hscope⟩ := hserved hU (by omega)
  exact ⟨(hm.registry (by omega)).trans hreg,a,ha,hkey,InScope.mono hscope hm.rows⟩

/-- The agent, or the agent with a row that was answered since the version. -/
def Asked (version : ℕ) (a : RegisteredAgent) (tenant organization : String) (b : RegisteredAgent)
    (l : RegistryView) : Prop :=
  b = a ∨ ∃ version' checksum spec, version ≤ version' ∧ version' ≤ l.version ∧
    ⟨version',a.id,tenant,organization,checksum,spec⟩ ∈ l.rows ∧
      b = { a with checksum := checksum, spec := spec }

/-- Between the lookup of an agent that was not there and its store. -/
structure Missed (P : String → AgentSpec → Prop) (U : Prop) (version : ℕ) (a : RegisteredAgent)
    (l : RegistryView) : Prop where
  meets : P a.checksum a.spec
  last : ∃ v r, l.last = some (v,r) ∧ v ≤ version ∧ (v = l.version → l.registry = r) ∧ a ∈ r.snapshot
  past : version ≤ l.version
  current : U → version = l.version → a ∈ l.registry.snapshot

theorem stable_missed (version : ℕ) (a : RegisteredAgent) : Stable (Missed P U version a) := by
  intro l l' h hm
  obtain ⟨v,r,hlast,hle,hreg,ha⟩ := h.last
  have hv := hm.version
  have hp := h.past
  refine ⟨h.meets,⟨v,r,hm.last.trans hlast,hle,fun he => ?_,ha⟩,hp.trans hv,fun hU he => ?_⟩
  · rw [hm.registry (by omega),hreg (by omega)]
  · rw [hm.registry (by omega)]
    exact h.current hU (by omega)

theorem stable_asked (version : ℕ) (a : RegisteredAgent) (tenant organization : String)
    (b : RegisteredAgent) : Stable (Asked version a tenant organization b) := by
  rintro l l' (rfl | ⟨version',checksum,sp,hle,hle',hrow,rfl⟩) hm
  · exact .inl rfl
  · exact .inr ⟨version',checksum,sp,hle,hle'.trans hm.version,hm.rows hrow,rfl⟩

theorem Asked.inScope {version : ℕ} {b : RegisteredAgent} {l : RegistryView}
    (h : Asked version a tenant organization b l) (hv : l.version ≤ version) :
    InScope l.rows version tenant organization a b := by
  rcases h with rfl | ⟨version',checksum,sp,hle,hle',hrow,rfl⟩
  · exact .inl rfl
  · obtain rfl : version' = version := by omega
    exact .inr ⟨checksum,sp,hrow,rfl⟩

theorem Asked.key {version : ℕ} {b : RegisteredAgent} {l : RegistryView}
    (h : Asked version a tenant organization b l) : b.key = a.key := by
  rcases h with rfl | ⟨version',checksum,sp,hle,hle',hrow,rfl⟩
  · rfl
  · rfl

/-- An agent that was asked for is what the request gets. -/
theorem Missed.served {version : ℕ} {b : RegisteredAgent} {l : RegistryView} (hm : Missed P U version a l)
    (h : Asked version a tenant organization b l) (hb : P b.checksum b.spec) :
    Served P U tenant organization a.key b l := by
  obtain ⟨v,r,hlast,hle,hreg,ha⟩ := hm.last
  have hpast := hm.past
  refine ⟨hb,v,r,hlast,hle.trans hpast,fun _ he => ⟨hreg he,a,ha,rfl,?_⟩⟩
  obtain rfl : v = version := by omega
  exact h.inScope he.ge

/-- An agent that was asked for may be kept. -/
theorem Missed.current_asked {version : ℕ} {b : RegisteredAgent} {l : RegistryView}
    (hm : Missed P U version a l) (h : Asked version a tenant organization b l) :
    l.Current U version tenant organization b.key b :=
  fun hU he => ⟨a,hm.current hU he,h.key.symm,h.inScope he.ge⟩

/-- Without a resolution the request gets the agent that it chose. -/
theorem From.served {l : RegistryView} (h : From P a l) : Served P U tenant organization a.key a l := by
  obtain ⟨r,⟨hP,v,hlast,hle,hreg⟩,ha⟩ := h
  exact ⟨hP a ha,v,r,hlast,hle,fun _ he => ⟨hreg he,a,ha,rfl,.inl rfl⟩⟩

/-- A hit is of the current snapshot. -/
theorem From.served_cached {b : RegisteredAgent} {l : RegistryView} (h : From P a l)
    (hP : P b.checksum b.spec) (hb : l.Current U l.version tenant organization a.key b) :
    Served P U tenant organization a.key b l := by
  obtain ⟨r,⟨-,v,hlast,hle,hreg⟩,-⟩ := h
  refine ⟨hP,v,r,hlast,hle,fun hU he => ⟨hreg he,?_⟩⟩
  rw [he,← hreg he]
  exact hb hU rfl

/-- A miss, with an agent that is still there. -/
theorem From.missed {l : RegistryView} (h : From P a l) (hs : U → l.Settled a.key) :
    Missed P U l.version a l := by
  obtain ⟨r,⟨hP,v,hlast,hle,hreg⟩,ha⟩ := h
  exact ⟨hP a ha,⟨v,r,hlast,hle,hreg,ha⟩,le_refl _,fun hU _ => hs hU v r hlast a ha rfl⟩

end RegistryView

namespace AgentRegistry

open RegistryView

variable {P : String → AgentSpec → Prop} {U : Prop} {a : RegisteredAgent} {tenant organization : String}
variable {A : RegistryView → Prop}

/-- The row on record for the scope, where the lookup found nothing. -/
theorem triple_scopedAgent (version : ℕ) (hA : Stable A) :
    Triple (RegistryView.spec P U) (fun l => Missed P U version a l ∧ A l)
      (scopedAgent a tenant organization).attempt fun r l => (Missed P U version a l ∧ A l) ∧
        ∀ b, r = .ok b → Asked version a tenant organization b l ∧ P b.checksum b.spec := by
  have hstable : Stable fun l => Missed P U version a l ∧ A l := by
    intro l l' h hm
    exact ⟨stable_missed version a _ _ h.1 hm,hA _ _ h.2 hm⟩
  intro l hl
  refine wp_attempt.mpr ?_
  unfold scopedAgent stmt
  refine wp_bind.mpr (wp_perform.mpr fun l₁ hm => ⟨trivial,fun r l₂ h₂ => ?_⟩)
  have h₁ := hstable _ _ hl hm
  have hm₂ := hstable _ _ h₁ (post_stmt h₂)
  rcases r with e | - | ⟨checksum,- | sp⟩
  · rintro r ⟨⟩
    exact ⟨hm₂,by simp⟩
  · rintro r ⟨⟩
    refine ⟨hm₂,?_⟩
    rintro b ⟨⟩
    exact ⟨.inl rfl,h₁.1.meets⟩
  · rintro r ⟨⟩
    exact ⟨hm₂,by simp⟩
  · rintro r ⟨⟩
    obtain ⟨rfl,hP⟩ : l₂ = { l₁ with rows := l₁.rows ++
        [⟨l₁.version,a.id,tenant,organization,checksum,sp⟩] } ∧ P checksum sp := h₂
    refine ⟨hm₂,?_⟩
    rintro b ⟨⟩
    exact ⟨.inr ⟨l₁.version,checksum,sp,h₁.1.past,le_refl _,List.mem_append_right _ (by simp),rfl⟩,hP⟩

/-- The resolution serves an agent of the snapshot that was read last, and keeps what survives the others. -/
theorem triple_resolveForScope (hA : Stable A) :
    Triple (RegistryView.spec P U) (fun l => From P a l ∧ A l) (resolveForScope a tenant organization)
      fun b l => Served P U tenant organization a.key b l ∧ A l := by
  unfold resolveForScope
  apply Triple.branch
  · exact Triple.pure fun l hl => ⟨hl.1.served,hl.2⟩
  · have hlookup : Triple (RegistryView.spec P U) (fun l => From P a l ∧ A l)
        (perform (Op.scopeLookup tenant organization a.key)) fun v l => A l ∧
          (∀ b, v.2 = some b → Served P U tenant organization a.key b l) ∧
          (v.2 = none → Missed P U v.1 a l) := by
      apply Triple.perform
      rintro l ⟨hfrom,hl⟩ l₁ hm
      refine ⟨trivial,?_⟩
      rintro v l₂ ⟨rfl,cached,hv,hhit,hmiss⟩
      obtain rfl := Except.ok.inj hv
      have hfrom₁ := stable_from a _ _ hfrom hm
      refine ⟨hA _ _ hl hm,fun b hb => ?_,fun hn => From.missed hfrom₁ (hmiss hn)⟩
      obtain ⟨hP,hcurrent⟩ := hhit b hb
      exact From.served_cached hfrom₁ hP hcurrent
    apply hlookup.bind
    intro ⟨version,cached⟩
    cases cached with
    | some b => exact Triple.pure fun l hl => ⟨hl.2.1 b rfl,hl.1⟩
    | none =>
      refine Triple.mono (A := fun l => Missed P U version a l ∧ A l) ?_
        (fun l hl => ⟨hl.2.2 rfl,hl.1⟩) fun _ _ h => h
      apply (triple_scopedAgent version hA).bind
      intro r
      cases r with
      | error e => exact Triple.pure fun l hl => ⟨hl.1.1.served (.inl rfl) hl.1.1.meets,hl.1.2⟩
      | ok b =>
        have hstore : Triple (RegistryView.spec P U) (fun l => (Missed P U version a l ∧ A l) ∧
            ∀ b', Except.ok (ε := Exn) b = .ok b' → Asked version a tenant organization b' l ∧
              P b'.checksum b'.spec)
            (perform (Op.scopeStore version tenant organization b)) fun _ l =>
              Served P U tenant organization a.key b l ∧ A l := by
          apply Triple.perform
          rintro l ⟨⟨hmissed,hl⟩,hasked⟩ l₁ hm
          obtain ⟨hasked,hP⟩ := hasked b rfl
          have hmissed₁ := stable_missed version a _ _ hmissed hm
          have hasked₁ := stable_asked version a _ _ b _ _ hasked hm
          refine ⟨⟨hP,hmissed₁.past,hmissed₁.current_asked hasked₁⟩,?_⟩
          rintro _ l₂ rfl
          exact ⟨hmissed₁.served hasked₁ hP,hA _ _ hl hm⟩
        apply hstore.bind
        intro _
        exact Triple.pure fun l hl => hl

end AgentRegistry

/-- What a request ends with. -/
def HandedOver (P : String → AgentSpec → Prop) (U : Prop) (handed : Option Handed) (l : RegistryView) : Prop :=
  ∀ h, handed = some h → RegistryView.Served P U h.tenant h.organization h.key h.agent l

section Requests

open RegistryView RouterService

variable {P : String → AgentSpec → Prop} {U : Prop} {d : Deployment}

theorem triple_routerHistory (conv : Conversation) :
    Triple (RegistryView.spec P U) (fun _ => True) (OrchestrationService.routerHistory conv)
      fun _ _ => True := by
  unfold OrchestrationService.routerHistory
  apply triple_snapshot.bind
  intro r
  cases r.default with
  | none => exact Triple.pure fun _ _ => trivial
  | some a =>
    have hrecent : Triple (RegistryView.spec P U) (fun _ => True)
        (MessageRepository.recent conv.id a.spec.historyTurns) fun _ _ => True :=
      Triple.of_keeps (keeps_statements ((MessageRepository.recent_calls ..).within.mono (by decide)) stable_true)
    exact hrecent.mono (fun _ _ => trivial) fun _ _ h => h

theorem triple_turn (conv : Conversation) (inp : TurnInput) :
    Triple (RegistryView.spec P U) (fun _ => True) (RoutingReq.prog d (.turn conv inp)) (HandedOver P U) := by
  have hroute : Triple (RegistryView.spec P U) (fun _ => True) (OrchestrationService.routeTurn d inp conv)
      fun v l => ∃ chosen, v.1.agent = some chosen ∧
        Served P U (tenantOf (some inp.user)) (organizationOf (some inp.user)) chosen.key v.2 l := by
    unfold OrchestrationService.routeTurn
    apply (triple_routerHistory conv).bind
    intro _
    apply select_from.bind
    intro decision
    cases hagent : decision.agent with
    | none => exact Triple.throw _
    | some chosen =>
      have hresolve : Triple (RegistryView.spec P U) (fun l => From P chosen l ∧ True)
          (AgentRegistry.resolveForScope chosen (tenantOf (some inp.user)) (organizationOf (some inp.user)))
          fun b l => Served P U (tenantOf (some inp.user)) (organizationOf (some inp.user)) chosen.key b l ∧
            True :=
        AgentRegistry.triple_resolveForScope stable_true
      apply (hresolve.mono (fun l hl => ⟨hl chosen hagent,trivial⟩) fun _ _ h => h).bind
      intro b
      exact Triple.pure fun l hl => ⟨chosen,hagent,hl.1⟩
  unfold RoutingReq.prog
  apply hroute.bind
  intro v
  apply Triple.pure
  rintro l ⟨chosen,hagent,hserved⟩ h hh
  rw [hagent] at hh
  obtain rfl := Option.some.inj hh
  exact hserved

theorem triple_visibleIn (user : Option UserContext) (regs : List RegisteredAgent) :
    Triple (RegistryView.spec P U) (fun l => ∀ a ∈ regs, From P a l) (AgentRoutes.visibleIn user regs)
      fun _ _ => True := by
  induction regs with
  | nil => exact Triple.pure fun _ _ => trivial
  | cons a regs ih =>
    have hrest : Stable fun l => ∀ b ∈ regs, From P b l := by
      intro l l' h hm b hb
      exact stable_from b _ _ (h b hb) hm
    have hresolve : Triple (RegistryView.spec P U) (fun l => From P a l ∧ ∀ b ∈ regs, From P b l)
        (AgentRegistry.resolveForScope a (tenantOf user) (organizationOf user))
        fun b l => Served P U (tenantOf user) (organizationOf user) a.key b l ∧ ∀ b ∈ regs, From P b l :=
      AgentRegistry.triple_resolveForScope hrest
    apply (hresolve.mono (fun l hl => ⟨hl a List.mem_cons_self,fun b hb => hl b (List.mem_cons_of_mem a hb)⟩)
      fun _ _ h => h).bind
    intro seen
    apply (ih.mono (fun l hl => hl.2) fun _ _ h => h).bind
    intro rest
    exact Triple.pure fun _ _ => trivial

theorem triple_agents (user : Option UserContext) :
    Triple (RegistryView.spec P U) (fun _ => True) (RoutingReq.prog d (.agents user)) (HandedOver P U) := by
  have hlist : Triple (RegistryView.spec P U) (fun _ => True) (AgentRoutes.getAgents user)
      fun _ _ => True := by
    unfold AgentRoutes.getAgents
    apply triple_snapshot.bind
    intro r
    apply ((triple_visibleIn user _).mono (fun l hl a ha => ?_) fun _ _ h => h).bind
    · intro visible
      exact Triple.pure fun _ _ => trivial
    · rw [List.mem_insertionSort] at ha
      exact ⟨r,hl,List.mem_of_mem_filter ha⟩
  unfold RoutingReq.prog
  apply hlist.bind
  intro _
  apply Triple.pure
  intro l _ h hh
  cases hh

end Requests

/-- The agent and the scope of a query for a scope's row. -/
def Op.scoped : Op → Option (AgentId × String × String)
  | .stmt (.scopedConfig agent tenant organization) => some (agent,tenant,organization)
  | _ => none

/-- Reloads and rows bring configurations that satisfy `P`. -/
def Brings (P : String → AgentSpec → Prop) (c : RoutingConfig) :
    Interleaving.Act Conn RoutingReq Choice World.EnvAct → Prop
  | .env (.reload r) => ∀ a ∈ r.snapshot, P a.checksum a.spec
  | .call x (.db (.go pick)) => ∀ q ∈ (c.nextCall x).bind Op.scoped,
      ∀ checksum spec, pick.config = some (checksum,some spec) → P checksum spec
  | _ => True

theorem brings_any (c : RoutingConfig) (a : Interleaving.Act Conn RoutingReq Choice World.EnvAct) :
    Brings (fun _ _ => True) c a := by
  unfold Brings
  split
  · exact fun _ _ => trivial
  · exact fun _ _ _ _ _ => trivial
  · trivial

namespace ScopeCache

open RegistryView

variable {P : String → AgentSpec → Prop} {U : Prop} {d : Deployment} {w w' : World × Reads} {x : Conn}

abbrev Entry := (ℕ × String × String × String) × RegisteredAgent

/-- The entry is not of a version to come, and of the current snapshot if it is under the current version. -/
structure Filed (P : String → AgentSpec → Prop) (U : Prop) (w : World × Reads) (e : Entry) : Prop where
  meets : P e.2.checksum e.2.spec
  past : e.1.1 ≤ w.1.registryVersion
  current : U → e.1.1 = w.1.registryVersion →
    OfSnapshot w.1.registry w.2.rows e.1.1 e.1.2.1 e.1.2.2.1 e.1.2.2.2 e.2

/-- What the registry and its cache hold. -/
structure Kept (P : String → AgentSpec → Prop) (U : Prop) (w : World × Reads) : Prop where
  registry : ∀ a ∈ w.1.registry.snapshot, P a.checksum a.spec
  cache : ∀ e ∈ w.1.scopeCache, Filed P U w e

def view (w : World × Reads) (x : Conn) : RegistryView :=
  ⟨w.1.registryVersion,w.1.registry,w.2.rows,w.2.last x⟩

/-- What every request sees of a step. -/
structure Onward (w w' : World × Reads) : Prop where
  version : w.1.registryVersion ≤ w'.1.registryVersion
  registry : w'.1.registryVersion = w.1.registryVersion → w'.1.registry = w.1.registry
  rows : w.2.rows ⊆ w'.2.rows

theorem Onward.moves {y : Conn} (h : Onward w w') (hlast : w'.2.last y = w.2.last y) :
    Moves (view w y) (view w' y) := ⟨hlast,h.version,h.registry,h.rows⟩

theorem Filed.onward {e : Entry} (h : Filed P U w e) (hw : Onward w w') : Filed P U w' e := by
  have hv := hw.version
  have hle := h.past
  refine ⟨h.meets,hle.trans hv,fun hU he => ?_⟩
  obtain ⟨a,ha,hkey,hscope⟩ := h.current hU (by omega)
  rw [OfSnapshot,hw.registry (by omega)]
  exact ⟨a,ha,hkey,InScope.mono hscope hw.rows⟩

/-- A reload, which leaves every entry behind. -/
theorem kept_reload {r : AgentRegistry} (h : Kept P U w) (hr : ∀ a ∈ r.snapshot, P a.checksum a.spec) :
    Kept P U ({ w.1 with registry := r, registryVersion := w.1.registryVersion + 1 },w.2) := by
  refine ⟨hr,fun e he => ⟨(h.cache e he).meets,?_,fun hU hv => ?_⟩⟩
  · exact (h.cache e he).past.trans (Nat.le_succ _)
  · have hpast := (h.cache e he).past
    have hv' : e.1.1 = w.1.registryVersion + 1 := hv
    omega

/-- A step that leaves the registry alone, and may empty the cache or add to it. -/
theorem kept_of_cache (h : Kept P U w) (hw : Onward w w') (hregistry : w'.1.registry = w.1.registry)
    (hcache : ∀ e ∈ w'.1.scopeCache, e ∈ w.1.scopeCache ∨ Filed P U w' e) : Kept P U w' := by
  refine ⟨hregistry ▸ h.registry,fun e he => ?_⟩
  rcases hcache e he with hold | hnew
  · exact (h.cache e hold).onward hw
  · exact hnew

/-- What happens on its own. -/
theorem env_registry {v v' : World} {e : World.EnvAct} (h : v.env d e = some v') :
    (∃ r, e = .reload r ∧ v' = { v with registry := r, registryVersion := v.registryVersion + 1 }) ∨
      v'.registry = v.registry ∧ v'.registryVersion = v.registryVersion ∧ v'.scopeCache = v.scopeCache := by
  have hclose : ∀ (es : List PoolEntry) (v : World),
      (es.foldl (fun v e => v.closeChannel e.channel) v).registry = v.registry ∧
        (es.foldl (fun v e => v.closeChannel e.channel) v).registryVersion = v.registryVersion ∧
          (es.foldl (fun v e => v.closeChannel e.channel) v).scopeCache = v.scopeCache := by
    intro es
    induction es with
    | nil => exact fun v => ⟨rfl,rfl,rfl⟩
    | cons e es ih => exact fun v => ih (v.closeChannel e.channel)
  cases e with
  | reload r =>
    obtain rfl := Option.some.inj h
    exact .inl ⟨r,rfl,rfl⟩
  | reap now =>
    obtain rfl := Option.some.inj h
    exact .inr (hclose _ _)
  | closeAll =>
    obtain rfl := Option.some.inj h
    exact .inr (hclose _ _)
  | reader i a =>
    simp only [World.env] at h
    split at h
    · split at h
      · split at h
        · obtain rfl := Option.some.inj h
          exact .inr ⟨rfl,rfl,rfl⟩
        · cases h
      · cases h
    · cases h

/-- What a call leaves behind. -/
structure Carried (P : String → AgentSpec → Prop) (U : Prop) (w : World × Reads) (x : Conn) (o : Op)
    (r : Except Exn o.Ans) (w' : World × Reads) : Prop where
  kept : Kept P U w'
  post : (RegistryView.spec P U).post o (view w x) r (view w' x)
  onward : Onward w w'
  last : ∀ y, y ≠ x → w'.2.last y = w.2.last y

/-- A call that leaves the registry, its cache and the notes alone. -/
theorem carried_of_same {o : Op} {r : Except Exn o.Ans} (h : Kept P U w) (hreads : w'.2 = w.2)
    (hregistry : w'.1.registry = w.1.registry) (hversion : w'.1.registryVersion = w.1.registryVersion)
    (hcache : w'.1.scopeCache = w.1.scopeCache)
    (hpost : (RegistryView.spec P U).post o (view w x) r (view w x)) : Carried P U w x o r w' := by
  have hview : view w' x = view w x := by simp [view,hreads,hregistry,hversion]
  have honward : Onward w w' := ⟨hversion.ge,fun _ => hregistry,fun row hrow => hreads ▸ hrow⟩
  refine ⟨kept_of_cache h honward hregistry fun e he => .inl (hcache ▸ he),hview ▸ hpost,honward,?_⟩
  intro y _
  rw [hreads]

/-- The row that a query for a scope's row answers with. -/
theorem scoped_answer {v v' : World} {ch : Choice} {agent : AgentId} {tenant organization : String}
    {row : Option (String × Option AgentSpec)}
    (he : v.exec d x (.stmt (.scopedConfig agent tenant organization)) ch = some (.ok row,v')) :
    ∃ pick, ch = .db (.go pick) ∧ pick.config = row := by
  obtain ⟨pick,hch,-,heffect⟩ := World.effect_of_exec he
  exact ⟨pick,hch,(Prod.mk.inj (ReadCommitted.Effect.ok.inj heffect)).1⟩

theorem carried_stmt {st : Stmt} {ch : Choice} {r : Except Exn st.Ans} (h : Kept P U w)
    (hbrings : ∀ pick, ch = .db (.go pick) → ∀ q ∈ Op.scoped (.stmt st),
      ∀ checksum spec, pick.config = some (checksum,some spec) → P checksum spec)
    (he : (notedRouting d).exec w x (.stmt st) ch = some (r,w')) : Carried P U w x (.stmt st) r w' := by
  obtain ⟨hex,hreads⟩ := exec_noting he
  obtain ⟨done,w₁,hp,hw⟩ := World.exec_eq hex
  obtain ⟨c,db,hdb,-,rfl⟩ := World.onDb_eq hp
  have hregistry : w'.1.registry = w.1.registry := by rw [hw]; rfl
  have hversion : w'.1.registryVersion = w.1.registryVersion := by rw [hw]; rfl
  have hcache : w'.1.scopeCache = w.1.scopeCache := by rw [hw]; rfl
  cases st with
  | scopedConfig agent tenant organization =>
    rcases r with e | - | ⟨checksum,- | sp⟩
    · exact carried_of_same h hreads hregistry hversion hcache rfl
    · exact carried_of_same h hreads hregistry hversion hcache rfl
    · exact carried_of_same h hreads hregistry hversion hcache rfl
    · have hrows : w'.2 = { w.2 with rows := w.2.rows ++
          [⟨w.1.registryVersion,agent,tenant,organization,checksum,sp⟩] } := hreads
      have hP : P checksum sp := by
        obtain ⟨pick,rfl,hpick⟩ := scoped_answer hex
        exact hbrings pick rfl _ rfl checksum sp hpick
      have honward : Onward w w' :=
        ⟨hversion.ge,fun _ => hregistry,fun row hrow => hrows ▸ List.mem_append_left _ hrow⟩
      refine ⟨kept_of_cache h honward hregistry fun e he => .inl (hcache ▸ he),⟨?_,hP⟩,honward,?_⟩
      · simp [view,hrows,hregistry,hversion]
      · intro y _
        rw [hrows]
  | _ => exact carried_of_same h hreads hregistry hversion hcache rfl

/-- What the lookup finds. -/
theorem looked_up {tenant organization key : String} {b : RegisteredAgent} (h : Kept P U w)
    (hb : (w.1.scopeLookup tenant organization key).2 = some b) : P b.checksum b.spec ∧
      (view w x).Current U w.1.registryVersion tenant organization key b := by
  obtain ⟨e,he,rfl⟩ := Option.map_eq_some_iff.mp hb
  have hfiled := h.cache e (List.mem_of_find?_eq_some he)
  have hkey : e.1 = (w.1.registryVersion,tenant,organization,key) := by
    simpa using List.find?_some he
  refine ⟨hfiled.meets,fun hU _ => ?_⟩
  have hcurrent := hfiled.current hU (by rw [hkey])
  rw [hkey] at hcurrent
  exact hcurrent

/-- A step of these requests, with what is assumed of it. -/
theorem carried {c : RoutingConfig} {o : Op} {k : Except Exn o.Ans → Proc (Option Handed)} {ch : Choice}
    {r : Except Exn o.Ans} (h : Kept P U c.world) (hx : c.procs x = some (.call o k))
    (hbrings : Brings P c (.call x ch)) (hraced : U → Unraced c (.call x ch))
    (hpre : (RegistryView.spec P U).pre o (view c.world x))
    (he : (notedRouting d).exec c.world x o ch = some (r,w')) : Carried P U c.world x o r w' := by
  obtain ⟨hex,hreads⟩ := exec_noting he
  obtain ⟨done,w₁,hp,hw⟩ := World.exec_eq hex
  have hnext := Config.nextCall_eq hx
  cases o with
  | stmt st =>
    refine carried_stmt h ?_ he
    rintro pick rfl q hq
    exact hbrings q (by simpa [hnext] using hq)
  | snapshot =>
    obtain ⟨rfl,-,rfl⟩ := World.settled_eq hp
    have hregistry : w'.1.registry = c.world.1.registry := by rw [hw]; rfl
    have hversion : w'.1.registryVersion = c.world.1.registryVersion := by rw [hw]; rfl
    have hcache : w'.1.scopeCache = c.world.1.scopeCache := by rw [hw]; rfl
    have hnotes : w'.2 = ⟨Function.update c.world.2.last x
        (some (c.world.1.registryVersion,c.world.1.registry)),c.world.2.rows⟩ := hreads
    have honward : Onward c.world w' := ⟨hversion.ge,fun _ => hregistry,fun row hrow => hnotes ▸ hrow⟩
    refine ⟨kept_of_cache h honward hregistry fun e he => .inl (hcache ▸ he),⟨rfl,?_,h.registry⟩,honward,?_⟩
    · simp [view,hnotes,hregistry,hversion]
    · intro y hy
      rw [hnotes]
      exact Function.update_of_ne hy ..
  | routerModel conversation =>
    obtain rfl := World.remote_eq hp
    exact carried_of_same h hreads (by rw [hw]; rfl) (by rw [hw]; rfl) (by rw [hw]; rfl) rfl
  | scopeLookup tenant organization key =>
    obtain ⟨rfl,-,rfl⟩ := World.settled_eq hp
    refine carried_of_same h hreads (by rw [hw]; rfl) (by rw [hw]; rfl) (by rw [hw]; rfl) ⟨rfl,_,rfl,?_,?_⟩
    · exact fun b hb => looked_up h hb
    · intro hmiss hU v r hlast a ha hkey
      rcases hraced hU (tenant,organization,key) (by simp [hnext,Op.lookup]) with hhit | hthere
      · have hnone : (c.world.1.scopeLookup tenant organization key).2 = none := hmiss
        rw [hnone] at hhit
        cases hhit
      · exact hthere (v,r) hlast a ha hkey
  | scopeStore version tenant organization b =>
    obtain ⟨rfl,-,rfl⟩ := World.settled_eq hp
    obtain ⟨hP,hpast,hcurrent⟩ := hpre
    have hregistry : w'.1.registry = c.world.1.registry := by rw [hw]; rfl
    have hversion : w'.1.registryVersion = c.world.1.registryVersion := by rw [hw]; rfl
    have hnotes : w'.2 = c.world.2 := hreads
    have honward : Onward c.world w' := ⟨hversion.ge,fun _ => hregistry,fun row hrow => hnotes ▸ hrow⟩
    have hnew : Filed P U c.world ((version,tenant,organization,b.key),b) := ⟨hP,hpast,hcurrent⟩
    have hcache : w'.1.scopeCache = ((version,tenant,organization,b.key),b) ::
        if 512 ≤ c.world.1.scopeCache.length then [] else c.world.1.scopeCache := by rw [hw]; rfl
    refine ⟨kept_of_cache h honward hregistry fun e he => ?_,?_,honward,fun y _ => by rw [hnotes]⟩
    · rw [hcache,List.mem_cons] at he
      rcases he with rfl | he
      · exact .inr (hnew.onward honward)
      · split at he
        · cases he
        · exact .inl he
    · change view w' x = view c.world x
      simp [view,hnotes,hregistry,hversion]
  | _ => exact hpre.elim

/-- The runs that the outline is about. -/
def Permitted (P : String → AgentSpec → Prop) (U : Prop) (c : RoutingConfig)
    (a : Interleaving.Act Conn RoutingReq Choice World.EnvAct) : Prop :=
  Brings P c a ∧ (U → Unraced c a)

/-- Every request is verified against every other and against the reloads. -/
def outline (P : String → AgentSpec → Prop) (U : Prop) (d : Deployment) :
    Outline (notedRouting d) (Permitted P U) RegistryView where
  loc := view
  spec _ := RegistryView.spec P U
  G := Kept P U
  Free _ _ := True
  Q _ r l := ∀ handed, r = .ok handed → HandedOver P U handed l
  rely_refl _ l := .refl l
  rely_trans _ _ _ _ h₁ h₂ := h₁.trans h₂
  free_rely _ _ _ _ _ := trivial
  free_end _ _ _ _ := trivial
  begin_ok c x req hG _ _ := by
    refine ⟨hG,?_,fun y _ => .refl _⟩
    cases req with
    | turn conv inp => exact triple_turn conv inp _ trivial
    | agents user => exact triple_agents (d := d) user _ trivial
  exec_ok c x o k ch r w hG hx hok hpre he := by
    have hcarried := carried hG hx hok.1 hok.2 hpre he
    exact ⟨hcarried.kept,hcarried.post,fun y hy => hcarried.onward.moves (hcarried.last y hy)⟩
  env_ok c e w hG hok he := by
    obtain ⟨henv,hreads⟩ := env_noting he
    obtain ⟨v,reads⟩ := w
    obtain rfl : reads = c.world.2 := hreads
    rcases env_registry henv with ⟨r,rfl,hv⟩ | ⟨hregistry,hversion,hcache⟩
    · obtain rfl : v = _ := hv
      refine ⟨kept_reload hG hok.1,fun y => ⟨rfl,Nat.le_succ _,fun he => ?_,fun _ h => h⟩⟩
      exact absurd he (Nat.succ_ne_self _)
    · have honward : Onward c.world (v,c.world.2) := ⟨hversion.ge,fun _ => hregistry,fun _ h => h⟩
      exact ⟨kept_of_cache hG honward hregistry fun e he => .inl (hcache ▸ he),fun y => honward.moves rfl⟩

/-- What a run of these requests comes to. -/
theorem handedOver_of_reach {w : World × Reads} {c : RoutingConfig} (hcache : w.1.scopeCache = [])
    (hregistry : ∀ a ∈ w.1.registry.snapshot, P a.checksum a.spec)
    (h : Reach (step (notedRouting d)) (Permitted P U) (idle w) c) : Kept P U c.world ∧
      ∀ x handed, c.procs x = some (.done (some handed)) →
        Served P U handed.tenant handed.organization handed.key handed.agent (view c.world x) := by
  have hkept : Kept P U w := ⟨hregistry,by simp [hcache]⟩
  have hinv := (outline P U d).inv_of_reach h hkept fun _ => trivial
  refine ⟨hinv.1,fun x handed hx => ?_⟩
  obtain ⟨l,hl,hwp⟩ : (outline P U d).Running c.world x (some (.done (some handed))) := hx ▸ hinv.2 x
  exact stable_served _ _ _ _ _ _ (hwp (some handed) rfl handed rfl) hl

end ScopeCache

open ScopeCache

namespace ScopeCache

/-- The agent as the tables had it, and as they have it now. -/
def agent (checksum : String) : RegisteredAgent where
  id := 1
  key := "assistant"
  name := "Saarthi"
  checksum := checksum
  spec := { key := "assistant", kind := .llm "model" }

def world : World × Reads := ({ Sample.world with registry := ⟨[agent "old"]⟩ },{})

/-- A turn that names the agent. -/
def turn (c : ConversationId) : RoutingReq :=
  .turn { id := c, tenantCode := "acme", externalUserId := "user", createdAt := 0 } {
    conversationId := some c
    user := { userId := "user", tenantCode := "acme" }
    text := .str "hello"
    agentKey := some (.str "assistant") }

/-- The tenant has no row of its own. -/
def answer (w : World × Reads) (o : Op) : Choice := Sample.smooth w.1 o

abbrev Cues := List (Cue (World × Reads) Conn RoutingReq Choice World.EnvAct Op)

/-- One turn is served, and then the other. -/
def inTurn : Cues := [.act (.start 0 (turn 1)),.serve 0 answer 9,.act (.start 1 (turn 2)),.serve 1 answer 9]

/-- The first turn chooses its agent, the registry reloads, and the turn goes on. -/
def raced : Cues := [.act (.start 0 (turn 1)),.serve 0 answer 2,.act (.env (.reload ⟨[agent "new"]⟩)),
  .serve 0 answer 9,.act (.start 1 (turn 2)),.serve 1 answer 9]

/-- What a turn was handed. -/
def handed (c : RoutingConfig) (x : Conn) : Option Handed :=
  match c.procs x with
  | some (.done (some h)) => some h
  | _ => none

theorem procs_of_handed {c : RoutingConfig} {x : Conn} {h : Handed} (hh : handed c x = some h) :
    c.procs x = some (.done (some h)) := by
  unfold handed at hh
  split at hh
  · rename_i h' hx
    obtain rfl := Option.some.inj hh
    exact hx
  · cases hh

end ScopeCache

end Saarathi
