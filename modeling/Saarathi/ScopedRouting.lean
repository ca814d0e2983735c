import Saarathi.Routes

/-!
# Access control of routing

The gates choose an agent of the snapshot, and its configuration for the caller's
scope is resolved after that. This module says which of the agents that routing
can hand a turn to admit the caller.
-/

namespace Saarathi

open Program Program.Prog

/-- What a request reads while it routes: one snapshot, and what is on record for each scope. -/
structure Answers where
  registry : AgentRegistry
  config : AgentId → String → String → Except Exn (Option (String × Option AgentSpec))
  keys : (registry.snapshot.map (·.key)).Nodup
  ids : (registry.snapshot.map (·.id)).Nodup

/-- `getattr(user, "tenant_code", "") or "default"`. -/
def tenantOf (user : Option UserContext) : String :=
  match user with
  | none => "default"
  | some user => if user.tenantCode = "" then "default" else user.tenantCode

/-- `getattr(user, "active_org_id", None) or "default"`. -/
def organizationOf (user : Option UserContext) : String :=
  match user with
  | none => "default"
  | some user => if user.activeOrgId.getD "" = "" then "default" else user.activeOrgId.getD ""

/-- No agent of the name is there. -/
def Found (e : Exn) : Prop := ∀ key, e ≠ .agentNotFound key

namespace Answers

variable (A : Answers)

/-- The agent with the configuration on record for the scope, where that is valid. -/
def resolved (a : RegisteredAgent) (tenant organization : String) : RegisteredAgent :=
  match A.config a.id tenant organization with
  | .ok (some (checksum,some spec)) => { a with checksum := checksum, spec := spec }
  | _ => a

/-- The agent as a scope sees it: the default tenant is not resolved. -/
def served (a : RegisteredAgent) (tenant organization : String) : RegisteredAgent :=
  if tenant = "" ∨ tenant = "default" then a else A.resolved a tenant organization

/-- The agent as the caller sees it. -/
def inScope (user : Option UserContext) (a : RegisteredAgent) : RegisteredAgent :=
  A.served a (tenantOf user) (organizationOf user)

/-- These answers, and any at all of the other operations, as long as they do not raise what routing
itself raises. A cached agent is one that was resolved before. -/
def spec : Spec Op Op.Ans Exn Unit where
  pre _ _ := True
  post o _ r _ := match o,r with
    | .snapshot,r => r = .ok A.registry
    | .stmt (.scopedConfig agent tenant organization),r => r = A.config agent tenant organization
    | .scopeLookup tenant organization key,r => ∃ version cached, r = .ok (version,cached) ∧
        ∀ b, cached = some b → ∃ a ∈ A.registry.snapshot, a.key = key ∧ b = A.resolved a tenant organization
    | .scopeStore ..,r => r = .ok ()
    | _,r => ∀ e, r = .error e → Found e

/-- One answer for each operation: nothing is cached, no session is open, no message is there. -/
def fixed (routed : Option (Option String × PyFloat)) : (o : Op) → Except Exn o.Ans
  | .snapshot => .ok A.registry
  | .stmt (.scopedConfig agent tenant organization) => A.config agent tenant organization
  | .stmt (.recent ..) => .ok []
  | .stmt (.getOpenForConversation _) => .ok []
  | .scopeLookup .. => .ok (0,none)
  | .scopeStore .. => .ok ()
  | .routerModel _ => .ok routed
  | _ => .error .rejected

variable {A} {E : Exn → Prop}

theorem snapshot_ends : Ends A.spec (fun r => r = A.registry) E snapshot := by
  apply Ends.perform
  intro l l' _
  refine ⟨trivial,?_⟩
  rintro r l'' rfl
  refine ⟨?_,by simp⟩
  rintro a ⟨⟩
  rfl

/-- An operation that nothing is said of. -/
theorem perform_ends {o : Op} (ho : ∀ l r l', A.spec.post o l r l' → ∀ e, r = .error e → Found e) :
    Ends A.spec (fun _ => True) Found (perform o) := by
  apply Ends.perform
  intro l l' _
  refine ⟨trivial,?_⟩
  intro r l'' h
  exact ⟨fun _ _ => trivial,ho l' r l'' h⟩

/-- The resolution always answers, with the agent as the scope sees it. -/
theorem resolveForScope_ends {a : RegisteredAgent} (ha : a ∈ A.registry.snapshot)
    (tenant organization : String) :
    Ends A.spec (fun b => b = A.served a tenant organization) E
      (AgentRegistry.resolveForScope a tenant organization) := by
  unfold AgentRegistry.resolveForScope served
  by_cases ht : tenant = "" ∨ tenant = "default"
  · rw [if_pos ht,if_pos ht]
    exact Ends.pure rfl
  · rw [if_neg ht,if_neg ht]
    refine Ends.bind (P := fun v => ∀ b, v.2 = some b → b = A.resolved a tenant organization) ?_ ?_
    · apply Ends.perform
      intro l l' _
      refine ⟨trivial,?_⟩
      rintro r l'' ⟨version,cached,rfl,hcached⟩
      refine ⟨?_,by simp⟩
      rintro v ⟨⟩ b hb
      obtain ⟨a',ha',hkey,rfl⟩ := hcached b hb
      rw [List.inj_on_of_nodup_map A.keys ha' ha hkey]
    · rintro ⟨version,cached⟩ hcached
      cases cached with
      | some b => exact Ends.pure (hcached b rfl)
      | none =>
        have hquery : Ends A.spec (fun r => r = match A.config a.id tenant organization with
            | .ok none => .ok a
            | .ok (some (_,none)) => .error (.python "ValidationError" "")
            | .ok (some (checksum,some spec)) => .ok { a with checksum := checksum, spec := spec }
            | .error e => .error e) E (AgentRegistry.scopedAgent a tenant organization).attempt := by
          intro l
          refine wp_attempt.mpr ?_
          unfold AgentRegistry.scopedAgent stmt
          refine wp_bind.mpr (wp_perform.mpr ?_)
          intro l' _
          refine ⟨trivial,?_⟩
          rintro r l'' rfl
          cases A.config a.id tenant organization with
          | error e => simp
          | ok v =>
            rcases v with - | ⟨checksum,- | spec⟩ <;> simp
        refine Ends.bind hquery ?_
        rintro r rfl
        unfold resolved
        have hstore : ∀ b, Ends A.spec (fun _ => True) E
            (perform (Op.scopeStore version tenant organization b) : Proc Unit) := by
          intro b
          apply Ends.perform
          intro l l' _
          refine ⟨trivial,?_⟩
          rintro r l'' rfl
          exact ⟨fun _ _ => trivial,by simp⟩
        cases A.config a.id tenant organization with
        | error e => exact Ends.pure rfl
        | ok v =>
          rcases v with - | ⟨checksum,- | spec⟩
          · exact (hstore a).bind fun _ _ => Ends.pure rfl
          · exact Ends.pure rfl
          · exact (hstore _).bind fun _ _ => Ends.pure rfl

end Answers

section Select

open RouterService

variable {A : Answers} {d : Deployment} {conv : Conversation} {inp : TurnInput}

theorem scalarOneOrNone_ends {α : Type} (rows : List α) :
    Ends A.spec (fun _ => True) Found (scalarOneOrNone rows) := by
  rcases rows with - | ⟨a,- | ⟨b,rows⟩⟩
  · exact Ends.pure trivial
  · exact Ends.pure trivial
  · exact Ends.throw (by simp [Found])

theorem getOpen_ends (c : ConversationId) :
    Ends A.spec (fun _ => True) Found (AgentSessionRepository.getOpenForConversation c) :=
  (Answers.perform_ends (o := .stmt (.getOpenForConversation c)) fun _ _ _ h => h).bind
    fun rows _ => scalarOneOrNone_ends rows

theorem unpin_ends (c : ConversationId) :
    Ends A.spec (fun _ => True) Found (ConversationRepository.unpin c) :=
  Answers.perform_ends fun _ _ _ h => h

theorem abandon_ends (c : ConversationId) (reason actor : String) :
    Ends A.spec (fun _ => True) Found (SessionService.abandon c reason actor) := by
  unfold SessionService.abandon
  apply (getOpen_ends c).bind
  intro session _
  cases session with
  | none => exact Ends.pure trivial
  | some session =>
    have hrow : Ends A.spec (fun _ => True) Found (AgentSessionRepository.abandonOpenSession c reason) :=
      (Answers.perform_ends (o := .stmt (.abandonOpenSession c reason)) fun _ _ _ h => h).bind
        fun rows _ => scalarOneOrNone_ends rows
    apply hrow.bind
    intro updated _
    cases updated with
    | none => exact Ends.throw (by simp [Found])
    | some updated =>
      apply (unpin_ends c).bind
      intro _ _
      have haudit : Ends A.spec (fun _ => True) Found
          (stmt (.auditInsert "session_abandon" updated.id actor reason)) :=
        Answers.perform_ends fun _ _ _ h => h
      exact haudit.bind fun _ _ => Ends.pure trivial

theorem textOr_ends (j : Json) : Ends A.spec (fun _ => True) Found (textOr j) := by
  unfold textOr
  split
  · exact Ends.pure trivial
  · split
    · exact Ends.throw (by simp [Found])
    · exact Ends.pure trivial

theorem textOnly_ends (j : Json) : Ends A.spec (fun _ => True) Found (textOnly j) := by
  unfold textOnly
  split
  · exact Ends.pure trivial
  · exact Ends.throw (by simp [Found])

/-- The agent of the decision, if it has one, is one of the snapshot's. -/
def FromSnapshot (A : Answers) (decision : RouteDecision) : Prop :=
  ∀ a, decision.agent = some a → a ∈ A.registry.snapshot

theorem default_fromSnapshot {a : RegisteredAgent} (h : A.registry.default = some a) :
    a ∈ A.registry.snapshot := List.mem_of_find?_eq_some h

theorem exitToDefault_ends (c : ConversationId) :
    Ends A.spec (FromSnapshot A) Found (exitToDefault c) := by
  unfold exitToDefault
  apply (abandon_ends c _ _).bind
  intro _ _
  apply (unpin_ends c).bind
  intro _ _
  apply Answers.snapshot_ends.bind
  rintro r rfl
  exact Ends.pure fun a ha => default_fromSnapshot ha

theorem pinFor_ends :
    Ends A.spec (fun a => ∀ b, a = some b → b ∈ A.registry.snapshot) Found (pinFor conv) := by
  unfold pinFor
  have hget : ∀ id b, A.registry.getById id = some b → b ∈ A.registry.snapshot :=
    fun id b h => List.mem_of_find?_eq_some h
  refine Ends.bind (P := fun a => ∀ b, a = some b → b ∈ A.registry.snapshot) ?_ ?_
  · cases conv.pinnedAgentId with
    | none => exact Ends.pure (by simp)
    | some id =>
      apply Answers.snapshot_ends.bind
      rintro r rfl
      exact Ends.pure (hget id)
  · intro pinned hpinned
    cases pinned with
    | some a => exact Ends.pure hpinned
    | none =>
      apply (getOpen_ends conv.id).bind
      intro session _
      cases session with
      | none => exact Ends.pure (by simp)
      | some session =>
        apply Answers.snapshot_ends.bind
        rintro r rfl
        exact Ends.pure (hget session.agentId)

theorem maxPriority_mem {as : List RegisteredAgent} {a : RegisteredAgent}
    (h : maxPriority as = some a) : a ∈ as := by
  induction as with
  | nil => cases h
  | cons b as ih =>
    simp only [maxPriority] at h
    cases hmax : maxPriority as with
    | none =>
      simp only [hmax,Option.some.injEq] at h
      simp [h]
    | some c =>
      simp only [hmax] at h
      by_cases hc : c.spec.routing.priority > b.spec.routing.priority
      · rw [if_pos hc] at h
        exact List.mem_cons_of_mem b (ih (hmax.trans h))
      · rw [if_neg hc] at h
        obtain rfl := Option.some.inj h
        exact List.mem_cons_self

theorem getByKeyExact_mem {r : AgentRegistry} {lower : String → String} {key : Option String}
    {a : RegisteredAgent} (h : r.getByKeyExact lower key = some a) : a ∈ r.snapshot := by
  cases key with
  | none => cases h
  | some key =>
    simp only [AgentRegistry.getByKeyExact] at h
    split at h
    · cases h
    · exact List.mem_of_find?_eq_some h

theorem modelRoute_ends (c : ConversationId) :
    Ends A.spec (fun r => ∀ decision, r = some decision → FromSnapshot A decision) Found
      (modelRoute d c) := by
  unfold modelRoute
  have hmodel : Ends A.spec (fun _ => True) Found (perform (Op.routerModel c) : Proc _) :=
    Answers.perform_ends fun _ _ _ h => h
  apply (hmodel.attempt).bind
  rintro r -
  rcases r with e | - | ⟨key,confidence⟩
  · exact Ends.pure (by simp)
  · exact Ends.pure (by simp)
  · apply Answers.snapshot_ends.bind
    rintro r rfl
    cases hkey : A.registry.getByKeyExact d.lower key with
    | none => exact Ends.pure (by simp)
    | some a =>
      have ha : a ∈ A.registry.snapshot := getByKeyExact_mem hkey
      dsimp only
      split
      · apply Ends.pure
        rintro decision ⟨⟩ b ⟨⟩
        exact ha
      · exact Ends.pure (by simp)

theorem selectFree_ends : Ends A.spec (FromSnapshot A) Found (selectFree d conv inp) := by
  unfold selectFree
  apply Answers.snapshot_ends.bind
  rintro r rfl
  have hvisible : ∀ a ∈ visible A.registry (some inp.user), a ∈ A.registry.snapshot := by
    intro a ha
    exact List.mem_of_mem_filter (List.mem_of_mem_filter ha)
  refine Ends.bind (P := fun hits => ∀ a ∈ hits, a ∈ A.registry.snapshot) ?_ ?_
  · split
    · exact Ends.pure (by simp)
    · apply (textOnly_ends inp.text).bind
      intro text _
      exact Ends.pure fun a ha => hvisible a (List.mem_of_mem_filter ha)
  · intro hits hhits
    cases hmax : maxPriority hits with
    | some a =>
      apply Ends.pure
      rintro b ⟨⟩
      exact hhits a (maxPriority_mem hmax)
    | none =>
      apply (modelRoute_ends conv.id).bind
      intro routed hrouted
      cases routed with
      | some decision => exact Ends.pure (hrouted decision rfl)
      | none =>
        apply Answers.snapshot_ends.bind
        rintro r rfl
        exact Ends.pure fun a ha => default_fromSnapshot ha

theorem selectPinned_ends : Ends A.spec (FromSnapshot A) Found (selectPinned d conv inp) := by
  unfold selectPinned
  apply pinFor_ends.bind
  intro pin hpin
  cases pin with
  | none => exact selectFree_ends
  | some a =>
    apply (textOr_ends inp.text).bind
    intro text _
    split
    · exact exitToDefault_ends conv.id
    · apply Ends.pure
      rintro b ⟨⟩
      exact hpin a rfl

theorem registry_get_mem {r : AgentRegistry} {key : String} {a : RegisteredAgent}
    (h : r.get key = some a) : a ∈ r.snapshot := by
  unfold AgentRegistry.get at h
  split at h
  · obtain rfl := Option.some.inj h
    rename_i hfind
    exact List.mem_of_find?_eq_some hfind
  · split at h
    · split at h
      · cases h
      · exact List.mem_of_find?_eq_some h
    · cases h

/-- Gate 1, for an agent that may be named. -/
theorem selectNamed_ends {a : RegisteredAgent} (ha : a ∈ A.registry.snapshot) :
    Ends A.spec (FromSnapshot A) Found (do
      if isExit d.lower (← textOr inp.text) a.spec.routing.exitKeywords then exitToDefault conv.id
      else pure { agent := some a, reason := .explicit, confidence := 1 }) := by
  apply (textOr_ends inp.text).bind
  intro text _
  split
  · exact exitToDefault_ends conv.id
  · apply Ends.pure
    rintro b ⟨⟩
    exact ha

/-- Every agent that the gates choose is one of the snapshot's. -/
theorem select_ends : Ends A.spec (FromSnapshot A) (fun _ => True) (select d conv inp) := by
  have hpinned : Ends A.spec (FromSnapshot A) (fun _ => True) (selectPinned d conv inp) :=
    selectPinned_ends.mono (fun _ h => h) fun _ _ => trivial
  unfold select
  cases inp.agentKey with
  | none => exact hpinned
  | some key =>
    dsimp only
    split
    · unfold selectExplicit
      apply Answers.snapshot_ends.bind
      rintro r rfl
      have hget : Ends A.spec (fun a => ∀ b, a = some b → b ∈ A.registry.snapshot) (fun _ => True)
          (registryGet A.registry key) := by
        unfold registryGet
        split
        · exact Ends.pure fun a ha => registry_get_mem ha
        · exact Ends.throw trivial
        · exact Ends.throw trivial
        · exact Ends.pure (by simp)
      apply hget.bind
      intro a ha
      cases a with
      | none => exact Ends.throw trivial
      | some a =>
        dsimp only
        split
        · exact Ends.throw trivial
        · exact (selectNamed_ends (ha a rfl)).mono (fun _ h => h) fun _ _ => trivial
    · exact hpinned

end Select

section Route

open OrchestrationService

variable {A : Answers} {d : Deployment} {user : UserContext}

theorem recent_ends (c : ConversationId) (turns : ℕ) :
    Ends A.spec (fun _ => True) Found (MessageRepository.recent c turns) := by
  exact Ends.branch (Ends.pure trivial)
    (Answers.perform_ends (o := .stmt (.recent c turns)) fun _ _ _ h => h)

/-- The agent that a turn is handed to is one of the snapshot's, as the caller's scope sees it. -/
theorem routeTurn_ends {conv : Conversation} {inp : TurnInput} (hinp : inp.user = user) :
    Ends A.spec (fun r => ∃ a ∈ A.registry.snapshot, r.2 = A.inScope (some user) a) (fun _ => True)
      (routeTurn d inp conv) := by
  unfold routeTurn
  have hhistory : Ends A.spec (fun _ => True) Found (routerHistory conv) := by
    unfold routerHistory
    apply Answers.snapshot_ends.bind
    rintro r rfl
    cases A.registry.default with
    | none => exact Ends.pure trivial
    | some a => exact recent_ends conv.id a.spec.historyTurns
  apply (hhistory.mono (fun _ h => h) fun _ _ => trivial).bind
  intro _ _
  apply select_ends.bind
  intro decision hdecision
  cases ha : decision.agent with
  | none => exact Ends.throw trivial
  | some a =>
    have hmem : a ∈ A.registry.snapshot := hdecision a ha
    subst hinp
    apply (Answers.resolveForScope_ends hmem _ _).bind
    rintro b rfl
    exact Ends.pure ⟨a,hmem,rfl⟩

/-- A conversation that is pinned to an agent. -/
def pinnedTo (a : RegisteredAgent) : Conversation where
  id := 1
  tenantCode := ""
  externalUserId := ""
  pinnedAgentId := some a.id
  createdAt := 0

theorem getById_of_mem {a : RegisteredAgent} (ha : a ∈ A.registry.snapshot) :
    A.registry.getById a.id = some a := by
  cases hget : A.registry.getById a.id with
  | none =>
    have hnone := List.find?_eq_none.mp hget a ha
    simp at hnone
  | some b =>
    have hb : b ∈ A.registry.snapshot := List.mem_of_find?_eq_some hget
    rw [List.inj_on_of_nodup_map A.ids hb ha (AgentRegistry.getById_id hget)]

theorem isExit_empty {lower : String → String} (hlower : lower "" = "") (keywords : List String) :
    RouterService.isExit lower "" keywords = false := by
  have hnormal : RouterService.normaliseCommand lower "" = "" := by
    have hstrip : Text.stripChars RouterService.commandPunctuation (Text.strip "") = "" := by decide
    rw [RouterService.normaliseCommand,hstrip,hlower]
    decide
  rw [RouterService.isExit,hnormal]
  rfl

theorem fixed_spec (routed : Option (Option String × PyFloat)) (o : Op) :
    A.spec.post o () (A.fixed routed o) () := by
  have hrejected : ∀ {α : Type} (e : Exn), (.error .rejected : Except Exn α) = .error e → Found e := by
    rintro α e ⟨⟩
    simp [Found]
  cases o with
  | stmt s => cases s <;> first | rfl | exact hrejected | exact fun _ h => nomatch h
  | scopeLookup => exact ⟨0,none,rfl,by simp⟩
  | routerModel => exact fun _ h => nomatch h
  | _ => first | rfl | exact hrejected

theorem scopedAgent_answered (a : RegisteredAgent) (tenant organization : String) :
    (AgentRegistry.scopedAgent a tenant organization).answered (A.fixed none) =
      match A.config a.id tenant organization with
      | .ok none => .ok a
      | .ok (some (_,none)) => .error (.python "ValidationError" "")
      | .ok (some (checksum,some spec)) => .ok { a with checksum := checksum, spec := spec }
      | .error e => .error e := by
  have hquery : (stmt (.scopedConfig a.id tenant organization)).answered (A.fixed none) =
      A.config a.id tenant organization := answered_perform _
  unfold AgentRegistry.scopedAgent
  cases hc : A.config a.id tenant organization with
  | error e => exact answered_bind_error (hquery.trans hc)
  | ok v =>
    refine (answered_bind_ok (hquery.trans hc)).trans ?_
    rcases v with - | ⟨checksum,- | spec⟩ <;> rfl

theorem resolveForScope_answered (a : RegisteredAgent) (tenant organization : String) :
    (AgentRegistry.resolveForScope a tenant organization).answered (A.fixed none) =
      .ok (A.served a tenant organization) := by
  unfold AgentRegistry.resolveForScope Answers.served
  by_cases ht : tenant = "" ∨ tenant = "default"
  · rw [if_pos ht,if_pos ht]
    rfl
  · rw [if_neg ht,if_neg ht,Answers.resolved]
    refine (answered_bind_ok (answered_perform (Op.scopeLookup tenant organization a.key))).trans ?_
    refine (answered_bind_ok (answered_attempt _)).trans ?_
    rw [scopedAgent_answered]
    cases A.config a.id tenant organization with
    | error e => rfl
    | ok v => rcases v with - | ⟨checksum,- | spec⟩ <;> rfl

theorem recent_answered (c : ConversationId) (turns : ℕ) :
    (MessageRepository.recent c turns).answered (A.fixed none) = .ok [] := by
  cases turns <;> rfl

/-- The pin is followed without a question, whatever the agent's access block says. -/
theorem pinned_answered (hlower : d.lower "" = "") {a : RegisteredAgent} (ha : a ∈ A.registry.snapshot) :
    ∃ decision, (routeTurn d { conversationId := none, user := user, text := .str "" }
      (pinnedTo a)).answered (A.fixed none) = .ok (decision,A.inScope (some user) a) := by
  have hhistory : ∃ rows, (routerHistory (pinnedTo a)).answered (A.fixed none) = .ok rows := by
    refine ⟨[],(answered_bind_ok (answered_perform Op.snapshot)).trans ?_⟩
    cases A.registry.default with
    | none => rfl
    | some b => exact recent_answered (pinnedTo a).id b.spec.historyTurns
  obtain ⟨rows,hrows⟩ := hhistory
  have hpin : (RouterService.pinFor (pinnedTo a)).answered (A.fixed none) = .ok (some a) := by
    have hget : (do pure ((← snapshot).getById a.id) : Proc _).answered (A.fixed none) = .ok (some a) := by
      refine (answered_bind_ok (answered_perform Op.snapshot)).trans ?_
      rw [answered_pure,getById_of_mem ha]
    exact (answered_bind_ok hget).trans rfl
  have hselect : (RouterService.select d (pinnedTo a)
      { conversationId := none, user := user, text := .str "" }).answered (A.fixed none) =
        .ok { agent := some a, reason := .pinned, confidence := 1 } := by
    refine (answered_bind_ok hpin).trans ?_
    change (if RouterService.isExit d.lower "" a.spec.routing.exitKeywords then _ else _ :
      Proc RouteDecision).answered _ = _
    rw [isExit_empty hlower]
    rfl
  refine ⟨{ agent := some a, reason := .pinned, confidence := 1 },?_⟩
  refine (answered_bind_ok hrows).trans ((answered_bind_ok hselect).trans ?_)
  exact answered_bind_ok (resolveForScope_answered a _ _)

/-- An interview for one tenant only, beside the default agent. -/
def membersOnly : Answers where
  registry := ⟨[Sample.assistant,{ Sample.interviewer with
    spec := { Sample.interviewer.spec with access := { tenantCodes := ["acme"] } } }]⟩
  config _ _ _ := .ok none
  keys := by decide
  ids := by decide

/-- A turn that names the interview. -/
def namingStory (tenant : String) : TurnInput where
  conversationId := none
  user := { userId := "user", tenantCode := tenant }
  text := .str "Hello"
  agentKey := some (.str "story")

end Route

end Saarathi
