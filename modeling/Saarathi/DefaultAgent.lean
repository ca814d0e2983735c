import Saarathi.Acceptance
import Saarathi.Footprints
import Saarathi.Freshness
import Saarathi.Sidebar

/-!
# Where routing ends

Gate 5 and the exit command hand the turn to the default agent of the snapshot.
This module says when a turn that names no agent is handed to one.
-/

namespace Saarathi

open Program Program.Prog Machine RouterService

/-- What routing meets: a conversation with its open session, the user and the text, and how the router
model's answer is read. The client names no agent. -/
structure Unnamed where
  conv : Conversation
  session : Option AgentSession := none
  user : UserContext
  text : String
  key : Option Json := none
  model : Except Exn (Option (Option String × PyFloat)) := .ok none
  unnamed : ∀ j ∈ key, j.truthy = false

/-- No key is no named agent. -/
theorem unnamed_none : ∀ j ∈ (none : Option Json), j.truthy = false := by simp

namespace Unnamed

variable (i : Unnamed) (r : AgentRegistry) (d : Deployment)

def input : TurnInput where
  conversationId := some i.conv.id
  user := i.user
  text := .str i.text
  agentKey := i.key

/-- The answers of one request, which reads one snapshot. -/
def answers : (o : Op) → Except Exn o.Ans
  | .snapshot => .ok r
  | .stmt (.getOpenForConversation _) => .ok i.session.toList
  | .stmt (.abandonOpenSession _ _) => .ok (i.session.map fun s => { s with state := .abandoned }).toList
  | .stmt (.unpin _) => .ok ()
  | .stmt (.auditInsert ..) => .ok ()
  | .routerModel _ => i.model
  | _ => .error .rejected

/-- The agent of the pin, or else of the open session. -/
def pinned : Option RegisteredAgent :=
  match i.conv.pinnedAgentId.bind r.getById with
  | some a => some a
  | none => i.session.bind fun session => r.getById session.agentId

/-- The agents of gate 3. -/
def hits : List RegisteredAgent :=
  (visible r (some i.user)).filter fun a => kwMatch d.lower i.text a.spec.routing.keywords

/-- The agent of gate 4. -/
def chosen : Option RegisteredAgent :=
  match i.model with
  | .ok (some (key,confidence)) => (r.getByKeyExact d.lower key).filter fun a =>
      a.spec.routing.routerSelectable && a.spec.routing.confidenceThreshold ≤ confidence
  | _ => none

/-- Routing hands the turn to an agent of the snapshot, and abandons no session without one to hand the
turn to. -/
structure Routes : Prop where
  handed : ∃ decision a, (select d i.conv i.input).answered (i.answers r) = .ok decision ∧
    decision.agent = some a ∧ a ∈ r.snapshot
  abandons : ∀ c reason, .stmt (.abandonOpenSession c reason) ∈
    (select d i.conv i.input).calls (i.answers r) → r.default.isSome = true

/-- A gate before the last takes the turn. -/
def Taken : Prop :=
  match i.pinned r with
  | some a => isExit d.lower i.text a.spec.routing.exitKeywords = false
  | none => i.hits r d ≠ [] ∨ (i.chosen r d).isSome = true

/-- The agent that the turn is handed to, if there is one. -/
def target : Option RegisteredAgent :=
  match i.pinned r with
  | some a => if isExit d.lower i.text a.spec.routing.exitKeywords then r.default else some a
  | none => (maxPriority (i.hits r d)).or ((i.chosen r d).or r.default)

end Unnamed

section Gates

variable {i : Unnamed} {r : AgentRegistry} {d : Deployment}

theorem snapshot_answered : snapshot.answered (i.answers r) = .ok r := answered_perform _

theorem getOpen_answered (c : ConversationId) :
    (AgentSessionRepository.getOpenForConversation c).answered (i.answers r) = .ok i.session := by
  refine (answered_bind_ok (answered_perform (Op.stmt (.getOpenForConversation c)))).trans ?_
  cases i.session with
  | none => rfl
  | some session => rfl

theorem pinFor_answered : (pinFor i.conv).answered (i.answers r) = .ok (i.pinned r) := by
  have hget : ∀ id, (do pure ((← snapshot).getById id) : Proc _).answered (i.answers r) =
      .ok (r.getById id) := fun id => (answered_bind_ok snapshot_answered).trans rfl
  unfold pinFor Unnamed.pinned
  refine (answered_bind_ok (show Prog.answered _ _ = .ok (i.conv.pinnedAgentId.bind r.getById) from ?_)).trans ?_
  · cases i.conv.pinnedAgentId with
    | none => rfl
    | some id => exact hget id
  · cases i.conv.pinnedAgentId.bind r.getById with
    | none =>
      refine (answered_bind_ok (getOpen_answered i.conv.id)).trans ?_
      cases i.session with
      | none => rfl
      | some session => exact hget session.agentId
    | some a => rfl

theorem abandon_answered (c : ConversationId) (reason actor : String) :
    ∃ session, (SessionService.abandon c reason actor).answered (i.answers r) = .ok session := by
  cases hs : i.session with
  | none =>
    refine ⟨none,(answered_bind_ok (getOpen_answered c)).trans ?_⟩
    rw [hs]
    rfl
  | some session =>
    have hrow : (AgentSessionRepository.abandonOpenSession c reason).answered (i.answers r) =
        .ok (some { session with state := .abandoned }) := by
      refine (answered_bind_ok (answered_perform (Op.stmt (.abandonOpenSession c reason)))).trans ?_
      rw [hs]
      rfl
    refine ⟨some { session with state := .abandoned },(answered_bind_ok (getOpen_answered c)).trans ?_⟩
    rw [hs]
    exact (answered_bind_ok hrow).trans rfl

theorem exitToDefault_answered (c : ConversationId) : (exitToDefault c).answered (i.answers r) =
    .ok { agent := r.default, reason := .exitToDefault, confidence := 1, unpinned := true } := by
  obtain ⟨session,hs⟩ : ∃ session, (SessionService.abandon c "user_exit").answered (i.answers r) =
      .ok session := abandon_answered c _ _
  exact (answered_bind_ok hs).trans rfl

theorem modelRoute_answered (c : ConversationId) : ∃ routed, (modelRoute d c).answered (i.answers r) =
    .ok routed ∧ routed.map (·.agent) = (i.chosen r d).map some := by
  have hmodel : (perform (Op.routerModel c) : Proc _).attempt.answered (i.answers r) = .ok i.model := by
    rw [answered_attempt,answered_perform]
    rfl
  unfold modelRoute Unnamed.chosen
  rcases hm : i.model with e | - | ⟨key,confidence⟩
  · exact ⟨none,(answered_bind_ok (hmodel.trans (congrArg _ hm))).trans rfl,rfl⟩
  · exact ⟨none,(answered_bind_ok (hmodel.trans (congrArg _ hm))).trans rfl,rfl⟩
  · have hread := hmodel.trans (congrArg _ hm)
    cases hkey : r.getByKeyExact d.lower key with
    | none =>
      refine ⟨none,(answered_bind_ok hread).trans ((answered_bind_ok snapshot_answered).trans ?_),by simp [hkey]⟩
      rw [hkey]
      rfl
    | some a =>
      by_cases hpick : (a.spec.routing.routerSelectable &&
          decide (a.spec.routing.confidenceThreshold ≤ confidence)) = true
      · refine ⟨some { agent := some a, reason := .llm, confidence := confidence },
          (answered_bind_ok hread).trans ((answered_bind_ok snapshot_answered).trans ?_),?_⟩
        · simp only [hkey]
          rw [if_pos hpick]
          rfl
        · simp [hkey,Option.filter,hpick]
      · refine ⟨none,(answered_bind_ok hread).trans ((answered_bind_ok snapshot_answered).trans ?_),?_⟩
        · simp only [hkey]
          rw [if_neg hpick]
          rfl
        · simp [hkey,Option.filter,hpick]

theorem hits_answered : (if (visible r (some i.user)).isEmpty then pure [] else do
      let text ← textOnly (.str i.text)
      pure ((visible r (some i.user)).filter fun a => kwMatch d.lower text a.spec.routing.keywords) :
      Proc _).answered (i.answers r) = .ok (i.hits r d) := by
  by_cases hempty : (visible r (some i.user)).isEmpty = true
  · rw [if_pos hempty,Unnamed.hits,List.isEmpty_iff.mp hempty]
    rfl
  · rw [if_neg hempty]
    rfl

/-- Gates 3 to 5. -/
theorem selectFree_answered : ∃ decision, (selectFree d i.conv i.input).answered (i.answers r) =
    .ok decision ∧ decision.agent = (maxPriority (i.hits r d)).or ((i.chosen r d).or r.default) := by
  unfold selectFree
  cases hmax : maxPriority (i.hits r d) with
  | some a =>
    refine ⟨{ agent := some a, reason := .keyword, confidence := 1 },
      (answered_bind_ok snapshot_answered).trans ((answered_bind_ok hits_answered).trans ?_),rfl⟩
    rw [hmax]
    rfl
  | none =>
    obtain ⟨routed,hrouted,hchosen⟩ := modelRoute_answered (i := i) (r := r) (d := d) i.conv.id
    cases hc : i.chosen r d with
    | none =>
      obtain rfl := Option.map_eq_none_iff.mp (hchosen.trans (congrArg _ hc))
      refine ⟨{ agent := r.default, reason := .default, confidence := 0 },
        (answered_bind_ok snapshot_answered).trans ((answered_bind_ok hits_answered).trans ?_),rfl⟩
      rw [hmax]
      exact (answered_bind_ok hrouted).trans ((answered_bind_ok snapshot_answered).trans rfl)
    | some a =>
      obtain ⟨decision,rfl,hagent⟩ := Option.map_eq_some_iff.mp (hchosen.trans (congrArg _ hc))
      refine ⟨decision,
        (answered_bind_ok snapshot_answered).trans ((answered_bind_ok hits_answered).trans ?_),hagent⟩
      rw [hmax]
      exact (answered_bind_ok hrouted).trans rfl

theorem select_unnamed : select d i.conv i.input = selectPinned d i.conv i.input := by
  unfold select
  cases hkey : i.input.agentKey with
  | none => rfl
  | some key =>
    have hfalsy := i.unnamed key hkey
    dsimp only
    rw [hfalsy]
    rfl

theorem select_answered : ∃ decision, (select d i.conv i.input).answered (i.answers r) = .ok decision ∧
    decision.agent = i.target r d := by
  rw [select_unnamed]
  unfold selectPinned Unnamed.target
  cases hpin : i.pinned r with
  | none =>
    obtain ⟨decision,hdecision,hagent⟩ := selectFree_answered (i := i) (r := r) (d := d)
    exact ⟨decision,(answered_bind_ok (pinFor_answered.trans (congrArg _ hpin))).trans hdecision,hagent⟩
  | some a =>
    have htext : (textOr i.input.text).answered (i.answers r) = .ok i.text := rfl
    by_cases hexit : isExit d.lower i.text a.spec.routing.exitKeywords = true
    · refine ⟨{ agent := r.default, reason := .exitToDefault, confidence := 1, unpinned := true },
        (answered_bind_ok (pinFor_answered.trans (congrArg _ hpin))).trans ((answered_bind_ok htext).trans ?_),?_⟩
      · rw [if_pos hexit]
        exact exitToDefault_answered i.conv.id
      · simp [hexit]
    · refine ⟨{ agent := some a, reason := .pinned, confidence := 1 },
        (answered_bind_ok (pinFor_answered.trans (congrArg _ hpin))).trans ((answered_bind_ok htext).trans ?_),?_⟩
      · rw [if_neg hexit]
        rfl
      · simp [hexit]

/-- The target is of the snapshot. -/
theorem target_mem {a : RegisteredAgent} (h : i.target r d = some a) : a ∈ r.snapshot := by
  have hdefault : r.default = some a → a ∈ r.snapshot := List.mem_of_find?_eq_some
  have hget : ∀ id b, r.getById id = some b → b ∈ r.snapshot := fun _ _ => List.mem_of_find?_eq_some
  unfold Unnamed.target at h
  split at h
  · rename_i b hb
    split at h
    · exact hdefault h
    · obtain rfl := Option.some.inj h
      unfold Unnamed.pinned at hb
      split at hb
      · rename_i b' hpin
        obtain rfl := Option.some.inj hb
        obtain ⟨id,-,hid⟩ := Option.bind_eq_some_iff.mp hpin
        exact hget id _ hid
      · obtain ⟨session,-,hsession⟩ := Option.bind_eq_some_iff.mp hb
        exact hget _ _ hsession
  · rcases Option.or_eq_some_iff.mp h with hmax | ⟨-,h⟩
    · have hvisible := List.mem_of_mem_filter (maxPriority_mem hmax)
      exact List.mem_of_mem_filter (List.mem_of_mem_filter hvisible)
    · rcases Option.or_eq_some_iff.mp h with hchosen | ⟨-,h⟩
      · unfold Unnamed.chosen at hchosen
        split at hchosen
        · exact getByKeyExact_mem (Option.eq_some_of_filter_eq_some hchosen)
        · cases hchosen
      · exact hdefault h

theorem maxPriority_isSome {as : List RegisteredAgent} : (maxPriority as).isSome = true ↔ as ≠ [] := by
  cases as with
  | nil => simp [maxPriority]
  | cons a as =>
    simp only [maxPriority,ne_eq,reduceCtorEq,not_false_eq_true,iff_true]
    split
    · split <;> rfl
    · rfl

/-- There is a target where a gate before the last takes the turn, or there is a default agent. -/
theorem target_isSome : (i.target r d).isSome = true ↔ r.default.isSome = true ∨ i.Taken r d := by
  unfold Unnamed.target Unnamed.Taken
  cases i.pinned r with
  | none =>
    simp only [Option.isSome_or,Bool.or_eq_true,maxPriority_isSome]
    tauto
  | some a =>
    dsimp only
    cases isExit d.lower i.text a.spec.routing.exitKeywords with
    | true => simp
    | false => simp

/-- Without an exit command no session is abandoned. -/
theorem not_abandons_of_taken (h : i.Taken r d) (c : ConversationId) (reason : String) :
    .stmt (.abandonOpenSession c reason) ∉ (select d i.conv i.input).calls (i.answers r) := by
  have hfree : ∀ {α : Type} {rs : List Role} {p : Proc α}, Within rs p → Role.abandon ∉ rs →
      .stmt (.abandonOpenSession c reason) ∉ p.calls (i.answers r) := by
    intro α rs p hp hrs ho
    exact hrs (All.of_mem_calls hp ho)
  rw [select_unnamed]
  unfold selectPinned
  unfold Unnamed.Taken at h
  rw [calls_bind_ok pinFor_answered,List.mem_append,not_or]
  refine ⟨hfree (pinFor_calls i.conv).within (by decide),?_⟩
  cases hpin : i.pinned r with
  | none => exact hfree (selectFree_calls d i.conv i.input).within (by decide)
  | some a =>
    have htext : (textOr i.input.text).answered (i.answers r) = .ok i.text := rfl
    rw [hpin] at h
    have hexit : isExit d.lower i.text a.spec.routing.exitKeywords = false := h
    dsimp only
    rw [calls_bind_ok htext,hexit]
    exact List.not_mem_nil

theorem routes_iff : i.Routes r d ↔ r.default.isSome = true ∨ i.Taken r d := by
  obtain ⟨decision,hrun,hagent⟩ := select_answered (i := i) (r := r) (d := d)
  rw [← target_isSome]
  constructor
  · intro h
    obtain ⟨decision',a,hrun',hagent',-⟩ := h.handed
    obtain rfl := Except.ok.inj (hrun.symm.trans hrun')
    rw [← hagent,hagent']
    rfl
  · intro h
    obtain ⟨a,ha⟩ := Option.isSome_iff_exists.mp h
    refine ⟨⟨decision,a,hrun,hagent.trans ha,target_mem ha⟩,fun c reason ho => ?_⟩
    rcases target_isSome.mp h with hdefault | htaken
    · exact hdefault
    · exact absurd ho (not_abandons_of_taken htaken c reason)

end Gates

namespace Catalogue

variable {c₀ c : Catalogue} {v : Validation} {r : AgentRegistry}

/-- The snapshot of such tables has a default agent where the default agent is enabled. -/
theorem Lineage.default_isSome (h : c.Lineage) (hr : c.reload v = some r) :
    r.default.isSome = true ↔ ∃ a ∈ c.agents, a.status = .enabled ∧ a.isDefault = true := by
  have hmap : r.snapshot.map (·.isDefault) = (c.agents.filter (·.status = .enabled)).map (·.isDefault) := by
    rw [snapshot_map hr (g := Agent.isDefault) fun _ _ _ => rfl,h.reloadRows]
  have hdefault : r.default.isSome = true ↔ true ∈ r.snapshot.map (·.isDefault) := by
    simp [AgentRegistry.default,List.find?_isSome]
  rw [hdefault,hmap]
  simp only [List.mem_map,List.mem_filter,decide_eq_true_eq,and_assoc]

end Catalogue

/-- For every tables that synchronisations, new versions, activations and changes of a status lead to, every
snapshot that is loaded from them, every conversation, text and answer of the router model: a turn that names
no agent is handed to one of the snapshot, and no session is abandoned in vain, exactly if the default agent is
enabled or a gate before the last takes the turn. -/
theorem unnamed_routes_iff {c₀ c : Catalogue} {v : Validation} {r : AgentRegistry} (h₀ : c₀.Empty)
    (h : Reach Catalogue.apply anyAct c₀ c) (hr : c.reload v = some r) (d : Deployment) (i : Unnamed) :
    i.Routes r d ↔ (∃ a ∈ c.agents, a.status = .enabled ∧ a.isDefault = true) ∨ i.Taken r d := by
  rw [routes_iff,(Catalogue.lineage_of_reach h₀ h).default_isSome hr]

/-! Two agents, and a conversation that is pinned to the second. -/

namespace DefaultAgent

/-- What each configuration amounts to. -/
def twoSpecs : Validation where
  agentSpec config := match config with
    | .obj fields => match Json.get fields "key" with
      | .str key => some { key := key, kind := .llm "model" }
      | _ => none
    | _ => none
  accessSpec _ := none

/-- The agents are synchronised. -/
def synced : List Applied := [⟨.config (.sync true .safe (twoFiles.specs.map some)),firstRow,1⟩]

/-- And the default agent is disabled. -/
def patched : List Applied := synced ++ [⟨.status "assistant" (some .disabled),firstRow,2⟩]

/-- The conversation's agent, which runs no interview. -/
def pinnedTurn (text : String) : Unnamed where
  conv := { id := 1, tenantCode := "acme", externalUserId := "user", pinnedAgentId := some 2, createdAt := 0 }
  session := some { id := 1, conversationId := 1, agentId := 2, startedAt := 0, lastActivityAt := 0 }
  user := { userId := "user", tenantCode := "acme" }
  text := text
  unnamed := unnamed_none

/-- The conversation whose session a call abandons. -/
def abandoned : Op → Option ConversationId
  | .stmt (.abandonOpenSession c _) => some c
  | _ => none

end DefaultAgent

open DefaultAgent

theorem unnamed_routes_synced : ∃ c r, Reach Catalogue.apply anyAct Catalogue.blank c ∧
    c.reload twoSpecs = some r ∧ (pinnedTurn "stop").Routes r Sample.deployment := by
  have hrun : (run Catalogue.apply anyAct Catalogue.blank synced).any (fun c =>
      (c.reload twoSpecs).isSome && c.agents.any fun a => a.status = .enabled && a.isDefault) = true := by
    decide +kernel
  obtain ⟨c,hr,hP⟩ := exists_reach_of_run hrun
  rw [Bool.and_eq_true,List.any_eq_true] at hP
  obtain ⟨hload,a,ha,hdefault⟩ := hP
  rw [Bool.and_eq_true,decide_eq_true_eq] at hdefault
  obtain ⟨r,hload⟩ := Option.isSome_iff_exists.mp hload
  exact ⟨c,r,hr,hload,(unnamed_routes_iff Catalogue.blank_empty hr hload _ _).mpr (.inl ⟨a,ha,hdefault⟩)⟩

/-- With the default agent disabled, the exit command abandons the session and hands the turn to no agent. -/
theorem exit_without_default : ∃ c r decision, Reach Catalogue.apply anyAct Catalogue.blank c ∧
    (∃ a ∈ c.agents, a.status = .enabled) ∧ c.reload twoSpecs = some r ∧
    (select Sample.deployment (pinnedTurn "stop").conv (pinnedTurn "stop").input).answered
      ((pinnedTurn "stop").answers r) = .ok decision ∧ decision.agent = none ∧
    (∃ o ∈ (select Sample.deployment (pinnedTurn "stop").conv (pinnedTurn "stop").input).calls
      ((pinnedTurn "stop").answers r), abandoned o = some 1) ∧
    ¬(pinnedTurn "stop").Routes r Sample.deployment := by
  have hrun : (run Catalogue.apply anyAct Catalogue.blank patched).any (fun c =>
      c.agents.any (fun a => a.status = .enabled) && (c.reload twoSpecs).any fun r =>
        ((pinnedTurn "stop").target r Sample.deployment).isNone &&
          ((select Sample.deployment (pinnedTurn "stop").conv (pinnedTurn "stop").input).calls
            ((pinnedTurn "stop").answers r)).any fun o => abandoned o = some 1) = true := by
    decide +kernel
  obtain ⟨c,hr,hP⟩ := exists_reach_of_run hrun
  simp only [Bool.and_eq_true,List.any_eq_true,Option.any_eq_true,decide_eq_true_eq] at hP
  obtain ⟨henabled,r,hload,htarget,habandoned⟩ := hP
  have hnone : (pinnedTurn "stop").target r Sample.deployment = none := Option.isNone_iff_eq_none.mp htarget
  obtain ⟨decision,hdecision,hagent⟩ : ∃ decision, (select Sample.deployment (pinnedTurn "stop").conv
      (pinnedTurn "stop").input).answered ((pinnedTurn "stop").answers r) = .ok decision ∧
        decision.agent = (pinnedTurn "stop").target r Sample.deployment := select_answered
  refine ⟨c,r,decision,hr,henabled,hload,hdecision,hagent.trans hnone,habandoned,fun h => ?_⟩
  have hsome := target_isSome.mpr (routes_iff.mp h)
  rw [hnone] at hsome
  cases hsome

end Saarathi
