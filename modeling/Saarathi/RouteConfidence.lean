import Saarathi.DefaultAgent

/-!
# The confidence of a route

The router model's text is read by a lenient JSON repairer and `float()`. The
confidence that it claims is compared with a threshold from below only; the
first to bound it from above is the check on the reply's row.
-/

namespace Saarathi

open Program Program.Prog Machine

/-- `RoutingSpec.confidence_threshold = Field(0.5, ge=0.0, le=1.0)`. -/
def RoutingSpec.checkThreshold (s : RoutingSpec) : Bool :=
  decide (0 ≤ s.confidenceThreshold) && decide (s.confidenceThreshold ≤ 1)

/-- `json_repair.loads` and `float()` of a number and of a text. -/
structure RouterBuiltins where
  jsonRepair : String → Except Exn Json
  floatOfNum : String → Except Exn PyFloat
  floatOfStr : String → Except Exn PyFloat

namespace RouterService

section Reading

variable (b : RouterBuiltins)

/-- `float(value)`. -/
def floatOf : Json → Except Exn PyFloat
  | .bool value => .ok (if value then 1 else 0)
  | .num literal => b.floatOfNum literal
  | .str text => b.floatOfStr text
  | _ => .error (.python "TypeError" "float() argument must be a string or a real number")

/-- The key that `get_by_key_exact` is called with: a falsy one finds nothing, and one that is
neither falsy nor a string has no `strip`. -/
def keyOf : Json → Except Exn (Option String)
  | .str key => .ok (some key)
  | j => if j.truthy then .error (.python "AttributeError" "no attribute 'strip'") else .ok none

/-- The key and the confidence in the router model's text. -/
def readRouted (raw : String) : Except Exn (Option (Option String × PyFloat)) := do
  match ← b.jsonRepair raw with
  | .obj fields => do
    let confidence ← (match Json.lookup fields "confidence" with
      | some value => floatOf b value
      | none => pure 0)
    pure (some (← keyOf (Json.get fields "agent_key"),confidence))
  | _ => pure (some (none,0))

end Reading

section Accepting

variable (d : Deployment)

/-- The key names a selectable agent whose threshold the confidence reaches. -/
def reaches (r : AgentRegistry) (key : Option String) (confidence : PyFloat) : Bool :=
  match r.getByKeyExact d.lower key with
  | some a => a.spec.routing.routerSelectable && a.spec.routing.confidenceThreshold ≤ confidence
  | none => false

/-- What the router model answered, where the call is to it. -/
def routed : ((o : Op) × Except Exn o.Ans) → Option (Except Exn (Option (Option String × PyFloat)))
  | ⟨.routerModel _,r⟩ => some r
  | _ => none

/-- The registry that a call answered. -/
def registered : ((o : Op) × Except Exn o.Ans) → Option AgentRegistry
  | ⟨.snapshot,.ok r⟩ => some r
  | _ => none

/-- The router model's answer in the calls of a run, where gate 4 takes the turn on it. -/
def accepted : Trace Op Op.Ans Exn → Option (Option String × PyFloat)
  | [] => none
  | e :: es => match routed e with
    | none => accepted es
    | some (.ok (some answer)) => (es.head?.bind registered).bind fun r =>
        if reaches d r answer.1 answer.2 then some answer else none
    | some _ => none

/-- The route that gate 4 takes. -/
def Decided (es : Trace Op Op.Ans Exn) (decision : RouteDecision) : Prop :=
  (∃ key, accepted d es = some (key,decision.confidence)) ∨
    accepted d es = none ∧ (decision.confidence = 1 ∨ decision.confidence = 0)

/-- Whatever the calls answer, the confidence is the accepted answer's, or one or zero. -/
def Decides (p : Proc RouteDecision) : Prop := ∀ es decision, Runs p es (.ok decision) → Decided d es decision

variable {d : Deployment} {es es' : Trace Op Op.Ans Exn}

theorem accepted_append (h : ∀ e ∈ es, routed e = none) : accepted d (es ++ es') = accepted d es' := by
  induction es with
  | nil => rfl
  | cons e es ih =>
    have he : routed e = none := h e List.mem_cons_self
    rw [List.cons_append,accepted,he]
    exact ih fun e' he' => h e' (List.mem_cons_of_mem _ he')

/-- A call to anything but the router model. -/
def aside : Op → Prop
  | .routerModel _ => False
  | _ => True

theorem routed_of_aside {e : (o : Op) × Except Exn o.Ans} (h : aside e.1) : routed e = none := by
  rcases e with ⟨o,r⟩
  cases o with
  | routerModel c => exact h.elim
  | _ => rfl

theorem aside_of_role {o : Op} {rs : List Role} (h : o.role ∈ rs) (hrs : Role.read ∉ rs) : aside o := by
  cases o with
  | routerModel c => exact hrs h
  | _ => trivial

theorem Within.aside {α : Type} {rs : List Role} {p : Proc α} (h : Within rs p) (hrs : Role.read ∉ rs) :
    All aside p :=
  All.mono h fun _ ho => aside_of_role ho hrs

namespace Decides

theorem throw {e : Exn} : Decides d (MonadExcept.throw e) := by
  intro es decision h
  cases (Runs.of_throw h).2

theorem pure {decision : RouteDecision} (h : decision.confidence = 1 ∨ decision.confidence = 0) :
    Decides d (Pure.pure decision) := by
  intro es decision' hrun
  obtain ⟨rfl,hout⟩ := Runs.of_pure hrun
  obtain rfl := Except.ok.inj hout
  exact .inr ⟨rfl,h⟩

theorem bind {α : Type} {p : Proc α} {f : α → Proc RouteDecision} (hp : All aside p)
    (hf : ∀ a, Decides d (f a)) : Decides d (p >>= f) := by
  intro es decision hrun
  rcases Runs.of_bind hrun with ⟨e,-,hout⟩ | ⟨a,es₁,es₂,hfirst,hrest,rfl⟩
  · cases hout
  · have hnone : ∀ e ∈ es₁, routed e = none := fun e he => routed_of_aside (hfirst.all hp e he)
    unfold Decided
    rw [accepted_append hnone]
    exact hf a es₂ decision hrest

end Decides
theorem pinFor_aside (conv : Conversation) : All aside (pinFor conv) := by
  unfold pinFor
  refine All.bind ?_ ?_
  · split
    · exact All.bind ((all_perform _).mpr trivial) fun _ => trivial
    · trivial
  · have hopen : Straight [.query] (AgentSessionRepository.getOpenForConversation conv.id) :=
      Straight.one rfl
    rintro (_ | a)
    · refine All.bind (Within.aside hopen.within (by decide)) ?_
      rintro (_ | session)
      · trivial
      · exact All.bind ((all_perform _).mpr trivial) fun _ => trivial
    · trivial

theorem textOr_aside (j : Json) : All aside (textOr j) :=
  Within.aside (@textOr_calls [] j).within (by decide)

theorem exitToDefault_decides (c : ConversationId) : Decides d (exitToDefault c) := by
  unfold exitToDefault
  refine Decides.bind (Within.aside (SessionService.abandon_calls c _ _).within (by decide)) fun _ => ?_
  have hunpin : All aside (ConversationRepository.unpin c) := (all_perform _).mpr trivial
  refine Decides.bind hunpin fun _ => ?_
  exact Decides.bind ((all_perform _).mpr trivial) fun r => Decides.pure (.inl rfl)

/-- What gate 4 makes of an answer. -/
theorem pick_runs {r : AgentRegistry} {key : Option String} {confidence : PyFloat} {out : Option RouteDecision}
    (h : Runs (match r.getByKeyExact d.lower key with
      | none => pure none
      | some a =>
        if a.spec.routing.routerSelectable && a.spec.routing.confidenceThreshold ≤ confidence then
          pure (some { agent := some a, reason := .llm, confidence := confidence })
        else pure none : Proc (Option RouteDecision)) es (.ok out)) :
    es = [] ∧ out.isSome = reaches d r key confidence ∧
      ∀ decision, out = some decision → decision.confidence = confidence := by
  unfold reaches
  cases hkey : r.getByKeyExact d.lower key with
  | none =>
    rw [hkey] at h
    obtain ⟨rfl,hout⟩ := Runs.of_pure h
    obtain rfl := Except.ok.inj hout
    exact ⟨rfl,rfl,by simp⟩
  | some a =>
    rw [hkey] at h
    dsimp only at h ⊢
    by_cases hpick : (a.spec.routing.routerSelectable &&
        decide (a.spec.routing.confidenceThreshold ≤ confidence)) = true
    · rw [if_pos hpick] at h
      obtain ⟨rfl,hout⟩ := Runs.of_pure h
      obtain rfl := Except.ok.inj hout
      refine ⟨rfl,hpick.symm,?_⟩
      rintro decision ⟨⟩
      rfl
    · rw [if_neg hpick] at h
      obtain ⟨rfl,hout⟩ := Runs.of_pure h
      obtain rfl := Except.ok.inj hout
      exact ⟨rfl,(Bool.eq_false_iff.mpr hpick).symm,by simp⟩

variable (es') in
/-- Gate 4 answers with the confidence of the answer that it accepts, and passes on where it accepts
none. -/
theorem modelRoute_runs {c : ConversationId} {out : Option RouteDecision}
    (h : Runs (modelRoute d c) es (.ok out)) :
    (∀ decision, out = some decision → ∃ key, accepted d es = some (key,decision.confidence)) ∧
      (out = none → accepted d (es ++ es') = none) := by
  unfold modelRoute at h
  rcases Runs.of_bind h with ⟨e,-,hout⟩ | ⟨r,es₁,es₂,hask,hrest,rfl⟩
  · cases hout
  · obtain ⟨answer,hperform,hr⟩ := Runs.of_attempt hask
    obtain rfl := Except.ok.inj hr
    obtain rfl := Runs.of_perform hperform
    rcases r with e | - | ⟨key,confidence⟩
    · obtain ⟨rfl,hout⟩ := Runs.of_pure hrest
      obtain rfl := Except.ok.inj hout
      exact ⟨by simp,fun _ => rfl⟩
    · obtain ⟨rfl,hout⟩ := Runs.of_pure hrest
      obtain rfl := Except.ok.inj hout
      exact ⟨by simp,fun _ => rfl⟩
    · rcases Runs.of_bind hrest with ⟨e,-,hout⟩ | ⟨r,es₃,es₄,hsnapshot,hpick,rfl⟩
      · cases hout
      · obtain rfl := Runs.of_perform hsnapshot
        obtain ⟨rfl,hsome,hconfidence⟩ := pick_runs hpick
        have haccepted : ∀ rest, accepted d ([⟨.routerModel c,.ok (some (key,confidence))⟩,⟨.snapshot,.ok r⟩] ++
            rest) = if reaches d r key confidence then some (key,confidence) else none := fun _ => rfl
        refine ⟨?_,?_⟩
        · rintro decision rfl
          rw [hconfidence decision rfl]
          exact ⟨key,(haccepted []).trans (if_pos hsome.symm)⟩
        · rintro rfl
          exact (haccepted es').trans (if_neg (by simp [← hsome]))

theorem selectFree_decides (conv : Conversation) (inp : TurnInput) : Decides d (selectFree d conv inp) := by
  unfold selectFree
  refine Decides.bind ((all_perform _).mpr trivial) fun r => ?_
  refine Decides.bind ?_ fun hits => ?_
  · split
    · trivial
    · exact All.bind (Within.aside (@textOnly_calls [] _).within (by decide)) fun _ => trivial
  · cases maxPriority hits with
    | some a => exact Decides.pure (.inl rfl)
    | none =>
      intro es decision h
      rcases Runs.of_bind h with ⟨e,-,hout⟩ | ⟨out,es₁,es₂,hroute,hrest,rfl⟩
      · cases hout
      · obtain ⟨hsome,hnone⟩ := modelRoute_runs es₂ hroute
        cases out with
        | some decision' =>
          obtain ⟨rfl,hout⟩ := Runs.of_pure hrest
          obtain rfl := Except.ok.inj hout
          rw [List.append_nil]
          exact .inl (hsome decision rfl)
        | none =>
          rcases Runs.of_bind hrest with ⟨e,-,hout⟩ | ⟨r,es₃,es₄,-,hdefault,rfl⟩
          · cases hout
          · obtain ⟨rfl,hout⟩ := Runs.of_pure hdefault
            obtain rfl := Except.ok.inj hout
            exact .inr ⟨hnone rfl,.inr rfl⟩

theorem selectExplicit_decides (conv : Conversation) (inp : TurnInput) (key : Json) :
    Decides d (selectExplicit d conv inp key) := by
  unfold selectExplicit
  refine Decides.bind ((all_perform _).mpr trivial) fun r => ?_
  refine Decides.bind (Within.aside (@registryGet_calls [] _ _).within (by decide)) ?_
  rintro (_ | a)
  · exact Decides.throw
  · dsimp only
    split
    · exact Decides.throw
    · refine Decides.bind (textOr_aside _) fun text => ?_
      split
      · exact exitToDefault_decides _
      · exact Decides.pure (.inl rfl)

theorem selectPinned_decides (conv : Conversation) (inp : TurnInput) :
    Decides d (selectPinned d conv inp) := by
  unfold selectPinned
  refine Decides.bind (pinFor_aside conv) ?_
  rintro (_ | a)
  · exact selectFree_decides conv inp
  · refine Decides.bind (textOr_aside _) fun text => ?_
    split
    · exact exitToDefault_decides _
    · exact Decides.pure (.inl rfl)

theorem select_decides (conv : Conversation) (inp : TurnInput) : Decides d (select d conv inp) := by
  unfold select
  split
  · split
    · exact selectExplicit_decides conv inp _
    · exact selectPinned_decides conv inp
  · exact selectPinned_decides conv inp

theorem routed_eq_some {e : (o : Op) × Except Exn o.Ans} {r : Except Exn (Option (Option String × PyFloat))}
    (h : routed e = some r) : ∃ c, e = ⟨.routerModel c,r⟩ := by
  rcases e with ⟨o,r'⟩
  cases o with
  | routerModel c =>
    obtain rfl := Option.some.inj h
    exact ⟨c,rfl⟩
  | _ => cases h

theorem registered_eq_some {e : (o : Op) × Except Exn o.Ans} {r : AgentRegistry}
    (h : registered e = some r) : e = ⟨.snapshot,.ok r⟩ := by
  rcases e with ⟨o,r'⟩
  cases o with
  | snapshot =>
    cases r' with
    | error e => cases h
    | ok r' =>
      obtain rfl := Option.some.inj h
      rfl
  | _ => cases h

/-- An accepted answer is the router model's, and reaches the threshold of an agent of a snapshot. -/
theorem accepted_mem {key : Option String} {confidence : PyFloat} (h : accepted d es = some (key,confidence)) :
    (∃ c, ⟨.routerModel c,.ok (some (key,confidence))⟩ ∈ es) ∧
      ∃ r, ⟨.snapshot,.ok r⟩ ∈ es ∧ reaches d r key confidence = true := by
  induction es with
  | nil => cases h
  | cons e es ih =>
    rw [accepted] at h
    split at h
    · obtain ⟨⟨c,hc⟩,r,hr,hreaches⟩ := ih h
      exact ⟨⟨c,List.mem_cons_of_mem _ hc⟩,r,List.mem_cons_of_mem _ hr,hreaches⟩
    · rename_i answer he
      obtain ⟨c,rfl⟩ := routed_eq_some he
      obtain ⟨r,hr,hpick⟩ := Option.bind_eq_some_iff.mp h
      obtain ⟨e',he',hregistered⟩ := Option.bind_eq_some_iff.mp hr
      split at hpick
      · obtain rfl := Option.some.inj hpick
        obtain rfl := registered_eq_some hregistered
        exact ⟨⟨c,List.mem_cons_self⟩,r,List.mem_cons_of_mem _ (List.mem_of_head? he'),by assumption⟩
      · cases hpick
    · cases h

theorem le_of_reaches {r : AgentRegistry} {key : Option String} {confidence : PyFloat}
    (hthreshold : ∀ a ∈ r.snapshot, a.spec.routing.checkThreshold = true)
    (h : reaches d r key confidence = true) : 0 ≤ confidence := by
  unfold reaches at h
  cases hkey : r.getByKeyExact d.lower key with
  | none => simp [hkey] at h
  | some a =>
    rw [hkey] at h
    have hcheck := hthreshold a (getByKeyExact_mem hkey)
    simp only [RoutingSpec.checkThreshold,Bool.and_eq_true,decide_eq_true_eq] at h hcheck
    exact PyFloat.finite_le_of_le hcheck.1 h.2

end Accepting

/-- A probability, with which a row is stored that is stored without it. -/
structure Probable (confidence : PyFloat) : Prop where
  nonneg : 0 ≤ confidence
  le_one : confidence ≤ 1
  stored : ∀ m : Message, m.new.routeConfidence = some confidence →
    Message.constraints.check { m with new := { m.new with routeConfidence := none } } = true →
    Message.constraints.check m = true

theorem probable_iff {confidence : PyFloat} : Probable confidence ↔ 0 ≤ confidence ∧ confidence ≤ 1 := by
  constructor
  · intro h
    exact ⟨h.nonneg,h.le_one⟩
  · rintro ⟨hnonneg,hle⟩
    refine ⟨hnonneg,hle,fun m hm hcheck => ?_⟩
    have hother : m.storable = ({ m with new := { m.new with routeConfidence := none } } : Message).storable := rfl
    simp only [Message.constraints,hm,Option.all_some,Option.all_none,hother,hnonneg,hle,decide_true,
      Bool.and_true] at hcheck ⊢
    exact hcheck

end RouterService

namespace Sample

/-- A text of the router model that names the interview. -/
def claiming (literal : String) : String :=
  "\x7b\"agent_key\": \"story\", \"confidence\": " ++ literal ++ "\x7d"

/-- How such a text is read. -/
def router (literal : String) (value : PyFloat) : RouterBuiltins where
  jsonRepair raw := .ok (if raw = claiming literal then
    .obj [("agent_key",.str "story"),("confidence",.num literal)] else .str "")
  floatOfNum l := if l = literal then .ok value else .error (.python "ValueError" "could not convert")
  floatOfStr _ := .error (.python "ValueError" "could not convert")

theorem readRouted_claiming (literal : String) (value : PyFloat) :
    RouterService.readRouted (router literal value) (claiming literal) = .ok (some (some "story",value)) := by
  have hrepair : (router literal value).jsonRepair (claiming literal) =
      .ok (.obj [("agent_key",.str "story"),("confidence",.num literal)]) := congrArg _ (if_pos rfl)
  have hfloat : (router literal value).floatOfNum literal = .ok value := if_pos rfl
  unfold RouterService.readRouted
  rw [hrepair]
  change (do
    let confidence ← (router literal value).floatOfNum literal
    pure (some (← RouterService.keyOf (.str "story"),confidence)) : Except Exn _) = _
  rw [hfloat]
  rfl

/-- No text is read as anything but that. -/
theorem eq_of_readRouted {literal raw : String} {value confidence : PyFloat} {key : Option String}
    (h : RouterService.readRouted (router literal value) raw = .ok (some (key,confidence))) :
    confidence = value ∨ confidence = 0 := by
  by_cases hraw : raw = claiming literal
  · rw [hraw,readRouted_claiming] at h
    cases h
    exact .inl rfl
  · have hrepair : (router literal value).jsonRepair raw = .ok (.str "") := congrArg _ (if_neg hraw)
    unfold RouterService.readRouted at h
    rw [hrepair] at h
    cases h
    exact .inr rfl

def agents : AgentRegistry := ⟨[assistant,interviewer]⟩

/-- A first message, on which the router model claims this confidence. -/
def unsure (value : PyFloat) : Unnamed where
  conv := { id := 1, tenantCode := "default", externalUserId := "user", createdAt := 0 }
  user := caller
  text := "Hello"
  model := .ok (some (some "story",value))
  unnamed := unnamed_none

/-- The calls of the gates on that message. -/
def asked (value : PyFloat) : Trace Op Op.Ans Exn :=
  ((RouterService.select deployment (unsure value).conv (unsure value).input).calls
    ((unsure value).answers agents)).map fun o => ⟨o,(unsure value).answers agents o⟩

theorem asked_raw {literal : String} {value : PyFloat} {c : ConversationId}
    {r : Except Exn (Option (Option String × PyFloat))} (h : ⟨.routerModel c,r⟩ ∈ asked value) :
    ∃ output : Except Exn String, r = output.bind (RouterService.readRouted (router literal value)) := by
  obtain ⟨o,-,ho⟩ := List.mem_map.mp h
  cases ho
  exact ⟨.ok (claiming literal),(readRouted_claiming literal value).symm⟩

theorem asked_threshold {value : PyFloat} {r : AgentRegistry} (h : ⟨.snapshot,.ok r⟩ ∈ asked value) :
    ∀ a ∈ r.snapshot, a.spec.routing.checkThreshold = true := by
  obtain ⟨o,-,ho⟩ := List.mem_map.mp h
  cases ho
  decide +kernel

end Sample

namespace RouterService

/-- For every text of the router model and every run of the gates that hands the turn on, the confidence
is a probability, and the reply's row can take it, exactly when the text that gate 4 accepts, if there is
one, claims no more than one. -/
theorem confidence_probable_iff (b : RouterBuiltins) (d : Deployment) (conv : Conversation)
    (inp : TurnInput) {es : Trace Op Op.Ans Exn} {decision : RouteDecision}
    (h : Runs (select d conv inp) es (.ok decision))
    (hraw : ∀ c r, ⟨.routerModel c,r⟩ ∈ es → ∃ output : Except Exn String, r = output.bind (readRouted b))
    (hthreshold : ∀ r, ⟨.snapshot,.ok r⟩ ∈ es → ∀ a ∈ r.snapshot, a.spec.routing.checkThreshold = true) :
    Probable decision.confidence ↔
      ∀ raw key confidence, readRouted b raw = .ok (some (key,confidence)) →
        accepted d es = some (key,confidence) → confidence ≤ 1 := by
  rw [probable_iff]
  rcases select_decides conv inp es decision h with ⟨key,haccepted⟩ | ⟨hnone,hfixed⟩
  · obtain ⟨⟨c,hc⟩,r,hr,hreaches⟩ := accepted_mem haccepted
    obtain ⟨output,houtput⟩ := hraw c _ hc
    constructor
    · rintro ⟨-,hle⟩ raw key' confidence - haccepted'
      cases haccepted.symm.trans haccepted'
      exact hle
    · intro hle
      refine ⟨le_of_reaches (hthreshold r hr) hreaches,?_⟩
      cases output with
      | error e => cases houtput
      | ok raw => exact hle raw key decision.confidence houtput.symm haccepted
  · constructor
    · rintro - raw key confidence - haccepted
      cases hnone.symm.trans haccepted
    · intro
      rcases hfixed with hone | hzero
      · rw [hone]
        decide
      · rw [hzero]
        decide

/-- A text that claims nine tenths is handed on with a probability. -/
theorem confidence_probable_iff_modest : ∃ decision,
    (select Sample.deployment (Sample.unsure ↑(9/10 : ℚ)).conv (Sample.unsure ↑(9/10 : ℚ)).input).answered
      ((Sample.unsure ↑(9/10 : ℚ)).answers Sample.agents) = .ok decision ∧ Probable decision.confidence := by
  obtain ⟨decision,hrun,-⟩ := select_answered (i := Sample.unsure ↑(9/10 : ℚ)) (r := Sample.agents)
    (d := Sample.deployment)
  refine ⟨decision,hrun,?_⟩
  have hruns := Runs.answered ((Sample.unsure ↑(9/10 : ℚ)).answers Sample.agents)
    (select Sample.deployment (Sample.unsure ↑(9/10 : ℚ)).conv (Sample.unsure ↑(9/10 : ℚ)).input)
  rw [hrun] at hruns
  refine (confidence_probable_iff (Sample.router "0.9" ↑(9/10 : ℚ)) _ _ _ hruns
    (fun _ _ => Sample.asked_raw) fun _ => Sample.asked_threshold).mpr ?_
  rintro raw key confidence hread -
  rcases Sample.eq_of_readRouted hread with rfl | rfl <;> decide +kernel

/-- A text that claims ninety is handed on with it, and no row can take it. -/
theorem confidence_ninety :
    readRouted (Sample.router "90" 90) (Sample.claiming "90") = .ok (some (some "story",90)) ∧
    ∃ decision, Runs (select Sample.deployment (Sample.unsure 90).conv (Sample.unsure 90).input)
        (Sample.asked 90) (.ok decision) ∧
      (∀ c r, ⟨.routerModel c,r⟩ ∈ Sample.asked 90 →
        ∃ output : Except Exn String, r = output.bind (readRouted (Sample.router "90" 90))) ∧
      (∀ r, ⟨.snapshot,.ok r⟩ ∈ Sample.asked 90 → ∀ a ∈ r.snapshot, a.spec.routing.checkThreshold = true) ∧
      decision.confidence = 90 ∧ ¬ Probable decision.confidence := by
  refine ⟨Sample.readRouted_claiming "90" 90,?_⟩
  have hruns := Runs.answered ((Sample.unsure 90).answers Sample.agents)
    (select Sample.deployment (Sample.unsure 90).conv (Sample.unsure 90).input)
  have hconfidence : ((select Sample.deployment (Sample.unsure 90).conv (Sample.unsure 90).input).answered
      ((Sample.unsure 90).answers Sample.agents)).toOption.map (·.confidence) = some 90 := by decide +kernel
  cases hrun : (select Sample.deployment (Sample.unsure 90).conv (Sample.unsure 90).input).answered
      ((Sample.unsure 90).answers Sample.agents) with
  | error e =>
    rw [hrun] at hconfidence
    cases hconfidence
  | ok decision =>
    rw [hrun] at hconfidence hruns
    have hninety : decision.confidence = 90 := Option.some.inj hconfidence
    refine ⟨decision,hruns,fun _ _ => Sample.asked_raw,fun _ => Sample.asked_threshold,hninety,?_⟩
    rw [probable_iff,hninety]
    decide

end RouterService
end Saarathi
