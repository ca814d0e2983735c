import Saarathi.PromptHistory

/-!
# The rate limit of a conversation

`RateLimits.check` counts the user messages of the last minute, the turn's own
among them. The messages of refused turns are counted as those of accepted ones
are.
-/

namespace Saarathi

open ReadCommitted Machine Program Program.Prog Interleaving

abbrev TurnMessages.Config := Interleaving.Config ((World × Admissions) × TurnNotes) Conn Op Op.Ans Exn Response

/-- The message was created in the minute before `now`. -/
def Message.inMinute (now : ℕ) (m : Message) : Bool := now < m.createdAt + 60

namespace RateCheck

variable (e : RateCheck) (p : ℕ)

def conversationId : ConversationId := e.message.new.conversationId

/-- The user messages of the preceding minute that are stored beside the turn's own. -/
def stored : ℕ := (e.before.filter fun m => m.new.role = .user && m.inMinute e.message.createdAt).length

/-- The answer that was counted. -/
def answer : (o : Op) → Except Exn o.Ans
  | .stmt (.countRecentUser _) => .ok e.count
  | _ => .error .refused

/-- The check lets the turn pass, under this limit. -/
def accepted : Bool :=
  match (OrchestrationService.checkRate e.conversationId p).answered e.answer with
  | .ok _ => true
  | .error _ => false

/-- How many of these turns were accepted in the minute before `e`, on its conversation. -/
def acceptedIn (checks : List RateCheck) : ℕ :=
  (checks.filter fun e' => decide (e'.conversationId = e.conversationId) &&
    e'.message.inMinute e.message.createdAt && e'.accepted p).length

variable {e p}

theorem accepted_iff (hp : 0 < p) : e.accepted p = true ↔ e.count ≤ p := by
  have hcheck : (OrchestrationService.checkRate e.conversationId p).answered e.answer =
      if p < e.count then .error (.turnLimitExceeded "rate_limit_per_conversation_per_min"
        "You're sending messages too quickly. Please wait a moment.") else .ok () := by
    have hasked : (OrchestrationService.checkRate e.conversationId p).answered e.answer =
        (if p < e.count then throw (.turnLimitExceeded "rate_limit_per_conversation_per_min"
          "You're sending messages too quickly. Please wait a moment.") else pure () : Proc Unit).answered e.answer := by
      cases p with
      | zero => cases hp
      | succ n => rfl
    rw [hasked]
    by_cases hlt : p < e.count
    · rw [if_pos hlt,if_pos hlt,answered_throw]
    · rw [if_neg hlt,if_neg hlt,answered_pure]
  rw [accepted,hcheck]
  by_cases hlt : p < e.count
  · simp [hlt]
  · simp [hlt,Nat.le_of_not_lt hlt]

end RateCheck

/-- `now()` is the same throughout a transaction: the count is taken at the time of the turn's own message. -/
def OneNow (k : TurnMessages.Config) : Action → Prop
  | .call x (.db (.go p)) => ∀ o ∈ k.nextCall x, o.role = .count → ∀ m ∈ (k.world.2.stage x).live, p.now = m.createdAt
  | _ => True

instance (k : TurnMessages.Config) : (a : Action) → Decidable (OneNow k a)
  | .call x (.db (.go p)) => inferInstanceAs (Decidable (∀ o ∈ k.nextCall x, o.role = .count →
      ∀ m ∈ (k.world.2.stage x).live, p.now = m.createdAt))
  | .call _ (.db .reject) => isTrue trivial
  | .call _ .ok => isTrue trivial
  | .call _ (.raise _) => isTrue trivial
  | .call _ (.executedRaise _) => isTrue trivial
  | .call _ (.text _) => isTrue trivial
  | .call _ (.optText _) => isTrue trivial
  | .call _ (.flag _) => isTrue trivial
  | .call _ (.rows _) => isTrue trivial
  | .call _ (.story _ _) => isTrue trivial
  | .call _ (.routed _) => isTrue trivial
  | .call _ (.reply _) => isTrue trivial
  | .call _ (.connect _ _ _) => isTrue trivial
  | .call _ (.schedule _) => isTrue trivial
  | .start .. => isTrue trivial
  | .finish _ => isTrue trivial
  | .env _ => isTrue trivial

namespace RateWindow

variable {d : Deployment} {w : World} {k k' : TurnMessages.Config} {x : Conn} {db db' : Database}
  {l : TurnStage} {s : Admissions} {c : ConversationId} {m : Message} {n : ℕ} {pick : Pick}

/-- The count takes in the turn's own message. -/
theorem count_of_effect (hfit : l.Fit db x) (hf : s.Fit d db) (hm : l.live = some m) (hc : m.new.conversationId = c)
    (hnow : pick.now = m.createdAt) (he : (Stmt.countRecentUser c).effect d.adapt db x pick = .ok (n,db')) :
    db' = db ∧ n = RateCheck.stored ⟨m,db.earlier x m,n⟩ + 1 := by
  obtain ⟨hn,hdb⟩ := Prod.mk.inj (Effect.ok.inj he)
  refine ⟨hdb.symm,?_⟩
  have hown : (decide (m.new.role = .user) && decide (pick.now < m.createdAt + 60)) = true := by
    rw [(hfit.stored m hm).1,hnow]
    simp
  rw [← hn,← hc,hfit.transcript hf hm,List.filter_append,List.filter_singleton,hown,RateCheck.stored,hnow]
  simp [Message.inMinute]

/-- An answered count is recorded, with its turn's message. -/
theorem recorded_of_answered {cont : Except Exn (Op.Ans (.stmt (.countRecentUser c))) → Proc Response} {ch : Choice}
    {w' : (World × Admissions) × TurnNotes}
    (hbase : (MessageNumbers.outline d).Inv k.forget) (hinv : (TurnMessages.outline d).Inv k)
    (hx : k.procs x = some (.call (.stmt (.countRecentUser c)) cont))
    (he : (turnMessages d).exec k.world x (.stmt (.countRecentUser c)) ch = some (.ok n,w')) :
    ∃ e, w'.2.checks = k.world.2.checks ++ [e] ∧ e.conversationId = c ∧ e.count = n ∧
      (OneNow k (.call x ch) → e.count = e.stored + 1) := by
  obtain ⟨he,hw⟩ := exec_observing he
  obtain ⟨he,-⟩ := exec_noting he
  obtain ⟨pick,rfl,htx,heffect⟩ := World.effect_of_exec he
  have hfit := hinv.1 x
  have hf : k.world.1.2.Fit d k.world.1.1.db := hbase.1
  obtain ⟨text,hready⟩ : ∃ text, (k.world.2.stage x).Ready c text := (TurnMessages.outline d).pre_of_call hinv hx
  rcases hready with hfailed | ⟨m,hm,hsaid⟩
  · exact absurd htx (hfit.stopped hfailed)
  have hdb : w'.1.1.db = k.world.1.1.db := ((Prod.mk.inj (Effect.ok.inj heffect)).2).symm
  have hchecks : w'.2.checks = k.world.2.checks ++ [⟨m,k.world.1.1.db.earlier x m,n⟩] := by
    rw [hw,← hdb]
    simp only [TurnNotes.after,Op.rateChecks,hm]
    rfl
  refine ⟨_,hchecks,hsaid.conversationId,rfl,fun hok => ?_⟩
  have hnow : pick.now = m.createdAt := hok _ (Config.nextCall_eq hx) rfl m hm
  exact (count_of_effect hfit hf hm hsaid.conversationId hnow heffect).2

/-- No other call records a check. -/
theorem checks_of_exec {o : Op} {ch : Choice} {r : Except Exn o.Ans} {w w' : (World × Admissions) × TurnNotes}
    (h : (turnMessages d).exec w x o ch = some (r,w')) :
    w'.2.checks = w.2.checks ∨ ∃ c n, (⟨o,r⟩ : (o : Op) × Except Exn o.Ans) = ⟨.stmt (.countRecentUser c),.ok n⟩ := by
  obtain ⟨-,hw⟩ := exec_observing h
  have hnone : o.rateChecks w'.1.1.db x (w.2.stage x) r = [] ∨
      ∃ c n, (⟨o,r⟩ : (o : Op) × Except Exn o.Ans) = ⟨.stmt (.countRecentUser c),.ok n⟩ := by
    cases o with
    | stmt st =>
      cases st with
      | countRecentUser c =>
        cases r with
        | error e => exact .inl rfl
        | ok n => exact .inr ⟨c,n,rfl⟩
      | _ => exact .inl rfl
    | _ => exact .inl rfl
  refine hnone.imp_left fun hnil => ?_
  rw [hw]
  simp only [TurnNotes.after,hnil,List.append_nil]

/-- In every run each check counts the stored messages and the turn's own. -/
theorem count_eq (hw : w.AtRest)
    (hconv : w.db.conversations.Settled Conversation.constraints Conversation.Keyed) (hnum : w.db.MessagesNumbered)
    (h : Reach (step (turnMessages d)) OneNow (idle ((w,{}),{})) k) :
    ∀ e ∈ k.world.2.checks, e.count = e.stored + 1 := by
  induction h with
  | refl =>
    intro e he
    cases he
  | next h hok hs ih =>
    obtain ⟨hbase,hinv⟩ := TurnMessages.inv_of_reach hw hconv hnum h
    cases stepped_of_step hs with
    | start hx => exact ih
    | finish hx hp => exact ih
    | env he =>
      obtain ⟨-,hnotes⟩ := env_observing he
      intro e hmem
      exact ih e (hnotes ▸ hmem)
    | call hx hcall =>
      rcases checks_of_exec hcall with hsame | ⟨c,n,hcount⟩
      · intro e he
        exact ih e (hsame ▸ he)
      · obtain ⟨rfl,hr⟩ := Sigma.mk.inj_iff.mp hcount
        obtain rfl := eq_of_heq hr
        obtain ⟨e',hchecks,-,-,hexact⟩ := recorded_of_answered hbase hinv hx hcall
        intro e he
        rcases List.mem_append.mp (hchecks ▸ he) with he | he
        · exact ih e he
        · obtain rfl := List.mem_singleton.mp he
          exact hexact hok

end RateWindow

namespace Sample

/-- One turn in a minute. -/
def limited : RegisteredAgent :=
  { assistant with spec := { assistant.spec with limits := { rateLimitPerConversationPerMin := 1 } } }

def limitedWorld : World := { world with registry := ⟨[limited]⟩ }

theorem limitedWorld_atRest : limitedWorld.AtRest := by constructor <;> intro <;> rfl

/-- Every call goes through, at this time. -/
def smoothAt (now : ℕ) (w : World) : Op → Choice
  | .stmt _ => .db (.go { id := freshId w, now := now })
  | o => smooth w o

/-- A request that is served alone at this time. -/
def servedAt (now : ℕ) (req : Req) : List (Cue ((World × Admissions) × TurnNotes) Conn Req Choice World.EnvAct Op) :=
  [.act (.start 0 req),.serve 0 (fun w o => smoothAt now w.1.1 o) 60,.act (.finish 0)]

/-- Turns at 0, 30 and 61 seconds. -/
def insisting : List (Cue ((World × Admissions) × TurnNotes) Conn Req Choice World.EnvAct Op) :=
  servedAt 0 (turn "hi" "assistant" .absent) ++ servedAt 30 (turn "hi" "assistant" (.id 0)) ++
    servedAt 61 (turn "hi" "assistant" (.id 0))

theorem exists_insisting : ∃ k earlier e, Reach (step (turnMessages deployment)) OneNow (idle ((limitedWorld,{}),{})) k ∧
    k.world.2.checks = earlier ++ [e] ∧
      earlier.map (fun e => (e.message.createdAt,e.accepted 1)) = [(0,true),(30,false)] ∧ e.message.createdAt = 61 ∧
      e.acceptedIn 1 earlier = 0 ∧ e.accepted 1 = false := by
  have hrun : ((play (turnMessages deployment) OneNow insisting (idle ((limitedWorld,{}),{}))).any fun k =>
      k.world.2.checks.getLast?.any fun e => decide (k.world.2.checks.dropLast.map (fun e =>
        (e.message.createdAt,e.accepted 1)) = [(0,true),(30,false)] ∧ e.message.createdAt = 61 ∧
          e.acceptedIn 1 k.world.2.checks.dropLast = 0 ∧ e.accepted 1 = false)) = true := by
    decide +kernel
  obtain ⟨k,hr,hP⟩ := exists_reach_of_play hrun
  obtain ⟨e,he,hP⟩ := (Option.any_eq_true _ _).mp hP
  obtain ⟨earlier,hchecks⟩ := List.getLast?_eq_some_iff.mp he
  rw [hchecks,List.dropLast_concat] at hP
  exact ⟨k,earlier,e,hr,hchecks,of_decide_eq_true hP⟩

end Sample

end Saarathi
