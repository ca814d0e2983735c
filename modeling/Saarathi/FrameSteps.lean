import Saarathi.StoredReplies

/-!
# The step of a session

Every frame has a step once it is parsed, also where Mitra reported none. This module
says when the session's step is nevertheless the one that Mitra reported last.
-/

namespace Saarathi

open Channel FrameParser Machine

namespace FrameParser

variable (b : Builtins)

/-- The step that a message reports: what `int` makes of the field of a text envelope. -/
def reported (m : Raw) : Option ℤ := match b.jsonLoads m with
  | .ok (.obj payload) => match Json.get payload "text" with
    | .obj text => match int b (Json.get text "step") with
      | .ok n => some n
      | .error _ => none
    | _ => none
  | _ => none

/-- The last step that these messages report. -/
def lastReported (ms : List Raw) : Option ℤ := ms.foldl (fun n m => reported b m <|> n) none

variable {b}

theorem parseLegacyEnvelope_step_eq {raw : List (String × Json)} : (parseLegacyEnvelope b raw).step = some 0 := by
  unfold parseLegacyEnvelope
  by_cases hsys : envelopeType b raw ∈ legacySystemTypes
  · simp only [if_pos hsys]
  by_cases hopt : envelopeType b raw ∈ legacyOptionTypes
  · simp only [if_neg hsys,if_pos hopt]
  by_cases hbot : envelopeType b raw ∈ legacyBotTypes ∨ envelopeType b raw = "text"
  · simp only [if_neg hsys,if_neg hopt,if_pos hbot]
  · simp only [if_neg hsys,if_neg hopt,if_neg hbot]

theorem parseTextEnvelope_step_eq {text : List (String × Json)} {f : Frame} (h : parseTextEnvelope b text = .ok f) :
    f.step = some (match int b (Json.get text "step") with | .ok n => n | .error _ => 0) := by
  have hn : coerceInt b (Json.get text "step") =
      .ok (match int b (Json.get text "step") with | .ok n => n | .error _ => 0) := by
    cases hc : coerceInt b (Json.get text "step") with
    | error e => simp [parseTextEnvelope,hc] at h
    | ok n =>
      unfold coerceInt at hc
      split at hc
      · rename_i k hk
        rw [hk]
        exact hc.symm
      · rename_i hint
        split at hc
        · rw [hint]
          exact hc.symm
        · cases hc
      · cases hc
  unfold parseTextEnvelope at h
  rw [hn] at h
  dsimp only at h
  split at h
  · obtain rfl := Except.ok.inj h
    rfl
  split at h
  · obtain rfl := Except.ok.inj h
    rfl
  · obtain rfl := Except.ok.inj h
    rfl

/-- A frame's step is the one that its message reports, and 0 where it reports none. -/
theorem parse_step_eq {m : Raw} : (parse b m).step = some ((reported b m).getD 0) := by
  unfold parse reported
  cases b.jsonLoads m with
  | error e => rfl
  | ok v =>
    cases v with
    | obj payload =>
      simp only [parsePayload]
      cases ht : Json.get payload "text" with
      | obj text =>
        dsimp only
        cases hp : parseTextEnvelope b text with
        | ok f =>
          have hf := parseTextEnvelope_step_eq hp
          dsimp only
          rw [hf]
          cases int b (Json.get text "step") <;> rfl
        | error e =>
          have hint : ∀ n, int b (Json.get text "step") ≠ .ok n := by
            intro n hn
            simp only [parseTextEnvelope,coerceInt,hn] at hp
            split at hp
            · cases hp
            split at hp
            · cases hp
            · cases hp
          cases hi : int b (Json.get text "step") with
          | ok n => exact absurd hi (hint n)
          | error e => rfl
      | str text => rfl
      | _ =>
        dsimp only
        split
        · exact parseLegacyEnvelope_step_eq
        · rfl
    | _ => rfl

theorem lastReported_concat {ms : List Raw} {m : Raw} :
    lastReported b (ms ++ [m]) = (reported b m <|> lastReported b ms) := by
  simp only [lastReported,List.foldl_append,List.foldl_cons,List.foldl_nil]

end FrameParser

/-- A call that read these bot frames ended: with a reply, or with nothing when its time was over. -/
inductive Ended (c : Chan) : List Arrival → Option BotTurn → Prop
  | replied {n : ℕ} {used : List Arrival} {t : BotTurn} (h : Outcome.returned n used t ∈ c.outcomes) :
      Ended c used (some t)
  | timedOut {l : Loop} (hpc : c.pc = some (.checking l))
      (h : c.check l = c.finish (.raised l.turn (.mitra (.turnTimeout l.step)))) : Ended c l.used none

/-- What a turn of a session is made of besides its frames. -/
structure TurnContext where
  remote : RemoteSpec
  view : AgentSessionView
  finished : Bool
  recovered : String
  now : ℕ

namespace TurnContext

variable (r : TurnContext) (session : AgentSession)

/-- The turn of the handler, or the one that is recovered where the call timed out. -/
def turn : Option BotTurn → AgentTurn
  | some bot => RemoteFlowAgentHandler.turnOf r.remote r.view bot r.finished
  | none => OrchestrationService.recoveredTurn r.remote session r.recovered r.finished

/-- The session after the turn's delta. -/
def apply (reply : Option BotTurn) : AgentSession := match (r.turn session reply).sessionDelta with
  | some delta => delta.fields.assign delta.state r.now session
  | none => session

end TurnContext

/-- When the step follows these messages: the last of them reports its step, or the step to keep is 0; a
recovered turn leaves the step alone. -/
def Follows (b : Builtins) (ms : List Raw) (step : ℤ) : Option BotTurn → Prop
  | some _ => ∀ m, ms.getLast? = some m → reported b m = none → (lastReported b ms).getD step = 0
  | none => ∀ n, lastReported b ms = some n → n = step

section Steps

variable {b : Builtins} {c₀ c : Chan} {used : List Arrival} {ms : List Raw}

theorem assemble_step_parsed (hms : used.map (·.frame) = ms.map fun m => (parse b m).toFrame) :
    (assemble used).step = ms.getLast?.map fun m => (reported b m).getD 0 := by
  have hsome : ∀ a ∈ used, a.frame.step.isSome = true := by
    intro a ha
    have hmem : a.frame ∈ ms.map fun m => (parse b m).toFrame := hms ▸ List.mem_map_of_mem ha
    obtain ⟨m,-,hm⟩ := List.mem_map.mp hmem
    rw [← hm,parse_step_eq]
    rfl
  have hlast : used.getLast?.map (·.frame) = ms.getLast?.map fun m => (parse b m).toFrame := by
    rw [← List.getLast?_map,hms,List.getLast?_map]
  rw [assemble_step hsome]
  have hbind : used.getLast?.bind (·.frame.step) = (used.getLast?.map (·.frame)).bind (·.step) := by
    cases used.getLast? <;> rfl
  rw [hbind,hlast]
  cases ms.getLast? with
  | none => rfl
  | some m => exact parse_step_eq

/-- The step after a turn that ended with a reply. -/
theorem apply_step (h₀ : Fresh c₀) (h : Reach Chan.step anyAct c₀ c) {n : ℕ} {t : BotTurn}
    (ht : Outcome.returned n used t ∈ c.outcomes) (hms : used.map (·.frame) = ms.map fun m => (parse b m).toFrame)
    (r : TurnContext) (session : AgentSession) :
    (r.apply session (some t)).step = (ms.getLast?.map fun m => (reported b m).getD 0).getD session.step := by
  rw [← assemble_step_parsed hms,← built_of_reach h₀ h ht]
  rfl

/-- After the turn's delta the session's step is the last one that Mitra reported in the turn, exactly where
the step follows the turn's messages. -/
theorem step_follows_iff (b : Builtins) {c₀ c : Chan} (h₀ : Fresh c₀) (h : Reach Chan.step anyAct c₀ c)
    {used : List Arrival} {reply : Option BotTurn} (he : Ended c used reply) {ms : List Raw}
    (hms : used.map (·.frame) = ms.map fun m => (parse b m).toFrame) (r : TurnContext) (session : AgentSession) :
    (r.apply session reply).step = (lastReported b ms).getD session.step ↔ Follows b ms session.step reply := by
  cases he with
  | replied ht =>
    rw [apply_step h₀ h ht hms]
    rcases List.eq_nil_or_concat ms with rfl | ⟨ms,m,rfl⟩
    · simp [Follows,lastReported]
    rw [List.concat_eq_append,List.getLast?_concat,lastReported_concat]
    simp only [Follows,List.getLast?_concat,lastReported_concat,Option.map_some,Option.getD_some]
    cases hm : reported b m with
    | some k => simp [hm]
    | none => simp [hm,eq_comm]
  | timedOut hpc hcheck =>
    have hstep : (r.apply session none).step = session.step := rfl
    rw [hstep]
    simp only [Follows]
    cases lastReported b ms with
    | none => simp
    | some k => simp [eq_comm]

end Steps

def stepText : String := "\x7b\"text\": \x7b\"msg\": \"Hello\", \"source\": \"bot\", \"step\": 3\x7d\x7d"

def stopText : String := "\x7b\"text\": \x7b\"msg\": \".\", \"source\": \"bot\", \"finish_reason\": \"stop\"\x7d\x7d"

def greeting : Builtins := { knowing "" .null fun literal => if literal = "3" then some 3 else none with
  jsonLoads
    | .str s => if s = stepText then
          .ok (.obj [("text",.obj [("msg",.str "Hello"),("source",.str "bot"),("step",.num "3")])])
        else if s = stopText then
          .ok (.obj [("text",.obj [("msg",.str "."),("source",.str "bot"),("finish_reason",.str "stop")])])
        else .error ""
    | .bytes _ => .error "" }

/-- The first part of a reply reports step 3, the last part no step. -/
def greetingMessages : List Raw := [.str stepText,.str stopText]

def greetingFrames : List Channel.Frame := greetingMessages.map fun m => (parse greeting m).toFrame

/-- One text, and the two parts of its reply. -/
def greetingActs : List Act :=
  [.call (.str "Hi") 10 5,.go {},.go {}] ++ greetingFrames.map (fun f => .recv ⟨f,some 1⟩) ++
    [.go {},.go {},.go {},.go {}]

/-- Some call has returned a reply of just these frames. -/
def repliesWith (frames : List Channel.Frame) (c : Chan) : Bool := c.outcomes.any fun
  | .returned _ used _ => decide (used.map (·.frame) = frames)
  | .raised .. => false

theorem greeting_run : ∃ c n used t, Reach Chan.step anyAct {} c ∧ Outcome.returned n used t ∈ c.outcomes ∧
    used.map (·.frame) = greetingFrames := by
  have hrun : ((run Chan.step anyAct {} greetingActs).any (repliesWith greetingFrames)) = true := by decide +kernel
  obtain ⟨c,hc,hr⟩ := exists_reach_of_run hrun
  obtain ⟨o,ho,hused⟩ := List.any_eq_true.mp hr
  cases o with
  | returned n used t => exact ⟨c,n,used,t,hc,ho,of_decide_eq_true hused⟩
  | raised n e => cases hused

/-- A session at step 2. -/
def greetedSession : AgentSession :=
  { id := 0, conversationId := 0, agentId := 0, step := 2, startedAt := 0, lastActivityAt := 0 }

def greetingContext : TurnContext where
  remote := { flowName := "flow", botRouteEnv := "BOT_ROUTE" }
  view := greetedSession.toSessionView
  finished := false
  recovered := ""
  now := 1

/-- The equivalence at the greeting. -/
theorem step_follows_iff_greeting : ∃ c used t, Reach Chan.step anyAct {} c ∧ Ended c used (some t) ∧
    ((greetingContext.apply greetedSession (some t)).step =
        (lastReported greeting greetingMessages).getD greetedSession.step ↔
      Follows greeting greetingMessages greetedSession.step (some t)) := by
  obtain ⟨c,n,used,t,hc,ht,hused⟩ := greeting_run
  have hfresh : Fresh {} := ⟨rfl,rfl,by simp,by simp⟩
  exact ⟨c,used,t,hc,.replied ht,step_follows_iff greeting hfresh hc (.replied ht) hused _ _⟩

/-- Mitra reported step 3, and the session is at step 0 afterwards. -/
theorem greeting_step_lost : ∃ c used t, Reach Chan.step anyAct {} c ∧ Ended c used (some t) ∧
    used.map (·.frame) = greetingMessages.map (fun m => (parse greeting m).toFrame) ∧
    (lastReported greeting greetingMessages).getD greetedSession.step = 3 ∧
    (greetingContext.apply greetedSession (some t)).step = 0 := by
  obtain ⟨c,n,used,t,hc,ht,hused⟩ := greeting_run
  have hfresh : Fresh {} := ⟨rfl,rfl,by simp,by simp⟩
  refine ⟨c,used,t,hc,.replied ht,hused,by decide,?_⟩
  rw [apply_step hfresh hc ht hused]
  decide

end Saarathi
