import Saarathi.ToolLoop
import Saarathi.TurnMessages

/-!
# The prompt of a turn

The history that a turn reads ends with the turn's own message, and the handler
of an LLM agent puts the user's text after it.
-/

namespace Saarathi

open ReadCommitted Machine Program Program.Prog Interleaving LlmAgentHandler LlmTrace

section Lists

variable {A B : Type} {as : List A} {a : A} {n : ℕ}

/-- A list that is its own shift repeats what was shifted in. -/
theorem append_singleton_eq_cons_iff {c : A} : as ++ [c] = a :: as ↔ ∀ b ∈ a :: as, b = c := by
  induction as generalizing a with
  | nil => simp [eq_comm]
  | cons b as ih =>
    rw [List.cons_append,List.cons.injEq,ih]
    simp only [List.mem_cons,forall_eq_or_imp]
    constructor
    · rintro ⟨rfl,hb,has⟩
      exact ⟨hb,hb,has⟩
    · rintro ⟨ha,hb,has⟩
      exact ⟨hb.trans ha.symm,hb,has⟩

theorem length_rtake : (as.rtake n).length = min n as.length := by
  rw [List.rtake,List.length_drop]
  omega

theorem rtake_of_length_le (h : as.length ≤ n) : as.rtake n = as := by
  rw [List.rtake,Nat.sub_eq_zero_of_le h,List.drop_zero]

/-- The last `n` with one element more against the last `2 * n` without it. -/
theorem map_rtake_append_eq_iff {f : A → B} (hn : 0 < n) :
    ((as ++ [a]).rtake n).map f = (as.rtake (2 * n)).map f ↔ as.length = n ∧ ∀ b ∈ as, f b = f a := by
  have hshift : as.length = n → (((as ++ [a]).rtake n).map f = (as.rtake (2 * n)).map f ↔ ∀ b ∈ as, f b = f a) := by
    intro hlength
    obtain ⟨b,bs,rfl⟩ := List.exists_cons_of_length_pos (hlength ▸ hn)
    have hdrop : (b :: bs ++ [a]).rtake n = bs ++ [a] := by
      rw [List.rtake,List.length_append,hlength]
      simp
    rw [hdrop,rtake_of_length_le (by omega)]
    simp only [List.map_append,List.map_cons,List.map_nil,append_singleton_eq_cons_iff]
    simp
  constructor
  · intro h
    have hlength := congrArg List.length h
    rw [List.length_map,List.length_map,length_rtake,length_rtake,List.length_append,List.length_singleton] at hlength
    have hn' : as.length = n := by omega
    exact ⟨hn',(hshift hn').mp h⟩
  · rintro ⟨hlength,hall⟩
    exact (hshift hlength).mpr hall

end Lists

namespace LlmAgentHandler

variable {b : FrameParser.Builtins} {s : LlmAgentSpec} {es : LlmTrace}

theorem sent_of_invoke {α : Type} {msgs : List ChatMessage} {f : AiMessage → LlmProc α} {out : Except Exn α}
    (h : Runs (invoke msgs >>= f) es out) : (sent es).head? = some msgs := by
  rcases Runs.of_bind h with ⟨e,hp,-⟩ | ⟨r,es₁,es₂,hp,-,rfl⟩
  · obtain rfl := Runs.of_perform hp
    rfl
  · obtain rfl := Runs.of_perform hp
    rfl

/-- What the handler sends first. -/
theorem messages_of_sent {history : List Message} {text : Json} {out : Except Exn LlmReply} {msgs : List ChatMessage}
    (h : Runs (handle b s history text) es out) (hsent : (sent es).head? = some msgs) :
    messages s history text = .ok msgs := by
  rcases Runs.of_bind h with ⟨e,hp,rfl⟩ | ⟨now,es₁,es₂,hp,hrest,rfl⟩
  · obtain rfl := Runs.of_perform hp
    cases hsent
  obtain rfl := Runs.of_perform hp
  rcases Runs.of_bind hrest with ⟨e,hmsgs,rfl⟩ | ⟨msgs',es₃,es₄,hmsgs,hloop,rfl⟩
  · obtain ⟨rfl,-⟩ := Runs.of_settle hmsgs
    cases hsent
  obtain ⟨rfl,hok⟩ := Runs.of_settle hmsgs
  have hfirst : (sent es₄).head? = some msgs' := by
    split at hloop
    · exact sent_of_invoke hloop
    · cases hmax : s.limits.maxToolIterations with
      | zero =>
        rw [hmax] at hloop
        exact sent_of_invoke hloop
      | succ n =>
        rw [hmax] at hloop
        exact sent_of_invoke hloop
  have hsame : (sent es₄).head? = some msgs := hsent
  rw [hfirst] at hsame
  rw [← Option.some.inj hsame]
  exact hok.symm

/-- A prompt that can be assembled can be sent. -/
theorem exists_sent {history : List Message} {text : Json} {msgs : List ChatMessage}
    (h : messages s history text = .ok msgs) :
    ∃ es out, Runs (handle b s history text) es out ∧ (sent es).head? = some msgs := by
  let e : Exn := .python "RuntimeError" ""
  refine ⟨[⟨.monotonic,.ok (0 : ℚ)⟩,⟨.invoke msgs,.error e⟩],.error e,Runs.call ?_,rfl⟩
  change Runs (settle (messages s history text) >>= _) _ _
  rw [h]
  change Runs (if s.tools.isEmpty then _ else _) _ _
  split
  · exact Runs.call (.fail e)
  · cases hmax : s.limits.maxToolIterations with
    | zero => exact Runs.call (.fail e)
    | succ n => exact Runs.call (.fail e)

/-- The prompt that holds each message once: what came before the turn, and then the user's text. -/
def promptWith (s : LlmAgentSpec) (before : List Message) (text : ChatMessage) : List ChatMessage :=
  .system s.prompt :: (before.rtake (2 * s.historyTurns)).map historyMessage ++ [text]

theorem historyMessage_eq_iff {m m' : Message} (h : m.new.role = .user) :
    historyMessage m' = historyMessage m ↔ m'.new.role = .user ∧ m'.content = m.content := by
  unfold historyMessage
  rw [if_pos h]
  by_cases h' : m'.new.role = .user
  · simp [h']
  · simp [h']

/-- A history that ends with the turn's own message gives this prompt only where the conversation has
repeated one text for just as long as the history goes back. -/
theorem messages_eq_promptOf_iff {before : List Message} {m : Message} {text : Json} {msgs : List ChatMessage}
    (hstrategy : s.strategy = .recent) (hpos : 0 < s.historyTurns) (hrole : m.new.role = .user)
    (h : messages s ((before ++ [m]).rtake s.historyTurns) text = .ok msgs) :
    ∃ last, humanMessage text = .ok last ∧ (msgs = promptWith s before last ↔
      before.length = s.historyTurns ∧ ∀ m' ∈ before, m'.new.role = .user ∧ m'.content = m.content) := by
  have hwindow : window s ((before ++ [m]).rtake s.historyTurns) = (before ++ [m]).rtake s.historyTurns := by
    rw [window,hstrategy]
    simp only [if_pos hpos]
    exact rtake_of_length_le (by rw [length_rtake]; omega)
  rw [messages,hwindow] at h
  cases hlast : humanMessage text with
  | error e =>
    rw [hlast] at h
    cases h
  | ok last =>
    rw [hlast] at h
    obtain rfl := Except.ok.inj h
    refine ⟨last,rfl,?_⟩
    rw [promptWith,List.append_left_inj,List.cons.injEq]
    simp only [true_and]
    rw [map_rtake_append_eq_iff hpos]
    simp only [historyMessage_eq_iff hrole]

end LlmAgentHandler

section Runs

variable {d : Deployment} {w : World}
  {k : Interleaving.Config ((World × Admissions) × TurnNotes) Conn Op Op.Ans Exn Response} {x : Conn}
  {c : ConversationId} {run : HandlerRun} {cont : Except Exn (Op.Ans (.handleBegin c run)) → Proc Response}

/-- In every run a handler begins on what its turn has stored and read. -/
theorem admitted_of_reach (hw : w.AtRest)
    (hconv : w.db.conversations.Settled Conversation.constraints Conversation.Keyed) (hnum : w.db.MessagesNumbered)
    (h : Reach (step (turnMessages d)) anyAct (idle ((w,{}),{})) k)
    (hx : k.procs x = some (.call (.handleBegin c run) cont)) : TurnMessages.Admitted c run (k.world.2.stage x) :=
  (TurnMessages.outline d).pre_of_call (TurnMessages.inv_of_reach hw hconv hnum h).2 hx

/-- Whenever an LLM agent's handler begins, the first messages that it may send are the system prompt, the
messages before the turn's own and the user's text, each once, only where the conversation has repeated one
text for just as long as the history goes back. -/
theorem prompt_of_turn (hw : w.AtRest)
    (hconv : w.db.conversations.Settled Conversation.constraints Conversation.Keyed) (hnum : w.db.MessagesNumbered)
    (h : Reach (step (turnMessages d)) anyAct (idle ((w,{}),{})) k)
    (hx : k.procs x = some (.call (.handleBegin c run) cont)) {s : LlmAgentSpec}
    (hs : s.toAgentSpec = run.agent.spec) (hstrategy : s.strategy = .recent) (hpos : 0 < s.historyTurns) :
    ∃ m before, k.world.2.stage x = .committed m before ∧ m.Says c run.text ∧
      ∀ b es out msgs, Runs (LlmAgentHandler.handle b s run.history run.text) es out → (sent es).head? = some msgs →
        ∃ last, humanMessage run.text = .ok last ∧ (msgs = promptWith s before last ↔
          before.length = s.historyTurns ∧ ∀ m' ∈ before, m'.new.role = .user ∧ m'.content = m.content) := by
  have hturns : s.historyTurns = run.agent.spec.historyTurns := by rw [← hs]
  obtain ⟨m,before,hstage,hsaid,hhistory⟩ := admitted_of_reach hw hconv hnum h hx (hturns ▸ hpos)
  refine ⟨m,before,hstage,hsaid,fun b es out msgs hruns hsent => ?_⟩
  have hmsgs := messages_of_sent hruns hsent
  rw [hhistory,← hturns] at hmsgs
  exact messages_eq_promptOf_iff hstrategy hpos hsaid.role hmsgs

end Runs

namespace Sample

theorem world_atRest : world.AtRest := by constructor <;> intro <;> rfl

/-- An LLM agent with this specification. -/
def prompted (spec : AgentSpec) : LlmAgentSpec where
  toAgentSpec := spec
  prompt := "Answer briefly."

/-- The handler of the first turn of a conversation is about to begin. -/
def beginning : List (Cue ((World × Admissions) × TurnNotes) Conn Req Choice World.EnvAct Op) :=
  [.act (.start 0 (turn "hi" "assistant" .absent)),.serve 0 (fun w o => smooth w.1.1 o) 15]

/-- The call that begins a handler on one message, "hi", and on the same text. -/
def beginsOnHi : Op → Bool
  | .handleBegin _ run => decide (run.agent.spec.historyTurns = 10) && (run.text matches .str "hi") &&
      decide (run.history.map (fun m => (m.new.role,m.content)) = [(.user,"hi")])
  | _ => false

theorem exists_beginning : ∃ (k : Interleaving.Config ((World × Admissions) × TurnNotes) Conn Op Op.Ans Exn Response)
    (c : ConversationId) (run : HandlerRun) (cont : Except Exn (Op.Ans (.handleBegin c run)) → Proc Response),
      Reach (step (turnMessages deployment)) anyAct (idle ((world,{}),{})) k ∧
        k.procs 0 = some (.call (.handleBegin c run) cont) ∧ run.agent.spec.historyTurns = 10 ∧
        run.text = .str "hi" ∧ run.history.map (fun m => (m.new.role,m.content)) = [(.user,"hi")] := by
  have hrun : ((play (turnMessages deployment) anyAct beginning (idle ((world,{}),{}))).any fun k =>
      (k.nextCall 0).any beginsOnHi) = true := by
    decide +kernel
  obtain ⟨k,hr,hP⟩ := exists_reach_of_play hrun
  obtain ⟨o,ho,hP⟩ := (Option.any_eq_true _ _).mp hP
  unfold beginsOnHi at hP
  split at hP
  · rename_i c run
    obtain ⟨cont,hcont⟩ := Config.call_of_nextCall ho
    simp only [Bool.and_eq_true,decide_eq_true_eq] at hP
    obtain ⟨⟨hturns,htext⟩,hhistory⟩ := hP
    refine ⟨k,c,run,cont,hr,hcont,hturns,?_,hhistory⟩
    split at htext
    · assumption
    · cases htext
  · cases hP

end Sample

/-- The first turn of a conversation. -/
theorem prompt_of_turn_beginning : ∃ (k : Interleaving.Config ((World × Admissions) × TurnNotes) Conn Op Op.Ans Exn Response)
    (c : ConversationId) (run : HandlerRun) (cont : Except Exn (Op.Ans (.handleBegin c run)) → Proc Response),
      k.procs 0 = some (.call (.handleBegin c run) cont) ∧ ∃ m before, k.world.2.stage 0 = .committed m before ∧
        m.Says c run.text ∧ ∀ b es out msgs,
          Runs (LlmAgentHandler.handle b (Sample.prompted run.agent.spec) run.history run.text) es out →
            (sent es).head? = some msgs → ∃ last, humanMessage run.text = .ok last ∧
              (msgs = promptWith (Sample.prompted run.agent.spec) before last ↔
                before.length = (Sample.prompted run.agent.spec).historyTurns ∧
                  ∀ m' ∈ before, m'.new.role = .user ∧ m'.content = m.content) := by
  obtain ⟨k,c,run,cont,hr,hx,hturns,-⟩ := Sample.exists_beginning
  have hpos : 0 < (Sample.prompted run.agent.spec).historyTurns := by
    rw [Sample.prompted,hturns]
    decide
  exact ⟨k,c,run,cont,hx,prompt_of_turn Sample.world_atRest Table.settled_empty (fun _ => List.Perm.refl _) hr hx rfl rfl hpos⟩

/-- The first message of a conversation is sent twice. -/
theorem prompt_of_turn_twice : ∃ (k : Interleaving.Config ((World × Admissions) × TurnNotes) Conn Op Op.Ans Exn Response)
    (c : ConversationId) (run : HandlerRun) (cont : Except Exn (Op.Ans (.handleBegin c run)) → Proc Response),
      Reach (step (turnMessages Sample.deployment)) anyAct (idle ((Sample.world,{}),{})) k ∧
        k.procs 0 = some (.call (.handleBegin c run) cont) ∧ ∃ m, k.world.2.stage 0 = .committed m [] ∧
          ∀ b, ∃ es out, Runs (LlmAgentHandler.handle b (Sample.prompted run.agent.spec) run.history run.text) es out ∧
            (sent es).head? = some [.system "Answer briefly.",.human (.str "hi"),.human (.str "hi")] ∧
            (sent es).head? ≠ some (promptWith (Sample.prompted run.agent.spec) [] (.human (.str "hi"))) := by
  obtain ⟨k,c,run,cont,hr,hx,hturns,htext,hhistory⟩ := Sample.exists_beginning
  have hpos : 0 < run.agent.spec.historyTurns := by
    rw [hturns]
    decide
  obtain ⟨m,before,hstage,hsaid,hrtake⟩ :=
    admitted_of_reach Sample.world_atRest Table.settled_empty (fun _ => List.Perm.refl _) hr hx hpos
  have hlength := congrArg List.length hhistory
  rw [hrtake,hturns,List.length_map,length_rtake] at hlength
  obtain rfl : before = [] := List.length_eq_zero_iff.mp (by simp at hlength; omega)
  obtain ⟨m',hm',hrole,hcontent⟩ : ∃ m' : Message, run.history = [m'] ∧ m'.new.role = .user ∧ m'.content = "hi" := by
    obtain ⟨m',hm'⟩ := List.length_eq_one_iff.mp (by simpa using congrArg List.length hhistory)
    rw [hm'] at hhistory
    simp only [List.map_cons,List.map_nil,List.cons.injEq,Prod.mk.injEq,and_true] at hhistory
    exact ⟨m',hm',hhistory⟩
  refine ⟨k,c,run,cont,hr,hx,m,hstage,fun b => ?_⟩
  have hmsgs : messages (Sample.prompted run.agent.spec) run.history run.text =
      .ok [.system "Answer briefly.",.human (.str "hi"),.human (.str "hi")] := by
    have hwindow : window (Sample.prompted run.agent.spec) run.history = [m'] := by
      simp [window,Sample.prompted,hturns,hm']
    rw [messages,hwindow,htext]
    simp only [List.map_cons,List.map_nil,historyMessage,if_pos hrole,hcontent]
    rfl
  obtain ⟨es,out,hruns,hsent⟩ := exists_sent hmsgs
  refine ⟨es,out,hruns,hsent,?_⟩
  rw [hsent,promptWith]
  simp

end Saarathi
