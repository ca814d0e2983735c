import Saarathi.FrameParser
import Saarathi.Services
import Mathlib.Data.Rat.Floor

/-!
# The handler of an LLM agent

`LlmAgentHandler` assembles the prompt and runs the tool loop. The model, its
tools and the clock are calls; what they answer is left open.
-/

namespace Saarathi

open Program Program.Prog

inductive MemoryStrategy where
  | recent
  | none
  deriving DecidableEq

/-- What the handler reads of `LlmAgentSpec` beside the fields of every agent. -/
structure LlmAgentSpec extends AgentSpec where
  prompt : String
  strategy : MemoryStrategy := .recent
  tools : List String := []

/-- `spec.model.name`. -/
def LlmAgentSpec.modelName (s : LlmAgentSpec) : Option String :=
  match s.kind with
  | .llm modelName => some modelName
  | .remoteFlow _ => none

/-- One call that the model asks for; providers may leave out its id. -/
structure ToolCall where
  name : String
  args : Json
  id : Option String

/-- An `AIMessage`, with the counts that `token_usage` holds where it is there. -/
structure AiMessage where
  content : Json
  toolCalls : List ToolCall := []
  tokenUsage : Option (Option ℤ × Option ℤ) := none

inductive ChatMessage where
  | system (content : String)
  | human (content : Json)
  | ai (m : AiMessage)
  | tool (content toolCallId : String)

inductive LlmOp where
  | monotonic
  | invoke (msgs : List ChatMessage)
  | toolInvoke (name : String) (args : Json)

/-- What a call answers with; a tool's answer is taken as `str` of it. -/
def LlmOp.Ans : LlmOp → Type
  | monotonic => ℚ
  | invoke _ => AiMessage
  | toolInvoke .. => String

abbrev LlmProc := Prog LlmOp LlmOp.Ans Exn

namespace LlmAgentHandler

variable (b : FrameParser.Builtins) (s : LlmAgentSpec)

/-- One block of a content that is a list. -/
def blockText : Json → Except Exn String
  | .obj fields => match (Json.lookup fields "text").getD (.str "") with
    | .str text => .ok text
    | _ => .error (.python "TypeError" "sequence item: expected str instance")
  | v => .ok (FrameParser.coerceStr b v "None")

/-- `_as_text`. -/
def asText : Json → Except Exn String
  | .arr blocks => do pure (" ".intercalate (← blocks.mapM (blockText b)))
  | content => .ok (if content.truthy then FrameParser.coerceStr b content else "")

/-- `HumanMessage(content=text)`: a text, or a list of texts and objects. -/
def humanMessage : Json → Except Exn ChatMessage
  | .str text => .ok (.human (.str text))
  | .arr items =>
    if items.all fun v => v matches .str _ | .obj _ then .ok (.human (.arr items))
    else .error (.python "ValidationError" "HumanMessage")
  | _ => .error (.python "ValidationError" "HumanMessage")

def historyMessage (h : Message) : ChatMessage :=
  if h.new.role = .user then .human (.str h.content) else .ai { content := .str h.content }

/-- The part of the history that the prompt takes in. -/
def window (history : List Message) : List Message :=
  match s.strategy with
  | .recent => if 0 < s.historyTurns then history.drop (history.length - 2 * s.historyTurns) else []
  | .none => []

/-- The messages that the first invocation sends. -/
def messages (history : List Message) (text : Json) : Except Exn (List ChatMessage) := do
  pure (.system s.prompt :: (window s history).map historyMessage ++ [← humanMessage text])

/-- `int(seconds * 1000)`. -/
def milliseconds (seconds : ℚ) : ℤ := if 0 ≤ seconds then ⌊seconds * 1000⌋ else ⌈seconds * 1000⌉

def monotonic : LlmProc ℚ := perform LlmOp.monotonic

def invoke (msgs : List ChatMessage) : LlmProc AiMessage := perform (LlmOp.invoke msgs)

/-- `AgentTurn` of a final message, read as a text that `default` stands in for. -/
def turnOf (t0 : ℚ) (traces : List ToolTrace) (default : String) (r : AiMessage) : LlmProc LlmReply := do
  let text ← settle (asText b r.content)
  let now ← monotonic
  pure { text := if text = "" then default else text, toolTraces := traces, model := s.modelName,
         promptTokens := r.tokenUsage.bind (·.1), completionTokens := r.tokenUsage.bind (·.2),
         latencyMs := milliseconds (now - t0) }

/-- What an iteration of the tool loop carries on. -/
structure Loop where
  msgs : List ChatMessage
  traces : List ToolTrace := []
  lastResult : String := ""

/-- The outcome of one call: the text, its status and its error. -/
def outcome (c : ToolCall) : LlmProc (String × ToolStatus × Option String) :=
  if c.name ∈ s.tools then do
    pure (← perform (LlmOp.toolInvoke c.name c.args),.success,none)
  else pure (s!"Unknown tool {b.repr (.str c.name)}",.error,some "unknown_tool")

/-- Run one call, record it and answer it. -/
def runCall (i : ℕ) (c : ToolCall) (st : Loop) : LlmProc Loop := do
  let tstart ← monotonic
  let (out,status,err) ← outcome b s c
  let tend ← monotonic
  let trace : ToolTrace := {
    toolName := c.name
    iteration := i
    arguments := c.args
    resultExcerpt := String.ofList (out.toList.take 4096)
    status := status
    error := err
    durationMs := milliseconds (tend - tstart) }
  match c.id with
  | none => throw (.python "ValidationError" "ToolMessage")
  | some id =>
    pure { msgs := st.msgs ++ [.tool out id], traces := st.traces ++ [trace], lastResult := out }

def runCalls (i : ℕ) : List ToolCall → Loop → LlmProc Loop
  | [],st => pure st
  | c :: cs,st => do
    let st ← runCall b s i c st
    runCalls i cs st

/-- The tool loop with as many iterations left as the first argument says, and the invocation
after the last one. -/
def iterate (t0 : ℚ) : ℕ → ℕ → Loop → LlmProc LlmReply
  | 0,_,st => do
    let final ← invoke st.msgs
    turnOf b s t0 st.traces s!"Here is the raw data I found:\n{st.lastResult}" final
  | n + 1,i,st => do
    let r ← invoke st.msgs
    if r.toolCalls.isEmpty then turnOf b s t0 st.traces "I couldn't generate a clear answer." r
    else
      let st ← runCalls b s i r.toolCalls { st with msgs := st.msgs ++ [.ai r] }
      iterate t0 n (i + 1) st

def handle (history : List Message) (text : Json) : LlmProc LlmReply := do
  let t0 ← monotonic
  let msgs ← settle (messages s history text)
  if s.tools.isEmpty then
    let r ← invoke msgs
    turnOf b s t0 [] "I couldn't generate a clear answer." r
  else iterate b s t0 s.limits.maxToolIterations 1 { msgs := msgs }

end LlmAgentHandler

/-- One row of `tool_executions`. -/
structure ToolExecution where
  messageId : ℕ
  agentId : AgentId
  toolName : String
  iteration : ℕ
  resultExcerpt : String
  resultBytes : Option ℕ
  status : ToolStatus
  error : Option String
  durationMs : ℤ

/-- `tool_iteration`, `tool_duration` and `tool_error`. -/
def ToolExecution.check (t : ToolExecution) : Bool :=
  decide (1 ≤ t.iteration) && decide (t.iteration ≤ 10) && decide (0 ≤ t.durationMs) &&
    (decide (t.status = .success) || t.error.isSome)

/-- The row that `bulk_insert` makes of a trace. -/
def ToolTrace.row (messageId : ℕ) (agentId : AgentId) (t : ToolTrace) : ToolExecution where
  messageId := messageId
  agentId := agentId
  toolName := t.toolName
  iteration := t.iteration
  resultExcerpt := String.ofList (t.resultExcerpt.toList.take 4096)
  resultBytes := if t.resultExcerpt = "" then none else some t.resultExcerpt.utf8ByteSize
  status := t.status
  error := t.error
  durationMs := t.durationMs

end Saarathi
