import Saarathi.Channel

/-!
# Parsing frames

`parse` turns a raw WebSocket message into a frame: the text envelope, the
degenerate one, and the legacy envelopes.
-/

namespace Saarathi
namespace FrameParser

inductive FrameKind where
  | botChunk
  | botFinal
  | userEcho
  | system
  | error
  deriving DecidableEq

/-- A parsed frame; the channel reads all of it but the kind. -/
structure Frame extends Channel.Frame where
  kind : FrameKind
  source := ""
  step := some 0
  deriving DecidableEq

/-- A raw WebSocket message. -/
inductive Raw where
  | str (s : String)
  | bytes (bs : List UInt8)

/-- Python's own conversions: `json.loads`, with the text of its exception, `repr`, which is never
empty, `int` of a number and of a text, and Unicode lower-casing. -/
structure Builtins where
  jsonLoads : Raw → Except String Json
  repr : Json → String
  repr_ne : ∀ v, repr v ≠ ""
  intOfNum : String → Except Exn ℤ
  intOfStr : String → Except Exn ℤ
  lower : String → String

variable (b : Builtins)

/-- `_coerce_str`; `str(v)` of a value that is not a string is its `repr`. -/
def coerceStr (v : Json) (default : String := "") : String :=
  match v with
  | .null => default
  | .str s => s
  | v => b.repr v

/-- `_recover_response_text`; the fuel is what is left of its depth cap. -/
def recoverResponseText : ℕ → Json → String
  | 0,_ => ""
  | n + 1,.obj fields => match Json.get fields "response" with
    | .str s => Text.strip s
    | .obj fields => recoverResponseText n (.obj fields)
    | .arr items => recoverResponseText n (.arr items)
    | _ => ""
  | n + 1,.arr items => " ".intercalate ((items.map (recoverResponseText n)).filter (· ≠ ""))
  | _ + 1,_ => ""

/-- The depths at which `_recover_response_text` looks. -/
def recoverDepth : ℕ := 7

/-- `_coerce_message_text`: the text, and whether the value was an internal object. -/
def coerceMessageText : Json → String × Bool
  | .null => ("",false)
  | .str s => (s,false)
  | .bool v => (b.repr (.bool v),false)
  | .num literal => (b.repr (.num literal),false)
  | v => (recoverResponseText recoverDepth v,true)

/-- `int(v)`. -/
def int : Json → Except Exn ℤ
  | .bool v => .ok (if v then 1 else 0)
  | .num literal => b.intOfNum literal
  | .str s => b.intOfStr s
  | v => .error (.python "TypeError" s!"int() argument must be a string, a bytes-like object or a real number, not '{v.typeName}'")

/-- `_coerce_int`, which catches `TypeError` and `ValueError` only. -/
def coerceInt (v : Json) (default : ℤ := 0) : Except Exn ℤ :=
  match int b v with
  | .ok n => .ok n
  | .error (.python cls msg) =>
    if cls = "TypeError" ∨ cls = "ValueError" then .ok default else .error (.python cls msg)
  | .error e => .error e

/-- A choice of the state machine. -/
def choice (i : ℕ) (item : List (String × Json)) : TurnOption :=
  let get := Json.get item
  let id := coerceStr b ((get "id").orElse (get "value")) (toString i)
  { id := id
    label := coerceStr b ((get "label").orElse ((get "text").orElse (get "value"))) id
    value := coerceStr b ((get "value").orElse (get "label")) id }

/-- A source that a free-flow reply cites. -/
def citation (i : ℕ) (item : List (String × Json)) : TurnOption :=
  let get := Json.get item
  let id := coerceStr b ((get "url").orElse (get "id")) (toString i)
  { id := id
    label := coerceStr b ((get "title").orElse ((get "text").orElse (get "url"))) id
    value := coerceStr b ((get "url").orElse (get "text")) id }

/-- The objects among the items, each at its own index. -/
def optionsOf (option : ℕ → List (String × Json) → TurnOption) (items : List Json) :
    List TurnOption :=
  items.zipIdx.filterMap fun
    | (.obj item,i) => some (option i item)
    | _ => none

def sourcesOf (extra : List (String × Json)) : List TurnOption :=
  match Json.lookup extra "sources" with
  | some (.arr items) => optionsOf (citation b) items
  | _ => []

/-- `_normalise_options`. -/
def normaliseOptions : Json → List TurnOption
  | .obj extra => match Json.lookup extra "options" with
    | some (.arr items) => optionsOf (choice b) items
    | _ => match Json.lookup extra "problem_statement" with
      | some _ => []
      | none => sourcesOf b extra
  | _ => []

/-- `_parse_text_envelope`. -/
def parseTextEnvelope (text : List (String × Json)) : Except Exn Frame :=
  let source := coerceStr b (Json.get text "source")
  let (msg,control) := coerceMessageText b (Json.get text "msg")
  let finishReason := Json.get text "finish_reason"
  let errorVal := coerceStr b (Json.get text "error")
  match coerceInt b (Json.get text "step") with
  | .error e => .error e
  | .ok step =>
    if source = "user" then
      .ok { kind := .userEcho, source := source, msg := msg, step := some step,
            controlPayload := control }
    else if source = "system" ∨ errorVal ≠ "" then
      .ok { kind := .system, source := source, msg := msg, step := some step,
            error := if errorVal = "" then msg else errorVal, controlPayload := control }
    else
      .ok { kind := if finishReason.truthy then .botFinal else .botChunk,
            source := source, msg := msg, step := some step,
            finishReason := if finishReason.truthy then some (coerceStr b finishReason) else none,
            options := normaliseOptions b (Json.get text "extra_content"), controlPayload := control }

def legacySystemTypes : List String := ["session_end","error","connected","disconnected"]
def legacyBotTypes : List String := ["message","bot_response","response"]
def legacyOptionTypes : List String := ["options","choices"]

def envelopeType (raw : List (String × Json)) : String := b.lower (coerceStr b (Json.get raw "type"))

/-- `_coerce_str(v) or None`. -/
def finishOf (v : Json) : Option String := if coerceStr b v = "" then none else some (coerceStr b v)

/-- The source of an envelope of unknown type. -/
def legacySource (raw : List (String × Json)) : String :=
  if coerceStr b (Json.get raw "source") = "" then envelopeType b raw
  else coerceStr b (Json.get raw "source")

/-- `_parse_legacy_envelope`. -/
def parseLegacyEnvelope (raw : List (String × Json)) : Frame :=
  let get := Json.get raw
  let type := envelopeType b raw
  let (msg,control) := coerceMessageText b
    ((get "msg").orElse ((get "message").orElse ((get "text").orElse (get "content"))))
  let errorVal := coerceStr b ((get "error").orElse (get "err"))
  if type ∈ legacySystemTypes then
    { kind := .system, source := "system", msg := msg,
      error := if errorVal ≠ "" then errorVal else if type = "error" then msg else "",
      controlPayload := control }
  else if type ∈ legacyOptionTypes then
    let opts := (get "options").orElse ((get "choices").orElse (.arr []))
    { kind := .botFinal, source := "bot", msg := msg, finishReason := some "stop",
      options := normaliseOptions b (if opts.truthy then .obj [("options",opts)] else .obj []),
      controlPayload := control }
  else if type ∈ legacyBotTypes ∨ type = "text" then
    { kind := if (finishOf b (get "finish_reason")).isSome then .botFinal else .botChunk,
      source := "bot", msg := msg, finishReason := finishOf b (get "finish_reason"),
      controlPayload := control }
  else
    { kind := .system, source := legacySource b raw, msg := msg,
      error := s!"unrecognised envelope type: {b.repr (.str type)}" }

/-- The object has a key of the legacy envelopes. -/
def isLegacy (payload : List (String × Json)) : Bool :=
  ["type","message","msg","content"].any fun key => (Json.lookup payload key).isSome

/-- The degenerate envelope, whose text is a string. -/
def parseBareText (payload : List (String × Json)) (text : String) : Frame :=
  let finish := finishOf b (Json.get payload "finish_reason")
  { kind := if finish.isSome then .botFinal else .botChunk, source := "bot", msg := text,
    finishReason := finish }

def parseError (error : String) : Frame := { kind := .error, error := error }

def parsePayload (payload : List (String × Json)) : Frame :=
  match Json.get payload "text" with
  | .obj text => match parseTextEnvelope b text with
    | .ok f => f
    | .error e => parseError s!"text envelope parse error: {e.str}"
  | .str text => parseBareText b payload text
  | _ =>
    if isLegacy payload then parseLegacyEnvelope b payload
    else parseError "unrecognised frame shape — no 'text' key"

/-- `parse`, which never raises. -/
def parse (raw : Raw) : Frame :=
  match b.jsonLoads raw with
  | .error e => parseError s!"JSON decode error: {e}"
  | .ok (.obj payload) => parsePayload b payload
  | .ok v => parseError s!"expected JSON object, got {v.typeName}"

variable {b}

theorem parseTextEnvelope_step {text : List (String × Json)} {f : Frame}
    (h : parseTextEnvelope b text = .ok f) : f.step.isSome = true := by
  unfold parseTextEnvelope at h
  cases hn : coerceInt b (Json.get text "step") with
  | error e => simp [hn] at h
  | ok step =>
    simp only [hn] at h
    split at h
    · obtain rfl := Except.ok.inj h
      rfl
    split at h
    · obtain rfl := Except.ok.inj h
      rfl
    · obtain rfl := Except.ok.inj h
      rfl

theorem parseLegacyEnvelope_step {raw : List (String × Json)} :
    (parseLegacyEnvelope b raw).step.isSome = true := by
  unfold parseLegacyEnvelope
  by_cases hsys : envelopeType b raw ∈ legacySystemTypes
  · simp only [if_pos hsys,Option.isSome_some]
  by_cases hopt : envelopeType b raw ∈ legacyOptionTypes
  · simp only [if_neg hsys,if_pos hopt,Option.isSome_some]
  by_cases hbot : envelopeType b raw ∈ legacyBotTypes ∨ envelopeType b raw = "text"
  · simp only [if_neg hsys,if_neg hopt,if_pos hbot,Option.isSome_some]
  · simp only [if_neg hsys,if_neg hopt,if_neg hbot,Option.isSome_some]

theorem parsePayload_step {payload : List (String × Json)} :
    (parsePayload b payload).step.isSome = true := by
  unfold parsePayload
  split
  · split
    · rename_i hf
      exact parseTextEnvelope_step hf
    · rfl
  · rfl
  · split
    · exact parseLegacyEnvelope_step
    · rfl

/-- A frame without a step has step 0. -/
theorem parse_step (b : Builtins) (m : Raw) : (parse b m).step.isSome = true := by
  unfold parse
  split
  · rfl
  · exact parsePayload_step
  · rfl

/-- Conversions that know the value of one text and the numbers in it. -/
def knowing (text : String) (v : Json) (number : String → Option ℤ) : Builtins where
  jsonLoads
    | .str s => if s = text then .ok v else .error ""
    | .bytes _ => .error ""
  repr _ := "?"
  repr_ne _ := by simp
  intOfNum literal := match number literal with
    | some n => .ok n
    | none => .error (.python "ValueError" "")
  intOfStr _ := .error (.python "ValueError" "")
  lower s := s

end FrameParser
end Saarathi
