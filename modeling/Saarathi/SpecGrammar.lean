import Mathlib.Data.Rat.Defs
import Saarathi.Schema

/-!
# The grammar of an agent's configuration

The models of `domain/agent_spec.py`, the expansion of environment variables
before them, and the keys that they let a document have.
-/

namespace Saarathi

/-- The declared type of a plain field, with its bounds. -/
inductive FieldType where
  | str (minLength : ℕ := 0) (maxLength : Option ℕ := none) (pattern : Option String := none)
  | int (ge le : Option ℤ := none)
  | float (ge gt le : Option ℚ := none)
  | bool
  | literal (values : List String)
  | version (value : ℕ)
  | optional (type : FieldType)

namespace SpecGrammar

/-- A field without a default. -/
def required (name : String) (s : Schema FieldType) : String × Bool × Schema FieldType := (name,true,s)

def defaulted (name : String) (s : Schema FieldType) : String × Bool × Schema FieldType := (name,false,s)

def modelSpec : Schema FieldType := .model .ignore [
  defaulted "provider" (.plain (.literal ["openrouter"])),
  required "name" (.plain .str),
  defaulted "temperature" (.plain (.float (some 0) none (some 2))),
  defaulted "max_tokens" (.plain (.optional (.int (some 1) (some 32768)))),
  defaulted "timeout_s" (.plain (.float none (some 0) (some 300)))]

def routingSpec : Schema FieldType := .model .ignore [
  defaulted "keywords" (.listOf .str),
  defaulted "priority" (.plain (.int (some 0) (some 100))),
  defaulted "pin_session" (.plain .bool),
  defaulted "exit_keywords" (.listOf .str),
  defaulted "confidence_threshold" (.plain (.float (some 0) none (some 1))),
  defaulted "router_selectable" (.plain .bool),
  defaulted "direct_selectable" (.plain .bool)]

def memorySpec : Schema FieldType := .model .ignore [
  defaulted "strategy" (.plain (.literal ["recent","none"])),
  defaulted "history_turns" (.plain (.int (some 0) (some 100))),
  defaulted "include_other_agents" (.plain .bool)]

def limitsSpec : Schema FieldType := .model .ignore [
  defaulted "max_tool_iterations" (.plain (.int (some 0) (some 10))),
  defaulted "max_turns" (.plain (.optional .int)),
  defaulted "rate_limit_per_conversation_per_min" (.plain (.int (some 1))),
  defaulted "rate_limit_per_user_per_min" (.plain (.int (some 1)))]

def retrySpec : Schema FieldType := .model .ignore [
  defaulted "max_attempts" (.plain (.int (some 1) (some 5))),
  defaulted "backoff" (.plain (.literal ["none","linear","exponential"])),
  defaulted "initial_delay_ms" (.plain (.int (some 0))),
  defaulted "retry_on" (.listOf (.literal ["timeout","rate_limit","server_error","connection_error"]))]

def accessSpec : Schema FieldType := .model .ignore [
  defaulted "tenant_codes" (.listOf .str),
  defaulted "organization_codes" (.listOf .str),
  defaulted "required_roles" (.listOf .str),
  defaulted "allow_anonymous" (.plain .bool)]

def featuresSpec : Schema FieldType := .model .ignore [
  defaulted "emit_options" (.plain .bool),
  defaulted "streaming" (.plain .bool),
  defaulted "record_tool_executions" (.plain .bool)]

/-- The fields of `BaseAgentSpec`, the only model that forbids other keys. -/
def baseAgentSpec : List (String × Bool × Schema FieldType) := [
  defaulted "schema_version" (.plain (.version 1)),
  required "key" (.plain (.str 0 none (some "^[a-z][a-z0-9_]\x7b1,62\x7d$"))),
  required "name" (.plain (.str 1 (some 120))),
  required "description" (.plain (.str 1 (some 1000))),
  defaulted "status" (.plain (.literal ["enabled","disabled"])),
  defaulted "default" (.plain .bool),
  defaulted "sort_order" (.plain .int),
  defaulted "capabilities" (.listOf .str),
  defaulted "routing" routingSpec,
  defaulted "memory" memorySpec,
  defaulted "limits" limitsSpec,
  defaulted "retry" retrySpec,
  defaulted "access" accessSpec,
  defaulted "features" featuresSpec]

def llmAgentSpec : Schema FieldType := .model .forbid (baseAgentSpec ++ [
  required "agent_type" (.plain (.literal ["llm"])),
  required "prompt" (.plain (.str 1)),
  defaulted "tools" (.listOf .str),
  required "model" modelSpec])

def mitraHandshakeSpec : Schema FieldType := .model .ignore [
  defaulted "settle_ms" (.plain .int),
  defaulted "ack_types" (.listOf .str),
  defaulted "timeout_ms" (.plain .int)]

def mitraTurnSpec : Schema FieldType := .model .ignore [
  defaulted "first_turn_timeout_ms" (.plain .int),
  defaulted "turn_timeout_ms" (.plain .int),
  defaulted "idle_gap_ms" (.plain .int)]

def remoteSpec : Schema FieldType := .model .ignore [
  required "provider" (.plain (.literal ["mitra"])),
  required "flow_name" (.plain (.literal ["guest-mi-story","guest-discussion"])),
  required "bot_route_env" (.plain .str),
  defaulted "company_env" (.plain .str),
  defaulted "default_language" (.plain (.literal ["en","hi","kn","te"])),
  defaulted "supported_languages" (.listOf .str),
  defaulted "handshake" mitraHandshakeSpec,
  defaulted "turn" mitraTurnSpec,
  defaulted "completion_poll_every_turn" (.plain .bool),
  defaulted "finalize_path" (.plain .str),
  defaulted "finalize_as_guest" (.plain .bool),
  defaulted "report_media_type" (.plain .str)]

def remoteFlowAgentSpec : Schema FieldType := .model .forbid (baseAgentSpec ++ [
  required "agent_type" (.plain (.literal ["remote_flow"])),
  required "remote" remoteSpec])

/-- A character of the class `[A-Za-z0-9_]`. -/
def nameChar (c : Char) : Bool := c.isAlphanum || c == '_'

/-- The placeholder that a text begins with: its name, its default if it has one, and what follows it. -/
def placeholder : List Char → Option (List Char × Option (List Char) × List Char)
  | '$' :: '\x7b' :: cs =>
    if cs.takeWhile nameChar = [] then none
    else match cs.dropWhile nameChar with
      | '\x7d' :: rest => some (cs.takeWhile nameChar,none,rest)
      | ':' :: '-' :: rest =>
        let inside := fun c : Char => c != '\x7d' && c != '\n'
        match rest.dropWhile inside with
        | '\x7d' :: rest' => some (cs.takeWhile nameChar,some (rest.takeWhile inside),rest')
        | _ => none
      | _ => none
  | _ => none

section Documents

variable {α : Type} (J : Judge α FieldType) (ofText : String → α) (environ : String → Option String)

/-- The replacements of `re.sub`, from left to right; the fuel is the length of the text. -/
def substitute : ℕ → List Char → List Char
  | 0,cs => cs
  | _ + 1,[] => []
  | n + 1,c :: cs => match placeholder (c :: cs) with
    | some (name,default,rest) =>
      ((environ (String.ofList name)).map (·.toList) |>.getD (default.getD [])) ++ substitute n rest
    | none => c :: substitute n cs

/-- `_resolve_env_string`. -/
def resolveEnvString (value : String) : String := String.ofList (substitute environ value.length value.toList)

/-- `_resolve_env_in_dict`. -/
def resolveEnv : Value α → Value α := Value.mapScalars fun a => match J.text a with
  | some s => ofText (resolveEnvString environ s)
  | none => a

/-- The member of the union that `agent_type` tells. -/
def variant : Value α → Option (Schema FieldType)
  | .dict es => match Schema.lookup J es "agent_type" with
    | some (.scalar a) => match J.text a with
      | some "llm" => some llmAgentSpec
      | some "remote_flow" => some remoteFlowAgentSpec
      | _ => none
    | _ => none
  | _ => none

/-- Validation as `AgentSpec`. -/
def agentSpecErrors (v : Value α) : List (SchemaError α) := match variant J v with
  | none => [([],.unionTag)]
  | some s => s.errors J (resolveEnv J ofText environ v)

/-- The documents that `sync` reads, up to the first one that is refused. -/
def readSpecs : List (Value α) → Except (List (SchemaError α)) (List (Value α))
  | [] => pure []
  | v :: vs => match agentSpecErrors J ofText environ v with
    | [] => return v :: (← readSpecs vs)
    | es => throw es

/-- The model at a path of the document declares the key. -/
def Declared (v : Value α) (p : List (α ⊕ ℕ)) (k : α) : Prop := ∃ s, variant J v = some s ∧ s.Declares J p k

/-- Every key of the document is declared where it stands. -/
def Strict (v : Value α) : Prop := ∀ p k, v.HasKey p k → Declared J v p k

/-- Every key below the top of the document is. -/
def StrictInside (v : Value α) : Prop := ∀ p k, p ≠ [] → v.HasKey p k → Declared J v p k

/-- The document is no configuration of an agent, whatever the models ignore. -/
def Faulty (v : Value α) : Prop := ∀ s, variant J v = some s → Schema.Fault J s (resolveEnv J ofText environ v)

variable {J ofText environ} {v : Value α}

theorem agentSpecErrors_eq_nil_iff : agentSpecErrors J ofText environ v = [] ↔ ¬ Faulty J ofText environ v := by
  unfold agentSpecErrors Faulty
  cases variant J v with
  | none => simp
  | some s => simp [Schema.errors_eq_nil_iff]

theorem variant_forbids {s : Schema FieldType} (h : variant J v = some s) :
    ∃ es fields, v = .dict es ∧ s = .model .forbid fields := by
  unfold variant at h
  split at h
  · next es =>
    split at h
    · split at h
      · exact ⟨es,_,rfl,(Option.some.inj h).symm⟩
      · exact ⟨es,_,rfl,(Option.some.inj h).symm⟩
      · cases h
    · cases h
  · cases h

/-- The keys at the top of a document that is accepted are declared. -/
theorem declared_of_accepted (h : agentSpecErrors J ofText environ v = []) {k : α} (hk : v.HasKey [] k) :
    Declared J v [] k := by
  have hfault := agentSpecErrors_eq_nil_iff.mp h
  simp only [Faulty,not_forall] at hfault
  obtain ⟨s,hvariant,hfault⟩ := hfault
  obtain ⟨es,fields,rfl,rfl⟩ := variant_forbids hvariant
  refine ⟨_,hvariant,?_⟩
  by_contra hno
  obtain ⟨w,hw⟩ := hk
  have hkey : k ∈ (Value.mapEntries (fun a => match J.text a with
      | some s => ofText (resolveEnvString environ s)
      | none => a) es).map (·.1) := by
    rw [Value.keys_mapEntries]
    exact List.mem_map.mpr ⟨(k,w),hw,rfl⟩
  obtain ⟨⟨k',w'⟩,hmem,rfl⟩ := List.mem_map.mp hkey
  exact hfault (.undeclared hmem fun f hf htext => hno ⟨f,hf,htext⟩)

theorem strict_iff_of_accepted (h : agentSpecErrors J ofText environ v = []) : Strict J v ↔ StrictInside J v := by
  constructor
  · intro hstrict p k _ hk
    exact hstrict p k hk
  · intro hinside p k hk
    by_cases hp : p = []
    · subst hp
      exact declared_of_accepted h hk
    · exact hinside p k hp hk

/-- All documents are read exactly where none is faulty. -/
theorem readSpecs_ok_iff {vs : List (Value α)} :
    (∃ specs, readSpecs J ofText environ vs = .ok specs) ↔ ∀ v ∈ vs, ¬ Faulty J ofText environ v := by
  induction vs with
  | nil => simp [readSpecs,pure,Except.pure]
  | cons v vs ih =>
    rw [List.forall_mem_cons,← ih,← agentSpecErrors_eq_nil_iff,readSpecs]
    cases herrors : agentSpecErrors J ofText environ v with
    | cons e es => simp [throw,throwThe,MonadExceptOf.throw]
    | nil =>
      cases hrest : readSpecs J ofText environ vs with
      | ok specs => simp [bind,Except.bind,pure,Except.pure]
      | error es => simp [bind,Except.bind]

/-- An accepted document has no key that is not declared exactly where it has none below its top, or is
faulty for another reason; and a start reads documents without such a key exactly where none of them has
one below its top, or one of them is faulty. -/
theorem agentSpec_strict_iff (J : Judge α FieldType) (ofText : String → α) (environ : String → Option String) :
    (∀ v, (agentSpecErrors J ofText environ v = [] → Strict J v) ↔ (StrictInside J v ∨ Faulty J ofText environ v)) ∧
    ∀ vs, ((∃ specs, readSpecs J ofText environ vs = .ok specs) → ∀ v ∈ vs, Strict J v) ↔
      ((∀ v ∈ vs, StrictInside J v) ∨ ∃ v ∈ vs, Faulty J ofText environ v) := by
  constructor
  · intro v
    by_cases hok : agentSpecErrors J ofText environ v = []
    · have hfault := agentSpecErrors_eq_nil_iff.mp hok
      simp only [hok,forall_const,hfault,or_false]
      exact strict_iff_of_accepted hok
    · have hfault : Faulty J ofText environ v := by
        by_contra hno
        exact hok (agentSpecErrors_eq_nil_iff.mpr hno)
      exact iff_of_true (fun h => absurd h hok) (.inr hfault)
  · intro vs
    by_cases hall : ∀ v ∈ vs, ¬ Faulty J ofText environ v
    · have hnone : ¬ ∃ v ∈ vs, Faulty J ofText environ v := fun ⟨v,hv,hfault⟩ => hall v hv hfault
      simp only [readSpecs_ok_iff.mpr hall,forall_const,hnone,or_false]
      refine forall₂_congr fun v hv => ?_
      exact strict_iff_of_accepted (agentSpecErrors_eq_nil_iff.mpr (hall v hv))
    · have hsome : ∃ v ∈ vs, Faulty J ofText environ v := by
        simpa only [not_forall,not_not,exists_prop] using hall
      exact iff_of_true (fun h => absurd (readSpecs_ok_iff.mp h) hall) (.inr hsome)

end Documents

/-- A judge of documents whose scalars are all texts. -/
def texts : Judge String FieldType where
  text := some
  plain
    | .str minLength _ _,a => minLength ≤ a.length
    | .literal values,a => values.contains a
    | _,_ => false
  listOf _ _ := false

/-- A configuration with a misspelled temperature in its model. -/
def misspelled : Value String := .dict [("agent_type",.scalar "llm"),("key",.scalar "test_agent"),
  ("name",.scalar "Test Agent"),("description",.scalar "A test agent"),("prompt",.scalar "You are a bot"),
  ("model",.dict [("name",.scalar "qwen"),("temprature",.scalar "0.9")])]

/-- It is accepted. -/
theorem misspelled_accepted : agentSpecErrors texts id (fun _ => none) misspelled = [] ∧
    misspelled.HasKey [.inl "model"] "temprature" ∧ ¬ Declared texts misspelled [.inl "model"] "temprature" := by
  refine ⟨by decide +kernel,⟨.dict [("name",.scalar "qwen"),("temprature",.scalar "0.9")],by simp,.scalar "0.9",by simp⟩,?_⟩
  rintro ⟨s,hvariant,hdeclares⟩
  obtain rfl : llmAgentSpec = s := Option.some.inj hvariant
  simp [llmAgentSpec,baseAgentSpec,required,defaulted,texts,Schema.Declares,modelSpec] at hdeclares

end SpecGrammar
end Saarathi
