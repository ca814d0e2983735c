import Saarathi.ConfigWrites
import Saarathi.KeyOrder
import Saarathi.SpecGrammar

/-!
# Storing a specification

An instance of `AgentSpec` keeps the dictionary that it was validated from, and
`canonical_json` writes that one: the placeholders of environment variables are
stored, and not what they stand for.
-/

namespace Saarathi
namespace Json

def text : Json → Option String
  | .str s => some s
  | _ => none

mutual

/-- The document of a value; its scalars stay as they are. -/
def document : Json → Value Json
  | .arr items => .list (documentItems items)
  | .obj fields => .dict (documentFields fields)
  | v => .scalar v

def documentItems : List Json → List (Value Json)
  | [] => []
  | v :: vs => v.document :: documentItems vs

def documentFields : List (String × Json) → List (Json × Value Json)
  | [] => []
  | (k,v) :: es => (.str k,v.document) :: documentFields es

end

end Json

/-- What pydantic makes of a scalar: whether a type takes it, and the value that the field then has. -/
structure Coercion where
  takes : FieldType → Json → Bool
  value : FieldType → Json → Json

/-- No scalar of JSON is taken for a list. -/
def Coercion.judge (C : Coercion) : Judge Json FieldType where
  text := Json.text
  plain := C.takes
  listOf _ _ := false

/-- An instance of `AgentSpec`: the values of its declared fields, and the private attribute. -/
structure AgentInstance where
  fields : Json
  unresolvedDict : Json

/-- What the checks before the first write find about an instance, and whether JSONB takes its text. -/
structure SpecChecks where
  toolsKnown : Bool := true
  botRouteSet : Bool := true
  finalizeKnown : Bool := true
  jsonb : Bool := true

namespace SpecGrammar

/-- The defaults of fields that are no models; a model defaults to what its own fields default to. -/
def defaults : List (List String × Json) := [
  (["schema_version"],.num "1"),
  (["status"],.str "enabled"),
  (["default"],.bool false),
  (["sort_order"],.num "100"),
  (["capabilities"],.arr []),
  (["routing","keywords"],.arr []),
  (["routing","priority"],.num "50"),
  (["routing","pin_session"],.bool false),
  (["routing","exit_keywords"],.arr [.str "/exit",.str "cancel",.str "stop"]),
  (["routing","confidence_threshold"],.num "0.5"),
  (["routing","router_selectable"],.bool true),
  (["routing","direct_selectable"],.bool true),
  (["memory","strategy"],.str "recent"),
  (["memory","history_turns"],.num "10"),
  (["memory","include_other_agents"],.bool true),
  (["limits","max_tool_iterations"],.num "3"),
  (["limits","max_turns"],.null),
  (["limits","rate_limit_per_conversation_per_min"],.num "20"),
  (["limits","rate_limit_per_user_per_min"],.num "60"),
  (["retry","max_attempts"],.num "3"),
  (["retry","backoff"],.str "exponential"),
  (["retry","initial_delay_ms"],.num "500"),
  (["retry","retry_on"],.arr [.str "timeout",.str "rate_limit",.str "server_error"]),
  (["access","tenant_codes"],.arr []),
  (["access","organization_codes"],.arr []),
  (["access","required_roles"],.arr []),
  (["access","allow_anonymous"],.bool true),
  (["features","emit_options"],.bool false),
  (["features","streaming"],.bool false),
  (["features","record_tool_executions"],.bool true),
  (["tools"],.arr []),
  (["model","provider"],.str "openrouter"),
  (["model","temperature"],.num "0.0"),
  (["model","max_tokens"],.null),
  (["model","timeout_s"],.num "30.0"),
  (["remote","company_env"],.str "MITRA_COMPANY"),
  (["remote","default_language"],.str "en"),
  (["remote","supported_languages"],.arr [.str "en",.str "hi",.str "kn",.str "te"]),
  (["remote","handshake","settle_ms"],.num "1500"),
  (["remote","handshake","ack_types"],.arr [.str "authenticated",.str "auth_success"]),
  (["remote","handshake","timeout_ms"],.num "5000"),
  (["remote","turn","first_turn_timeout_ms"],.num "60000"),
  (["remote","turn","turn_timeout_ms"],.num "45000"),
  (["remote","turn","idle_gap_ms"],.num "8000"),
  (["remote","completion_poll_every_turn"],.bool true),
  (["remote","finalize_path"],.str "/api/end-story/v2/"),
  (["remote","finalize_as_guest"],.bool false),
  (["remote","report_media_type"],.str "application/pdf")]

/-- The paths of the plain fields that may be left out. -/
def defaultedPaths : List String → Schema FieldType → List (List String)
  | path,.model _ fields => go path fields
  | path,_ => [path]
where
  go : List String → List (String × Bool × Schema FieldType) → List (List String)
  | _,[] => []
  | path,(name,required,s) :: fields =>
    (match s with
      | .model .. => defaultedPaths (path ++ [name]) s
      | _ => if required then [] else [path ++ [name]]) ++ go path fields

section Validation

variable (C : Coercion)

/-- The value of a plain field, or of an element of a list. -/
def element (type : FieldType) : Value Json → Json
  | .scalar a => C.value type a
  | _ => .null

mutual

/-- The value of a place that validates. -/
def fill : List String → Schema FieldType → Value Json → Json
  | _,.plain type,v => element C type v
  | _,.listOf type,.list items => .arr (items.map (element C type))
  | path,.model _ fields,.dict es => .obj (fillFields path fields es)
  | _,_,_ => .null

def fillFields : List String → List (String × Bool × Schema FieldType) → List (Json × Value Json) →
    List (String × Json)
  | _,[],_ => []
  | path,(name,_,s) :: fields,es =>
    (name,match Schema.lookup C.judge es name,s with
      | some v,_ => fill (path ++ [name]) s v
      | none,.model .. => fill (path ++ [name]) s (.dict [])
      | none,_ => (defaults.lookup (path ++ [name])).getD .null) :: fillFields path fields es

end

variable (environ : String → Option String)

/-- The document that the handler of the wrap validator gets. -/
def resolved (d : Json) : Value Json := resolveEnv C.judge Json.str environ d.document

/-- `TypeAdapter(AgentSpec).validate_python`, with `resolve_and_store` around the model that the tag of
the unresolved dictionary tells. -/
def validatePython (d : Json) : Except (List (SchemaError Json)) AgentInstance :=
  match variant C.judge d.document with
  | none => .error [([],.unionTag)]
  | some s => match s.errors C.judge (resolved C environ d) with
    | [] => .ok ⟨fill C [] s (resolved C environ d),d⟩
    | es => .error es

end Validation

/-- `canonical_json`: the text, and the checksum of it. -/
def canonicalJson (sha256 : List Char → String) (spec : AgentInstance) : List Char × String :=
  let text := JsonText.dumps (spec.unresolvedDict.orElse spec.fields)
  (text,sha256 text)

/-- Every plain field that may be left out has a default. -/
theorem defaults_complete : ∀ s ∈ [llmAgentSpec,remoteFlowAgentSpec],
    ∀ path ∈ defaultedPaths [] s, (defaults.lookup path).isSome := by
  decide +kernel

section Alike

open Json JsonText

variable {C : Coercion} {environ : String → Option String} {floatRepr : String → String} {d d' : Json}
  {es es' : List (String × Json)}

theorem documentFields_eq (es : List (String × Json)) :
    documentFields es = es.map fun e => (.str e.1,e.2.document) := by
  induction es with
  | nil => rfl
  | cons e es ih => rw [documentFields,ih,List.map_cons]

theorem lookup_map (f : Json → Value Json) (es : List (String × Json)) (name : String) :
    Schema.lookup C.judge (es.map fun e => (.str e.1,f e.2)) name = (lookup es name).map f := by
  rw [Schema.lookup,lookup,List.find?_map,Option.map_map,Option.map_map]
  have hkey : (fun e : String × Json => decide (C.judge.text (.str e.1) = some name)) = fun e => decide (e.1 = name) := by
    funext e
    simp [Coercion.judge,Json.text]
  exact congrArg (fun p => (es.find? p).map _) hkey

/-- The substitution in the scalars of a document. -/
def substituted (environ : String → Option String) (a : Json) : Json := match a.text with
  | some s => .str (resolveEnvString environ s)
  | none => a

theorem resolved_eq (d : Json) : resolved C environ d = d.document.mapScalars (substituted environ) := rfl

theorem resolved_obj (es : List (String × Json)) : resolved C environ (.obj es) =
    .dict (es.map fun e => (.str e.1,resolved C environ e.2)) := by
  rw [resolved_eq,document,Value.mapScalars]
  congr 1
  induction es with
  | nil => rfl
  | cons e es ih =>
    rw [documentFields,Value.mapEntries,ih]
    rfl

theorem resolved_arr (vs : List Json) : resolved C environ (.arr vs) = .list (vs.map (resolved C environ)) := by
  rw [resolved_eq,document,Value.mapScalars]
  congr 1
  induction vs with
  | nil => rfl
  | cons v vs ih =>
    rw [documentItems,Value.mapItems,ih]
    rfl

theorem text_alike (h : Alike d d') : d.text = d'.text := by
  cases d <;> cases d' <;> simp_all [Alike,sorted,Json.text]

variable (C environ)

/-- The members of a plain list, and what stands at a plain field, do not have keys to order. -/
theorem plain_alike (h : Alike d d') (type : FieldType) :
    Schema.takesPlain C.judge type (resolved C environ d) = Schema.takesPlain C.judge type (resolved C environ d') ∧
      element C type (resolved C environ d) = element C type (resolved C environ d') := by
  cases d <;> cases d' <;> simp_all [Alike,sorted,resolved_obj,resolved_arr,Schema.takesPlain,element]

theorem items_alike {vs ws : List Json} (h : List.Forall₂ Alike vs ws) (type : FieldType) :
    (vs.map (resolved C environ)).all (Schema.takesPlain C.judge type) =
        (ws.map (resolved C environ)).all (Schema.takesPlain C.judge type) ∧
      (vs.map (resolved C environ)).map (element C type) = (ws.map (resolved C environ)).map (element C type) := by
  induction h with
  | nil => exact ⟨rfl,rfl⟩
  | cons hvw _ ih =>
    obtain ⟨htakes,helement⟩ := plain_alike C environ hvw type
    simp only [List.map_cons,List.all_cons,htakes,helement,ih,and_self]

theorem list_alike (h : Alike d d') (type : FieldType) :
    Schema.takesList C.judge type (resolved C environ d) = Schema.takesList C.judge type (resolved C environ d') ∧
      ∀ path, fill C path (.listOf type) (resolved C environ d) = fill C path (.listOf type) (resolved C environ d') := by
  cases d <;> cases d'
  case arr.arr vs ws =>
    obtain ⟨htakes,helements⟩ := items_alike C environ (alike_arr_iff.mp h) type
    rw [resolved_arr,resolved_arr]
    exact ⟨htakes,fun path => by rw [fill,fill,helements]⟩
  all_goals simp_all [Alike,sorted,resolved_obj,fill,Schema.takesList]

theorem alike_obj_cases (h : Alike (.obj es) d) : ∃ es', d = .obj es' := by
  cases d
  case obj es' => exact ⟨es',rfl⟩
  all_goals cases h

theorem extraErrors_alike (h : (es.map (·.1)).Perm (es'.map (·.1))) (fields : List (String × Bool × Schema FieldType)) :
    Schema.extraErrors C.judge (fields.map (·.1)) (es.map fun e => (.str e.1,resolved C environ e.2)) = [] ↔
      Schema.extraErrors C.judge (fields.map (·.1)) (es'.map fun e => (.str e.1,resolved C environ e.2)) = [] := by
  have hkeys : ∀ es : List (String × Json),
      Schema.extraErrors C.judge (fields.map (·.1)) (es.map fun e => (.str e.1,resolved C environ e.2)) = [] ↔
        ∀ k ∈ es.map (·.1), ∃ f ∈ fields, some k = some f.1 := by
    intro es
    rw [Schema.extraErrors_eq_nil_iff,List.forall_mem_map,List.forall_mem_map]
    rfl
  rw [hkeys,hkeys]
  exact forall_congr' fun k => by rw [h.mem_iff]

/-- The lookups of two dictionaries find values that are alike. -/
theorem lookup_alike (hd : Native floatRepr (.obj es)) (h : Alike (.obj es) (.obj es')) (name : String) :
    Option.Rel (fun v w => Native floatRepr v ∧ Alike v w) (lookup es name) (lookup es' name) := by
  have hd' := native_of_alike h hd
  rw [Native,nativeFields_iff] at hd hd'
  have hrel := (alike_obj_iff hd.1 hd'.1).mp h name
  cases hv : lookup es name with
  | none =>
    rw [hv] at hrel
    generalize lookup es' name = w at hrel
    cases hrel
    exact .none
  | some v =>
    have hmem := (mem_iff_lookup hd.1).mpr hv
    rw [hv] at hrel
    generalize lookup es' name = w at hrel
    cases hrel with
    | some hrel => exact .some ⟨hd.2 _ hmem,hrel⟩

mutual

/-- Validation finds the same in values that are alike. -/
theorem errors_fill_alike : (s : Schema FieldType) → (d d' : Json) → Native floatRepr d → Alike d d' →
    (s.errors C.judge (resolved C environ d) = [] ↔ s.errors C.judge (resolved C environ d') = []) ∧
      ∀ path, fill C path s (resolved C environ d) = fill C path s (resolved C environ d')
  | .plain type,d,d',_,h => by
    obtain ⟨htakes,helement⟩ := plain_alike C environ h type
    exact ⟨by rw [Schema.errors,Schema.errors,htakes],fun path => by rw [fill,fill,helement]⟩
  | .listOf type,d,d',_,h => by
    obtain ⟨htakes,hfill⟩ := list_alike C environ h type
    exact ⟨by rw [Schema.errors,Schema.errors,htakes],hfill⟩
  | .model extra fields,.obj es,d',hd,h => by
    obtain ⟨es',rfl⟩ := alike_obj_cases h
    obtain ⟨herrors,hfill⟩ := fields_alike fields es es' (lookup_alike hd h)
    have hextra := extraErrors_alike C environ (keys_perm_of_alike h) fields
    rw [resolved_obj,resolved_obj]
    refine ⟨?_,fun path => by rw [fill,fill,hfill]⟩
    rw [Schema.errors,Schema.errors,List.append_eq_nil_iff,List.append_eq_nil_iff,herrors]
    cases extra with
    | ignore => exact Iff.rfl
    | forbid => exact and_congr_right fun _ => hextra
  | .model extra fields,.null,d',_,h => by cases d' <;> simp_all [Alike,sorted]
  | .model extra fields,.bool b,d',_,h => by cases d' <;> simp_all [Alike,sorted]
  | .model extra fields,.num l,d',_,h => by cases d' <;> simp_all [Alike,sorted]
  | .model extra fields,.str l,d',_,h => by cases d' <;> simp_all [Alike,sorted]
  | .model extra fields,.arr vs,d',_,h => by
    cases d' <;> simp_all [Alike,sorted,resolved_arr,Schema.errors,fill]

theorem fields_alike : (fields : List (String × Bool × Schema FieldType)) → (es es' : List (String × Json)) →
    (∀ name, Option.Rel (fun v w => Native floatRepr v ∧ Alike v w) (lookup es name) (lookup es' name)) →
    (Schema.fieldErrors C.judge fields (es.map fun e => (.str e.1,resolved C environ e.2)) = [] ↔
        Schema.fieldErrors C.judge fields (es'.map fun e => (.str e.1,resolved C environ e.2)) = []) ∧
      ∀ path, fillFields C path fields (es.map fun e => (.str e.1,resolved C environ e.2)) =
        fillFields C path fields (es'.map fun e => (.str e.1,resolved C environ e.2))
  | [],_,_,_ => ⟨Iff.rfl,fun _ => rfl⟩
  | (name,required,s) :: fields,es,es',h => by
    obtain ⟨herrors,hfill⟩ := fields_alike fields es es' h
    have hname := h name
    have hs := errors_fill_alike s
    simp only [Schema.fieldErrors,fillFields,lookup_map,List.append_eq_nil_iff,herrors,hfill]
    generalize lookup es name = v at hname
    generalize lookup es' name = w at hname
    cases hname with
    | none => exact ⟨Iff.rfl,fun _ => rfl⟩
    | some hvw =>
      obtain ⟨herrors',hfill'⟩ := hs _ _ hvw.1 hvw.2
      simp only [Option.map_some,List.map_eq_nil_iff,herrors',hfill',implies_true,and_true]

end

variable {C environ}

theorem variant_obj (es : List (String × Json)) : variant C.judge (document (.obj es)) =
    match (lookup es "agent_type").bind Json.text with
      | some "llm" => some llmAgentSpec
      | some "remote_flow" => some remoteFlowAgentSpec
      | _ => none := by
  rw [document,documentFields_eq,variant,lookup_map]
  cases lookup es "agent_type" with
  | none => rfl
  | some v => cases v <;> rfl

theorem variant_alike (hd : Native floatRepr d) (h : Alike d d') :
    variant C.judge d.document = variant C.judge d'.document := by
  cases d
  case obj es =>
    obtain ⟨es',rfl⟩ := alike_obj_cases h
    have hrel := lookup_alike hd h "agent_type"
    rw [variant_obj,variant_obj]
    generalize lookup es "agent_type" = v at hrel
    generalize lookup es' "agent_type" = w at hrel
    cases hrel with
    | none => rfl
    | some hvw => rw [Option.bind_some,Option.bind_some,text_alike hvw.2]
  all_goals cases d' <;> first | rfl | cases h

end Alike

section Storage

variable (floatRepr : String → String) (sha256 : List Char → String)

/-- The integer that a literal denotes. -/
def integer : List Char → ℤ
  | '-' :: cs => -integer cs
  | cs => cs.foldl (fun n c => 10 * n + (c.toNat - 48)) 0

/-- An attribute of the instance. -/
def getattr (spec : AgentInstance) (name : String) : Json := match spec.fields with
  | .obj fields => Json.get fields name
  | _ => .null

/-- What `sync` writes of a specification: identity columns from its attributes, and the canonical text
as the configuration. -/
def file (spec : AgentInstance) (checks : SpecChecks) : SpecFile where
  key := (getattr spec "key").text.getD ""
  name := (getattr spec "name").text.getD ""
  description := (getattr spec "description").text.getD ""
  agentType := if (getattr spec "agent_type").text = some "llm" then .llm else .remoteFlow
  status := if (getattr spec "status").text = some "enabled" then .enabled else .disabled
  isDefault := (getattr spec "default").truthy
  sortOrder := match getattr spec "sort_order" with
    | .num literal => integer literal.toList
    | _ => 0
  canonical := (JsonText.loads floatRepr (canonicalJson sha256 spec).1).getD .null
  checksum := (canonicalJson sha256 spec).2
  toolsKnown := checks.toolsKnown
  botRouteSet := checks.botRouteSet
  finalizeKnown := checks.finalizeKnown
  jsonb := checks.jsonb

variable {floatRepr} {C : Coercion} {environ environ' : String → Option String} {d d' : Json}
  {spec spec' : AgentInstance}

open Json JsonText

theorem validatePython_eq_ok (h : validatePython C environ d = .ok spec) :
    ∃ s, variant C.judge d.document = some s ∧ s.errors C.judge (resolved C environ d) = [] ∧
      spec = ⟨fill C [] s (resolved C environ d),d⟩ := by
  unfold validatePython at h
  split at h
  · cases h
  · next s hs =>
    split at h
    · next herrors => exact ⟨s,hs,herrors,(Except.ok.inj h).symm⟩
    · cases h

/-- The dictionary is not empty, so that it is what `canonical_json` writes. -/
theorem canonicalJson_eq (h : validatePython C environ d = .ok spec) :
    canonicalJson sha256 spec = (dumps d,sha256 (dumps d)) := by
  obtain ⟨s,hs,-,rfl⟩ := validatePython_eq_ok h
  have htruthy : d.truthy = true := by
    cases d
    case obj es =>
      cases es with
      | nil => cases hs
      | cons e es => rfl
    all_goals cases hs
  rw [canonicalJson,orElse,if_pos htruthy]

/-- A value that is alike validates to the same fields. -/
theorem validatePython_alike (hd : Native floatRepr d) (h : Alike d d') (hv : validatePython C environ d = .ok spec) :
    validatePython C environ d' = .ok ⟨spec.fields,d'⟩ := by
  obtain ⟨s,hs,herrors,rfl⟩ := validatePython_eq_ok hv
  obtain ⟨herrors',hfill⟩ := errors_fill_alike C environ s d d' hd h
  rw [variant_alike hd h] at hs
  rw [herrors'] at herrors
  simp only [validatePython,hs,herrors,hfill]

end Storage

end SpecGrammar

open JsonText SpecGrammar in
/-- What is stored for a specification validates, in whatever order its keys come back, to the same values of
all fields, with the same text and checksum. The row of a configuration is the same under any environment. -/
theorem configuration_survives {floatRepr : String → String} {sha256 : List Char → String} {C : Coercion}
    {environ : String → Option String} {d : Json} {spec : AgentInstance} (hd : Native floatRepr d)
    (h : validatePython C environ d = .ok spec) :
    (∃ stored, loads floatRepr (canonicalJson sha256 spec).1 = some stored ∧ ∀ config, Json.Alike stored config →
      ∃ spec', validatePython C environ config = .ok spec' ∧ spec'.fields = spec.fields ∧
        Json.Alike spec'.unresolvedDict spec.unresolvedDict ∧
        canonicalJson sha256 spec' = canonicalJson sha256 spec) ∧
    ∀ environ' spec', validatePython C environ' d = .ok spec' →
      canonicalJson sha256 spec' = canonicalJson sha256 spec ∧
      ∀ (agent : AgentId) (version : ℤ) (source : ConfigSource) (active : Bool) (now : ℕ) (checks checks' : SpecChecks),
        Catalogue.versionRow agent version source (file floatRepr sha256 spec' checks') active now =
          Catalogue.versionRow agent version source (file floatRepr sha256 spec checks) active now := by
  have htext := canonicalJson_eq sha256 h
  constructor
  · refine ⟨d.sorted,by rw [htext,loads_dumps hd],fun config hconfig => ?_⟩
    have halike : Json.Alike d config := (Json.alike_sorted d).trans hconfig
    have hvalid := validatePython_alike hd halike h
    obtain ⟨s,-,-,rfl⟩ := validatePython_eq_ok h
    refine ⟨_,hvalid,rfl,halike.symm,?_⟩
    rw [canonicalJson_eq sha256 hvalid,htext,dumps,dumps,show d.sorted = config.sorted from halike]
  · intro environ' spec' h'
    have hsame : canonicalJson sha256 spec' = canonicalJson sha256 spec := by rw [htext,canonicalJson_eq sha256 h']
    refine ⟨hsame,fun agent version source active now checks checks' => ?_⟩
    simp only [Catalogue.versionRow,file,hsame]

namespace SpecGrammar

section Sample

/-- A part of what pydantic takes: no text is read as a number, and patterns are not looked at. -/
def literalCoercion : Coercion where
  takes
    | .str minLength maxLength _,.str s => minLength ≤ s.length && maxLength.all fun n => s.length ≤ n
    | .literal values,.str s => values.contains s
    | .float _ _ _,.num _ => true
    | _,_ => false
  value _ a := a

/-- A configuration whose name is a placeholder. -/
def placeholderName : Json := .obj [("key",.str "helper"),("agent_type",.str "llm"),("name",.str "$\x7bSECRET\x7d"),
  ("description",.str "Helps"),("prompt",.str "You help"),("model",.obj [("temperature",.num "0.5"),("name",.str "qwen")])]

def secretEnviron (name : String) : Option String := if name = "SECRET" then some "hunter2" else none

theorem eq_ok_of_toOption {ε α : Type} {x : Except ε α} {a : α} (h : x.toOption = some a) : x = .ok a := by
  cases x with
  | ok b => exact congrArg Except.ok (Option.some.inj h)
  | error e => cases h

theorem native_placeholderName : JsonText.Native id placeholderName := by
  have hnumber : JsonText.readNumber id "0.5".toList = some (.num "0.5",[]) := rfl
  simpa [placeholderName,JsonText.Native,JsonText.NativeFields] using hnumber

end Sample

end SpecGrammar

open JsonText SpecGrammar in
/-- The stored text of a configuration with a placeholder validates to the same fields. -/
theorem configuration_survives_sample : ∃ spec stored spec',
    validatePython literalCoercion secretEnviron placeholderName = .ok spec ∧
      loads id (canonicalJson String.ofList spec).1 = some stored ∧
      validatePython literalCoercion secretEnviron stored = .ok spec' ∧ spec'.fields = spec.fields := by
  obtain ⟨spec,hspec⟩ : ∃ spec, validatePython literalCoercion secretEnviron placeholderName = .ok spec := ⟨_,rfl⟩
  have hsurvives := @configuration_survives id String.ofList _ _ _ _ native_placeholderName hspec
  obtain ⟨⟨stored,hstored,hback⟩,-⟩ := hsurvives
  obtain ⟨spec',hspec',hfields,-⟩ := hback stored rfl
  exact ⟨spec,stored,spec',hspec,hstored,hspec',hfields⟩

open JsonText SpecGrammar in
/-- The row of the agent holds what the placeholder in its name stands for. -/
theorem secret_in_agents : Native id placeholderName ∧ ∃ spec w,
    validatePython literalCoercion secretEnviron placeholderName = .ok spec ∧
      ConfigSyncService.sync true .safe firstRow 1 [some (file id String.ofList spec {})] Catalogue.blank = .ok w ∧
      w.catalogue.agents.map (·.name) = ["hunter2"] := by
  have hnames : ((validatePython literalCoercion secretEnviron placeholderName).toOption.bind fun spec =>
      (ConfigSyncService.sync true .safe firstRow 1 [some (file id String.ofList spec {})] Catalogue.blank).toOption.map
        fun w => w.catalogue.agents.map (·.name)) = some ["hunter2"] := by
    decide +kernel
  obtain ⟨spec,hspec,hnames⟩ := Option.bind_eq_some_iff.mp hnames
  obtain ⟨w,hw,hnames⟩ := Option.map_eq_some_iff.mp hnames
  exact ⟨native_placeholderName,spec,w,eq_ok_of_toOption hspec,eq_ok_of_toOption hw,hnames⟩

end Saarathi
