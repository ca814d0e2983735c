import Saarathi.FrameParser

/-!
# The text of a frame

What of a text envelope becomes the text of its frame: a string as it is, and of an
internal object only what it says under `response`.
-/

namespace Saarathi
namespace FrameParser

/-- The non-empty strings, with a space between them. -/
def phrase (ss : List String) : String := " ".intercalate (ss.filter (· ≠ ""))

/-- Two phrases as one. -/
def beside (s t : String) : String := if s = "" then t else if t = "" then s else s ++ " " ++ t

section Phrase

variable {s t u : String} {ss ts : List String}

@[simp] theorem beside_empty_left : beside "" t = t := by simp [beside]

@[simp] theorem beside_empty_right : beside s "" = s := by
  by_cases hs : s = ""
  · simp [beside,hs]
  · simp [beside,hs]

theorem beside_assoc : beside (beside s t) u = beside s (beside t u) := by
  by_cases hs : s = ""
  · simp [hs]
  by_cases ht : t = ""
  · simp [ht]
  by_cases hu : u = ""
  · simp [hu]
  have hst : s ++ " " ++ t ≠ "" := by simp [String.append_eq_empty_iff,hs]
  have htu : t ++ " " ++ u ≠ "" := by simp [String.append_eq_empty_iff,ht]
  simp only [beside,if_neg hs,if_neg ht,if_neg hu]
  rw [if_neg hst,if_neg htu]
  simp only [String.append_assoc]

theorem phrase_nil : phrase [] = "" := rfl

theorem intercalate_ne_empty (h : s ≠ "") : " ".intercalate (s :: ss) ≠ "" := by
  cases ss with
  | nil => simpa using h
  | cons t ss => simp [String.intercalate_cons_cons,String.append_eq_empty_iff,h]

theorem phrase_cons : phrase (s :: ss) = beside s (phrase ss) := by
  unfold phrase
  by_cases hs : s = ""
  · simp [hs]
  have hfilter : (s :: ss).filter (· ≠ "") = s :: ss.filter (· ≠ "") := by simp [hs]
  rw [hfilter]
  cases hrest : ss.filter (· ≠ "") with
  | nil => simp
  | cons t ts =>
    have hmem : t ∈ ss.filter (· ≠ "") := by
      rw [hrest]
      exact List.mem_cons_self
    have ht : t ≠ "" := by simpa using (List.mem_filter.mp hmem).2
    rw [String.intercalate_cons_cons,beside,if_neg hs,if_neg (intercalate_ne_empty ht)]

theorem phrase_append : phrase (ss ++ ts) = beside (phrase ss) (phrase ts) := by
  induction ss with
  | nil => rw [List.nil_append,phrase_nil,beside_empty_left]
  | cons s ss ih => rw [List.cons_append,phrase_cons,phrase_cons,ih,beside_assoc]

/-- A phrase of phrases is the phrase of all their strings. -/
theorem phrase_flatten {sss : List (List String)} : phrase (sss.map phrase) = phrase sss.flatten := by
  induction sss with
  | nil => rfl
  | cons ss sss ih => rw [List.map_cons,phrase_cons,ih,List.flatten_cons,phrase_append]

theorem phrase_singleton : phrase [s] = s := by rw [phrase_cons,phrase_nil,beside_empty_right]

theorem phrase_eq_empty_iff : phrase ss = "" ↔ ∀ s ∈ ss, s = "" := by
  induction ss with
  | nil => simp [phrase_nil]
  | cons s ss ih =>
    rw [phrase_cons,List.forall_mem_cons,← ih]
    by_cases hs : s = ""
    · simp [hs]
    by_cases ht : phrase ss = ""
    · simp [ht,hs]
    · simp [beside,hs,ht,String.append_eq_empty_iff]

end Phrase

/-- The strings under `response` that are reached from a value through lists and nested `response`
values, in document order; the number says how deep. -/
def responses : ℕ → Json → List String
  | 0,_ => []
  | n + 1,.obj fields => match Json.get fields "response" with
    | .str s => [s]
    | .obj fields => responses n (.obj fields)
    | .arr items => responses n (.arr items)
    | _ => []
  | n + 1,.arr items => items.flatMap (responses n)
  | _ + 1,_ => []

/-- A string is under a `response` that is reached so. -/
inductive Reached : ℕ → Json → String → Prop
  | here {n : ℕ} {fields : List (String × Json)} {s : String} (h : Json.get fields "response" = .str s) :
      Reached (n + 1) (.obj fields) s
  | nested {n : ℕ} {fields : List (String × Json)} {v : Json} {s : String}
      (h : Json.get fields "response" = v) (hs : Reached n v s) : Reached (n + 1) (.obj fields) s
  | item {n : ℕ} {items : List Json} {v : Json} {s : String} (h : v ∈ items) (hs : Reached n v s) :
      Reached (n + 1) (.arr items) s

section Responses

theorem mem_responses {n : ℕ} {v : Json} {s : String} : s ∈ responses n v ↔ Reached n v s := by
  induction n generalizing v with
  | zero => exact ⟨by simp [responses],fun h => by cases h⟩
  | succ n ih =>
    constructor
    · intro h
      cases v with
      | obj fields =>
        rw [responses] at h
        split at h
        · rename_i t ht
          obtain rfl : s = t := by simpa using h
          exact .here ht
        · rename_i inner hv
          exact .nested hv (ih.mp h)
        · rename_i items hv
          exact .nested hv (ih.mp h)
        · cases h
      | arr items =>
        rw [responses] at h
        obtain ⟨w,hw,hs⟩ := List.mem_flatMap.mp h
        exact .item hw (ih.mp hs)
      | _ => simp [responses] at h
    · intro h
      cases h with
      | here h => simp [responses,h]
      | nested h hs =>
        rw [responses,h]
        have hmem := ih.mpr hs
        cases hs with
        | here _ => exact hmem
        | nested _ _ => exact hmem
        | item _ _ => exact hmem
      | item h hs =>
        rw [responses]
        exact List.mem_flatMap.mpr ⟨_,h,ih.mpr hs⟩

/-- What is recovered from an internal object is a phrase of its responses. -/
theorem recoverResponseText_eq {n : ℕ} {v : Json} :
    recoverResponseText n v = phrase ((responses n v).map Text.strip) := by
  induction n generalizing v with
  | zero => rfl
  | succ n ih =>
    cases v with
    | obj fields =>
      cases hv : Json.get fields "response" with
      | str s =>
        simp only [recoverResponseText,responses,hv,List.map_cons,List.map_nil]
        exact phrase_singleton.symm
      | obj inner =>
        simp only [recoverResponseText,responses,hv]
        exact ih
      | arr items =>
        simp only [recoverResponseText,responses,hv]
        exact ih
      | _ =>
        simp only [recoverResponseText,responses,hv]
        rfl
    | arr items =>
      rw [recoverResponseText,responses,List.map_flatMap,List.flatMap_def,← phrase_flatten,List.map_map]
      have heach : items.map (recoverResponseText n) =
          items.map (phrase ∘ fun v => (responses n v).map Text.strip) := by
        apply List.map_congr_left
        intro v _
        exact ih
      rw [heach]
      rfl
    | _ => rfl

end Responses

variable {b : Builtins}

/-- The message is a text envelope with these fields. -/
def TextEnvelope (b : Builtins) (m : Raw) (text : List (String × Json)) : Prop :=
  ∃ payload, b.jsonLoads m = .ok (.obj payload) ∧ Json.get payload "text" = .obj text

/-- `int` takes the value, or raises what `_coerce_int` catches. -/
def Convertible (b : Builtins) (v : Json) : Prop :=
  ∀ e, int b v = .error e → ∃ msg, e = .python "TypeError" msg ∨ e = .python "ValueError" msg

/-- `int` as Python documents it: of numbers it refuses the infinite ones and the one that is none. -/
structure Builtins.Documented (b : Builtins) : Prop where
  infinite : ∀ literal ∈ ["inf","-inf"], ∃ msg, b.intOfNum literal = .error (.python "OverflowError" msg)
  nan : ∃ msg, b.intOfNum "nan" = .error (.python "ValueError" msg)
  finite : ∀ literal, literal ∉ ["inf","-inf","nan"] → ∃ n, b.intOfNum literal = .ok n
  str : ∀ s, (∃ n, b.intOfStr s = .ok n) ∨ ∃ msg, b.intOfStr s = .error (.python "ValueError" msg)

section Step

theorem coerceInt_ok_iff {v : Json} : (∃ n, coerceInt b v = .ok n) ↔ Convertible b v := by
  unfold coerceInt Convertible
  cases int b v with
  | ok n => simp
  | error e =>
    cases e with
    | python cls msg =>
      dsimp only
      by_cases h : cls = "TypeError" ∨ cls = "ValueError"
      · simp only [if_pos h]
        refine iff_of_true ⟨0,rfl⟩ ?_
        rintro e ⟨⟩
        rcases h with rfl | rfl
        · exact ⟨msg,.inl rfl⟩
        · exact ⟨msg,.inr rfl⟩
      · simp only [if_neg h]
        refine iff_of_false (by simp) ?_
        intro hall
        obtain ⟨msg',heq | heq⟩ := hall _ rfl
        · exact h (.inl (Exn.python.inj heq).1)
        · exact h (.inr (Exn.python.inj heq).1)
    | _ => simp

/-- Only an infinite number is not convertible. -/
theorem Builtins.Documented.convertible_iff (h : b.Documented) {v : Json} :
    Convertible b v ↔ v ≠ .num "inf" ∧ v ≠ .num "-inf" := by
  unfold Convertible
  cases v with
  | num literal =>
    by_cases hinf : literal ∈ ["inf","-inf"]
    · obtain ⟨msg,hmsg⟩ := h.infinite literal hinf
      refine iff_of_false ?_ ?_
      · intro hall
        obtain ⟨msg',heq | heq⟩ := hall _ hmsg
        · exact absurd (Exn.python.inj heq).1 (by decide)
        · exact absurd (Exn.python.inj heq).1 (by decide)
      · simp only [List.mem_cons,List.not_mem_nil,or_false] at hinf
        rcases hinf with rfl | rfl
        · exact fun hne => hne.1 rfl
        · exact fun hne => hne.2 rfl
    · refine iff_of_true ?_ ?_
      · intro e he
        by_cases hnan : literal = "nan"
        · obtain ⟨msg,hmsg⟩ := h.nan
          obtain rfl : Exn.python "ValueError" msg = e := by
            rw [int,hnan,hmsg] at he
            exact Except.error.inj he
          exact ⟨msg,.inr rfl⟩
        · obtain ⟨n,hn⟩ := h.finite literal (by simp_all)
          rw [int,hn] at he
          cases he
      · simp_all
  | str s =>
    refine iff_of_true ?_ (by simp)
    intro e he
    rcases h.str s with ⟨n,hn⟩ | ⟨msg,hmsg⟩
    · rw [int,hn] at he
      cases he
    · rw [int,hmsg] at he
      exact ⟨msg,.inr (Except.error.inj he).symm⟩
  | bool v => exact iff_of_true (by simp [int]) (by simp)
  | _ =>
    refine iff_of_true ?_ (by simp)
    intro e he
    exact ⟨_,.inl (Except.error.inj he).symm⟩

end Step

section Envelope

variable {m : Raw} {text : List (String × Json)}

theorem TextEnvelope.parse_eq (h : TextEnvelope b m text) : parse b m = match parseTextEnvelope b text with
    | .ok f => f
    | .error e => parseError s!"text envelope parse error: {e.str}" := by
  obtain ⟨payload,hm,ht⟩ := h
  cases hf : parseTextEnvelope b text with
  | ok f => simp [parse,hm,parsePayload,ht,hf]
  | error e => simp [parse,hm,parsePayload,ht,hf]

theorem TextEnvelope.parse_error (h : TextEnvelope b m text)
    (hstep : ¬ Convertible b (Json.get text "step")) : ∃ error, parse b m = parseError error := by
  rw [← coerceInt_ok_iff] at hstep
  cases hn : coerceInt b (Json.get text "step") with
  | ok n => exact absurd ⟨n,hn⟩ hstep
  | error e =>
    have hp : parseTextEnvelope b text = .error e := by simp [parseTextEnvelope,hn]
    exact ⟨_,by rw [h.parse_eq,hp]⟩

/-- A frame of a text envelope has the envelope's text, whoever it is from. -/
theorem TextEnvelope.msg_eq (h : TextEnvelope b m text) (hstep : Convertible b (Json.get text "step")) :
    (parse b m).msg = (coerceMessageText b (Json.get text "msg")).1 := by
  obtain ⟨n,hn⟩ := coerceInt_ok_iff.mpr hstep
  rw [h.parse_eq]
  simp only [parseTextEnvelope,hn]
  by_cases hu : coerceStr b (Json.get text "source") = "user"
  · simp only [if_pos hu]
  by_cases hs : coerceStr b (Json.get text "source") = "system" ∨ coerceStr b (Json.get text "error") ≠ ""
  · simp only [if_neg hu,if_pos hs]
  · simp only [if_neg hu,if_neg hs]

/-- The frame is a part of the bot's reply with this text, and the last one exactly if the envelope
has a finish reason. -/
def Promised (f : Frame) (s : String) (finishReason : Json) : Prop :=
  (f.kind = .botChunk ∨ f.kind = .botFinal) ∧ f.msg = s ∧ (f.kind = .botFinal ↔ finishReason.truthy = true)

/-- The text of the bot's frame is kept, whatever its other fields hold, exactly when the step is one
that can be converted. -/
theorem parse_promised_iff {b : Builtins} {m : Raw} {text : List (String × Json)} {s : String}
    (h : TextEnvelope b m text) (hmsg : Json.get text "msg" = .str s)
    (hsource : Json.get text "source" = .str "bot")
    (herror : Json.get text "error" = .null ∨ Json.get text "error" = .str "") :
    Promised (parse b m) s (Json.get text "finish_reason") ↔ Convertible b (Json.get text "step") := by
  have herr : coerceStr b (Json.get text "error") = "" := by
    rcases herror with he | he
    · rw [he]
      rfl
    · rw [he]
      rfl
  by_cases hstep : Convertible b (Json.get text "step")
  · obtain ⟨n,hn⟩ := coerceInt_ok_iff.mpr hstep
    refine iff_of_true ?_ hstep
    have hkind : (parse b m).kind =
        if (Json.get text "finish_reason").truthy then .botFinal else .botChunk := by
      have hbot : ¬ ("bot" = "system" ∨ coerceStr b (Json.get text "error") ≠ "") := by simp [herr]
      rw [h.parse_eq]
      simp only [parseTextEnvelope,hn,hsource,coerceStr,if_neg (show ¬ "bot" = "user" by decide)]
      simp only [coerceStr] at hbot
      rw [if_neg hbot]
    refine ⟨?_,by rw [h.msg_eq hstep,hmsg]; rfl,?_⟩
    · rw [hkind]
      split
      · exact .inr rfl
      · exact .inl rfl
    · rw [hkind]
      split <;> simp_all
  · obtain ⟨error,he⟩ := h.parse_error hstep
    refine iff_of_false ?_ hstep
    rintro ⟨hkind,-,-⟩
    rw [he] at hkind
    rcases hkind with hk | hk
    · cases hk
    · cases hk

end Envelope

/-- Conversions that know the value of one text, and refuse an infinite number. -/
def knowingInfinite (text : String) (v : Json) : Builtins := { knowing text v fun _ => some 0 with
  intOfNum literal := if literal ∈ ["inf","-inf"] then
      .error (.python "OverflowError" "cannot convert float infinity to integer")
    else if literal = "nan" then .error (.python "ValueError" "cannot convert float NaN to integer")
    else .ok 0 }

def infiniteStepText : String := "\x7b\"text\": \x7b\"msg\": \"Hi\", \"source\": \"bot\", \"step\": 1e999\x7d\x7d"

def infiniteStepFields : List (String × Json) :=
  [("msg",.str "Hi"),("source",.str "bot"),("step",.num "inf")]

def infiniteStep : Builtins := knowingInfinite infiniteStepText (.obj [("text",.obj infiniteStepFields)])

theorem infiniteStep_envelope : TextEnvelope infiniteStep (.str infiniteStepText) infiniteStepFields := ⟨_,rfl,rfl⟩

/-- The equivalence at a reply whose step is too large for a float. -/
theorem parse_promised_iff_infinite :
    Promised (parse infiniteStep (.str infiniteStepText)) "Hi" (Json.get infiniteStepFields "finish_reason") ↔
      Convertible infiniteStep (Json.get infiniteStepFields "step") :=
  parse_promised_iff infiniteStep_envelope rfl rfl (.inl rfl)

/-- A reply whose step is too large for a float becomes an error frame, and its text is lost. -/
theorem infiniteStep_lost : TextEnvelope infiniteStep (.str infiniteStepText) infiniteStepFields ∧
    Json.get infiniteStepFields "msg" = .str "Hi" ∧ Json.get infiniteStepFields "source" = .str "bot" ∧
    Json.get infiniteStepFields "error" = .null ∧
    (parse infiniteStep (.str infiniteStepText)).kind = .error ∧
    (parse infiniteStep (.str infiniteStepText)).msg = "" ∧
    ¬ Promised (parse infiniteStep (.str infiniteStepText)) "Hi" (Json.get infiniteStepFields "finish_reason") := by
  have hkind : (parse infiniteStep (.str infiniteStepText)).kind = .error := by decide
  refine ⟨infiniteStep_envelope,rfl,rfl,rfl,hkind,by decide,?_⟩
  rintro ⟨h,-,-⟩
  rw [hkind] at h
  rcases h with h | h
  · cases h
  · cases h

/-- A list or an object. -/
def Internal (v : Json) : Prop := (∃ items, v = .arr items) ∨ ∃ fields, v = .obj fields

theorem coerceMessageText_internal {v : Json} (h : Internal v) :
    coerceMessageText b v = (phrase ((responses recoverDepth v).map Text.strip),true) := by
  rcases h with ⟨items,rfl⟩ | ⟨fields,rfl⟩
  · rw [← recoverResponseText_eq]
    rfl
  · rw [← recoverResponseText_eq]
    rfl

section Leaked

variable {m m₁ m₂ : Raw} {text text₁ text₂ : List (String × Json)}

theorem parseTextEnvelope_congr (hsame : ∀ key, key ≠ "msg" → Json.get text₁ key = Json.get text₂ key)
    (hmsg : coerceMessageText b (Json.get text₁ "msg") = coerceMessageText b (Json.get text₂ "msg")) :
    parseTextEnvelope b text₁ = parseTextEnvelope b text₂ := by
  unfold parseTextEnvelope
  rw [hmsg,hsame "source" (by decide),hsame "step" (by decide),hsame "error" (by decide),
    hsame "finish_reason" (by decide),hsame "extra_content" (by decide)]

theorem phrase_strip_eq_empty_iff {ss : List String} :
    phrase (ss.map Text.strip) = "" ↔ ∀ s ∈ ss, Text.strip s = "" := by
  rw [phrase_eq_empty_iff,List.forall_mem_map]

theorem TextEnvelope.msg_internal_iff (h : TextEnvelope b m text) (hmsg : Internal (Json.get text "msg")) :
    (parse b m).msg = phrase ((responses recoverDepth (Json.get text "msg")).map Text.strip) ↔
      Convertible b (Json.get text "step") ∨
        ∀ s ∈ responses recoverDepth (Json.get text "msg"), Text.strip s = "" := by
  rw [← phrase_strip_eq_empty_iff]
  by_cases hstep : Convertible b (Json.get text "step")
  · refine iff_of_true ?_ (.inl hstep)
    rw [h.msg_eq hstep,coerceMessageText_internal hmsg]
  · obtain ⟨error,he⟩ := h.parse_error hstep
    rw [he]
    simp only [hstep,false_or]
    exact eq_comm

/-- Two leaked payloads that say the same under `response` give the same frame. The text is what they say
there exactly when the step can be converted, or they say nothing. -/
theorem leaked_says_iff {b : Builtins} {m₁ m₂ : Raw} {text₁ text₂ : List (String × Json)}
    (h₁ : TextEnvelope b m₁ text₁) (h₂ : TextEnvelope b m₂ text₂)
    (hmsg₁ : Internal (Json.get text₁ "msg")) (hmsg₂ : Internal (Json.get text₂ "msg"))
    (hsame : ∀ key, key ≠ "msg" → Json.get text₁ key = Json.get text₂ key)
    (hresponses : responses recoverDepth (Json.get text₁ "msg") = responses recoverDepth (Json.get text₂ "msg")) :
    ((parse b m₁).msg = (parse b m₂).msg ∧
      (parse b m₁).msg = phrase ((responses recoverDepth (Json.get text₁ "msg")).map Text.strip) ↔
      Convertible b (Json.get text₁ "step") ∨
        ∀ s ∈ responses recoverDepth (Json.get text₁ "msg"), Text.strip s = "") ∧
    parse b m₁ = parse b m₂ := by
  have hcoerce : coerceMessageText b (Json.get text₁ "msg") = coerceMessageText b (Json.get text₂ "msg") := by
    rw [coerceMessageText_internal hmsg₁,coerceMessageText_internal hmsg₂,hresponses]
  have hparse : parse b m₁ = parse b m₂ := by
    rw [h₁.parse_eq,h₂.parse_eq,parseTextEnvelope_congr hsame hcoerce]
  refine ⟨?_,hparse⟩
  rw [← h₁.msg_internal_iff hmsg₁,hparse]
  exact and_iff_right rfl

end Leaked

def toolCallText : String :=
  "\x7b\"text\": \x7b\"msg\": [\x7b\"response\": \" Hi \"\x7d, \x7b\"name\": \"get_state_information\"\x7d], \"source\": \"bot\", \"step\": 3\x7d\x7d"

def nestedText : String :=
  "\x7b\"text\": \x7b\"msg\": \x7b\"response\": [\x7b\"response\": \" Hi \"\x7d]\x7d, \"source\": \"bot\", \"step\": 3\x7d\x7d"

def leakedFields (msg : Json) (step : String) : List (String × Json) :=
  [("msg",msg),("source",.str "bot"),("step",.num step)]

/-- A response beside a tool call. -/
def toolCall : Json := .arr [.obj [("response",.str " Hi ")],.obj [("name",.str "get_state_information")]]

/-- The same response, under another one. -/
def nestedResponse : Json := .obj [("response",.arr [.obj [("response",.str " Hi ")]])]

def leaks : Builtins := { knowingInfinite toolCallText (.obj [("text",.obj (leakedFields toolCall "3"))]) with
  jsonLoads
    | .str s => if s = toolCallText then .ok (.obj [("text",.obj (leakedFields toolCall "3"))])
      else if s = nestedText then .ok (.obj [("text",.obj (leakedFields nestedResponse "3"))])
      else .error ""
    | .bytes _ => .error "" }

theorem leaks_toolCall : TextEnvelope leaks (.str toolCallText) (leakedFields toolCall "3") := ⟨_,rfl,rfl⟩

theorem leaks_nested : TextEnvelope leaks (.str nestedText) (leakedFields nestedResponse "3") :=
  ⟨[("text",.obj (leakedFields nestedResponse "3"))],rfl,rfl⟩

/-- The tool call leaves no trace in the frame. -/
theorem leaked_says_iff_toolCall : ((parse leaks (.str toolCallText)).msg = (parse leaks (.str nestedText)).msg ∧
      (parse leaks (.str toolCallText)).msg = phrase ((responses recoverDepth toolCall).map Text.strip) ↔
      Convertible leaks (.num "3") ∨ ∀ s ∈ responses recoverDepth toolCall, Text.strip s = "") ∧
    parse leaks (.str toolCallText) = parse leaks (.str nestedText) :=
  leaked_says_iff leaks_toolCall leaks_nested (.inl ⟨_,rfl⟩) (.inr ⟨_,rfl⟩)
    (by
      intro key hkey
      have hne : ¬ "msg" = key := fun h => hkey h.symm
      simp [leakedFields,Json.get,Json.lookup,List.find?,hne])
    rfl

def infiniteLeakText : String := "\x7b\"text\": \x7b\"msg\": \x7b\"response\": \"Hi\"\x7d, \"source\": \"bot\", \"step\": 1e999\x7d\x7d"

def infiniteLeakFields : List (String × Json) := leakedFields (.obj [("response",.str "Hi")]) "inf"

def infiniteLeak : Builtins := knowingInfinite infiniteLeakText (.obj [("text",.obj infiniteLeakFields)])

/-- With a step too large for a float, nothing is recovered of a leaked payload. -/
theorem infiniteLeak_lost : TextEnvelope infiniteLeak (.str infiniteLeakText) infiniteLeakFields ∧
    Internal (Json.get infiniteLeakFields "msg") ∧
    phrase ((responses recoverDepth (Json.get infiniteLeakFields "msg")).map Text.strip) = "Hi" ∧
    (parse infiniteLeak (.str infiniteLeakText)).msg = "" :=
  ⟨⟨_,rfl,rfl⟩,.inr ⟨_,rfl⟩,by decide,by decide⟩

end FrameParser
end Saarathi
