import Saarathi.FrameText

/-!
# Legacy envelopes

A legacy envelope has its text under one of four keys. `parse` looks at one of them
before it looks at the envelope's type, and this module says for which envelopes
that makes no difference.
-/

namespace Saarathi
namespace FrameParser

/-- The keys under which a legacy envelope has its text. -/
def messageKeys : List String := ["msg","message","text","content"]

/-- The other fields that a legacy envelope is made of. -/
def legacyKeys : List String := ["type","error","err","options","choices","finish_reason","source"]

/-- The object has the string under `key`, and otherwise what `rest` has. -/
def Carries (payload : List (String × Json)) (key s : String) (rest : List (String × Json)) : Prop :=
  ∀ k, Json.lookup payload k = if k = key then some (.str s) else Json.lookup rest k

/-- Two frames that read the same. -/
structure Alike (f g : Frame) : Prop where
  kind : f.kind = g.kind
  source : f.source = g.source
  msg : f.msg = g.msg
  error : f.error = g.error
  finishReason : f.finishReason = g.finishReason
  options : f.options = g.options

/-- What a legacy envelope offers to choose from. -/
def offered (rest : List (String × Json)) : Json :=
  (Json.get rest "options").orElse ((Json.get rest "choices").orElse (.arr []))

/-- It is no list that has an object in it. -/
def Choiceless (v : Json) : Prop := ∀ items, v = .arr items → ∀ item ∈ items, ∀ fields, item ≠ .obj fields

variable {b : Builtins} {payload payload' rest : List (String × Json)} {key key' s t : String}

namespace Alike

theorem refl (f : Frame) : Alike f f := ⟨rfl,rfl,rfl,rfl,rfl,rfl⟩

theorem symm {f g : Frame} (h : Alike f g) : Alike g f :=
  ⟨h.kind.symm,h.source.symm,h.msg.symm,h.error.symm,h.finishReason.symm,h.options.symm⟩

end Alike

section Legacy

theorem Carries.get_key (h : Carries payload key s rest) : Json.get payload key = .str s := by
  rw [Json.get,h key,if_pos rfl,Option.getD_some]

theorem Carries.get_ne {k : String} (h : Carries payload key s rest) (hk : k ≠ key) :
    Json.get payload k = Json.get rest k := by
  rw [Json.get,h k,if_neg hk,Json.get]

theorem Carries.get_legacy (h : Carries payload key s rest) (hkey : key ∈ messageKeys) {k : String}
    (hk : k ∈ legacyKeys) : Json.get payload k = Json.get rest k := by
  have hapart : ∀ k ∈ legacyKeys, k ∉ messageKeys := by decide
  apply h.get_ne
  rintro rfl
  exact hapart k hk hkey

/-- Under whichever key it is, the string is the text. -/
theorem Carries.message (h : Carries payload key s rest) (hkey : key ∈ messageKeys)
    (hrest : ∀ k ∈ messageKeys, Json.lookup rest k = none) :
    coerceMessageText b ((Json.get payload "msg").orElse ((Json.get payload "message").orElse
      ((Json.get payload "text").orElse (Json.get payload "content")))) = (s,false) := by
  have hget : ∀ k ∈ messageKeys, Json.get payload k = if k = key then .str s else .null := by
    intro k hk
    rw [Json.get,h k,hrest k hk]
    split <;> rfl
  have hstr : (Json.str s).orElse .null = if s = "" then .null else .str s := by
    by_cases hs : s = "" <;> simp [Json.orElse,Json.truthy,hs]
  have htext : ∀ v : Json, v = .str s ∨ v = (if s = "" then .null else .str s) →
      coerceMessageText b v = (s,false) := by
    rintro v (rfl | rfl)
    · rfl
    · split
      · rename_i hs
        rw [hs]
        rfl
      · rfl
  apply htext
  rw [hget "msg" (by decide),hget "message" (by decide),hget "text" (by decide),hget "content" (by decide)]
  simp only [messageKeys,List.mem_cons,List.not_mem_nil,or_false] at hkey
  rcases hkey with rfl | rfl | rfl | rfl
  · exact .inr hstr
  · exact .inr hstr
  · exact .inr hstr
  · exact .inl rfl

/-- The frame of a legacy envelope, from its text and the other fields. -/
theorem parseLegacyEnvelope_congr
    (hmsg : coerceMessageText b ((Json.get payload "msg").orElse ((Json.get payload "message").orElse
        ((Json.get payload "text").orElse (Json.get payload "content")))) =
      coerceMessageText b ((Json.get payload' "msg").orElse ((Json.get payload' "message").orElse
        ((Json.get payload' "text").orElse (Json.get payload' "content")))))
    (hget : ∀ k ∈ legacyKeys, Json.get payload k = Json.get payload' k) :
    parseLegacyEnvelope b payload = parseLegacyEnvelope b payload' := by
  unfold parseLegacyEnvelope legacySource envelopeType
  dsimp only
  rw [hmsg,hget "type" (by decide),hget "error" (by decide),hget "err" (by decide),
    hget "options" (by decide),hget "choices" (by decide),hget "finish_reason" (by decide),
    hget "source" (by decide)]

theorem isLegacy_of_type (h : Json.get payload "type" = .str t) : isLegacy payload = true := by
  have hsome : (Json.lookup payload "type").isSome = true := by
    cases hl : Json.lookup payload "type" with
    | none => simp [Json.get,hl] at h
    | some v => rfl
  simp [isLegacy,hsome]

theorem parsePayload_legacy (h : Carries payload key s rest) (hkey : key ∈ messageKeys) (hne : key ≠ "text")
    (hrest : ∀ k ∈ messageKeys, Json.lookup rest k = none) (ht : Json.get rest "type" = .str t) :
    parsePayload b payload = parseLegacyEnvelope b payload := by
  have htext : Json.get payload "text" = .null := by
    rw [h.get_ne hne.symm,Json.get,hrest "text" (by decide)]
    rfl
  have htype : Json.get payload "type" = .str t := by rw [h.get_legacy hkey (by decide),ht]
  simp only [parsePayload,htext,isLegacy_of_type htype,if_true]

theorem parsePayload_text (h : Carries payload "text" s rest) :
    parsePayload b payload = parseBareText b payload s := by
  simp only [parsePayload,h.get_key]

/-- `_normalise_options` offers nothing exactly where there is no object to choose. -/
theorem optionsOf_eq_nil_iff {option : ℕ → List (String × Json) → TurnOption} {items : List Json} :
    optionsOf option items = [] ↔ ∀ item ∈ items, ∀ fields, item ≠ .obj fields := by
  rw [optionsOf,List.filterMap_eq_nil_iff]
  constructor
  · rintro h item hmem fields rfl
    obtain ⟨i,hi⟩ := List.mem_iff_getElem?.mp hmem
    have hnone := h (.obj fields,i) (List.mem_zipIdx_iff_getElem?.mpr hi)
    simp at hnone
  · rintro h ⟨item,i⟩ hmem
    have hne := h item (List.mem_of_getElem? (List.mem_zipIdx_iff_getElem?.mp hmem))
    cases item with
    | obj fields => exact absurd rfl (hne fields)
    | _ => rfl

theorem offered_eq_nil_iff {opts : Json} :
    normaliseOptions b (if opts.truthy then .obj [("options",opts)] else .obj []) = [] ↔ Choiceless opts := by
  by_cases ht : opts.truthy = true
  · rw [if_pos ht]
    cases opts with
    | arr items =>
      have hopts : normaliseOptions b (.obj [("options",.arr items)]) = optionsOf (choice b) items := rfl
      rw [hopts,optionsOf_eq_nil_iff]
      constructor
      · rintro h items' ⟨⟩
        exact h
      · exact fun h => h items rfl
    | _ => exact iff_of_true rfl fun items h => by cases h
  · rw [if_neg ht]
    refine iff_of_true rfl ?_
    rintro items rfl
    have hnil : items = [] := by simpa [Json.truthy] using ht
    simp [hnil]

/-- The envelope's type has the text's key read as the other keys are. -/
def SaysTheSame (b : Builtins) (rest : List (String × Json)) : Prop :=
  envelopeType b rest ∈ legacyBotTypes ∨ envelopeType b rest = "text" ∨
    (envelopeType b rest ∈ legacyOptionTypes ∧ coerceStr b (Json.get rest "finish_reason") = "stop" ∧
      Choiceless (offered rest))

theorem finishOf_eq_stop_iff {v : Json} : finishOf b v = some "stop" ↔ coerceStr b v = "stop" := by
  unfold finishOf
  split
  · rename_i h
    simp [h]
  · exact ⟨Option.some.inj,congrArg some⟩

/-- The degenerate envelope against the legacy one. -/
theorem alike_iff (h : Carries payload key s rest) (hkey : key ∈ messageKeys)
    (hrest : ∀ k ∈ messageKeys, Json.lookup rest k = none) :
    Alike (parseBareText b rest s) (parseLegacyEnvelope b payload) ↔ SaysTheSame b rest := by
  have htype : envelopeType b payload = envelopeType b rest := by
    rw [envelopeType,h.get_legacy hkey (by decide),envelopeType]
  have hmsg := h.message (b := b) hkey hrest
  have hsystem : ∀ t ∈ legacySystemTypes, t ∉ legacyBotTypes ∧ t ≠ "text" ∧ t ∉ legacyOptionTypes := by decide
  have hoption : ∀ t ∈ legacyOptionTypes, t ∉ legacyBotTypes ∧ t ≠ "text" := by decide
  unfold SaysTheSame parseLegacyEnvelope
  dsimp only
  rw [hmsg,htype]
  dsimp only
  by_cases hsys : envelopeType b rest ∈ legacySystemTypes
  · rw [if_pos hsys]
    obtain ⟨hbot,htext,hopt⟩ := hsystem _ hsys
    refine iff_of_false (fun halike => ?_) (by simp [hbot,htext,hopt])
    exact absurd halike.source (by decide : ¬ "bot" = "system")
  rw [if_neg hsys]
  by_cases hopt : envelopeType b rest ∈ legacyOptionTypes
  · rw [if_pos hopt]
    obtain ⟨hbot,htext⟩ := hoption _ hopt
    have hoffered : (Json.get payload "options").orElse ((Json.get payload "choices").orElse (.arr [])) =
        offered rest := by
      rw [h.get_legacy hkey (by decide),h.get_legacy hkey (by decide),offered]
    rw [hoffered]
    simp only [hbot,htext,hopt,false_or,true_and]
    constructor
    · intro halike
      exact ⟨finishOf_eq_stop_iff.mp halike.finishReason,offered_eq_nil_iff.mp halike.options.symm⟩
    · rintro ⟨hstop,hnone⟩
      have hfinish := finishOf_eq_stop_iff.mpr hstop
      refine ⟨?_,rfl,rfl,rfl,hfinish,(offered_eq_nil_iff.mpr hnone).symm⟩
      simp [parseBareText,hfinish]
  rw [if_neg hopt]
  by_cases hbot : envelopeType b rest ∈ legacyBotTypes ∨ envelopeType b rest = "text"
  · rw [if_pos hbot]
    refine iff_of_true ?_ (by tauto)
    have hfinish : Json.get payload "finish_reason" = Json.get rest "finish_reason" :=
      h.get_legacy hkey (by decide)
    rw [hfinish]
    exact ⟨rfl,rfl,rfl,rfl,rfl,rfl⟩
  · rw [if_neg hbot]
    refine iff_of_false (fun halike => ?_) (by tauto)
    have hkind := halike.kind
    simp only [parseBareText] at hkind
    split at hkind
    · cases hkind
    · cases hkind

/-- A legacy envelope reads the same under whichever key its text is, exactly when its type is one of the
bot's, or when it is a choice that offers nothing and is stopped. -/
theorem legacy_alike_iff {b : Builtins} {m : String → Raw} {rest : List (String × Json)} {s t : String}
    (hm : ∀ key ∈ messageKeys, ∃ payload, b.jsonLoads (m key) = .ok (.obj payload) ∧ Carries payload key s rest)
    (hrest : ∀ key ∈ messageKeys, Json.lookup rest key = none) (ht : Json.get rest "type" = .str t) :
    (∀ key ∈ messageKeys, ∀ key' ∈ messageKeys, Alike (parse b (m key)) (parse b (m key'))) ↔
      SaysTheSame b rest := by
  obtain ⟨first,hfirst,hcarries⟩ := hm "msg" (by decide)
  rw [← alike_iff hcarries (by decide) hrest]
  have hlegacy : ∀ key ∈ messageKeys, key ≠ "text" → parse b (m key) = parseLegacyEnvelope b first := by
    intro key hkey hne
    obtain ⟨payload,hload,hpayload⟩ := hm key hkey
    have hparse : parse b (m key) = parsePayload b payload := by simp only [parse,hload]
    rw [hparse,parsePayload_legacy hpayload hkey hne hrest ht]
    apply parseLegacyEnvelope_congr
    · rw [hpayload.message hkey hrest,hcarries.message (by decide) hrest]
    · intro k hk
      rw [hpayload.get_legacy hkey hk,hcarries.get_legacy (by decide) hk]
  have htext : parse b (m "text") = parseBareText b rest s := by
    obtain ⟨payload,hload,hpayload⟩ := hm "text" (by decide)
    have hparse : parse b (m "text") = parsePayload b payload := by simp only [parse,hload]
    have hfinish : Json.get payload "finish_reason" = Json.get rest "finish_reason" :=
      hpayload.get_legacy (by decide) (by decide)
    rw [hparse,parsePayload_text hpayload,parseBareText,hfinish,parseBareText]
  constructor
  · intro h
    rw [← htext,← hlegacy "msg" (by decide) (by decide)]
    exact h "text" (by decide) "msg" (by decide)
  · intro h key hkey key' hkey'
    by_cases hne : key = "text"
    · by_cases hne' : key' = "text"
      · rw [hne,hne']
        exact .refl _
      · rw [hne,htext,hlegacy key' hkey' hne']
        exact h
    · by_cases hne' : key' = "text"
      · rw [hne',htext,hlegacy key hkey hne]
        exact h.symm
      · rw [hlegacy key hkey hne,hlegacy key' hkey' hne']
        exact .refl _

end Legacy

theorem carries_append (h : Json.lookup rest key = none) : Carries (rest ++ [(key,.str s)]) key s rest := by
  intro k
  have happend : Json.lookup (rest ++ [(key,.str s)]) k = (Json.lookup rest k).or (Json.lookup [(key,.str s)] k) := by
    rw [Json.lookup,List.find?_append,Json.lookup,Json.lookup]
    cases rest.find? (·.1 = k) <;> rfl
  rw [happend]
  by_cases hk : k = key
  · rw [if_pos hk,hk,h]
    simp [Json.lookup]
  · have hne : ¬ key = k := fun he => hk he.symm
    rw [if_neg hk]
    have hnone : Json.lookup [(key,.str s)] k = none := by simp [Json.lookup,hne]
    rw [hnone,Option.or_none]

/-- The end of a session, with its text under `key`. -/
def sessionEndText (key : String) : String :=
  "\x7b\"type\": \"session_end\", \"" ++ key ++ "\": \"Goodbye\"\x7d"

def sessionEndFields : List (String × Json) := [("type",.str "session_end")]

def sessionEnd : Builtins := { knowing "" .null fun _ => none with
  jsonLoads
    | .str s => match messageKeys.find? fun key => sessionEndText key = s with
      | some key => .ok (.obj (sessionEndFields ++ [(key,.str "Goodbye")]))
      | none => .error ""
    | .bytes _ => .error "" }

theorem sessionEnd_rest : ∀ key ∈ messageKeys, Json.lookup sessionEndFields key = none := by
  simp [messageKeys,sessionEndFields,Json.lookup]

theorem sessionEnd_loads : ∀ key ∈ messageKeys, ∃ payload,
    sessionEnd.jsonLoads (.str (sessionEndText key)) = .ok (.obj payload) ∧
      Carries payload key "Goodbye" sessionEndFields := by
  intro key hkey
  refine ⟨_,?_,carries_append (sessionEnd_rest key hkey)⟩
  simp only [messageKeys,List.mem_cons,List.not_mem_nil,or_false] at hkey
  rcases hkey with rfl | rfl | rfl | rfl
  all_goals rfl

/-- The equivalence at the end of a session. -/
theorem legacy_alike_iff_sessionEnd : (∀ key ∈ messageKeys, ∀ key' ∈ messageKeys,
    Alike (parse sessionEnd (.str (sessionEndText key))) (parse sessionEnd (.str (sessionEndText key')))) ↔
      SaysTheSame sessionEnd sessionEndFields :=
  legacy_alike_iff (m := fun key => .str (sessionEndText key)) sessionEnd_loads sessionEnd_rest rfl

/-- The end of a session is a message of the system, but under `text` it is a part of the reply. -/
theorem sessionEnd_shown : (parse sessionEnd (.str (sessionEndText "msg"))).kind = .system ∧
    (parse sessionEnd (.str (sessionEndText "text"))).kind = .botChunk ∧
    ¬ ∀ key ∈ messageKeys, ∀ key' ∈ messageKeys,
      Alike (parse sessionEnd (.str (sessionEndText key))) (parse sessionEnd (.str (sessionEndText key'))) := by
  have hmsg : (parse sessionEnd (.str (sessionEndText "msg"))).kind = .system := by decide
  have htext : (parse sessionEnd (.str (sessionEndText "text"))).kind = .botChunk := by decide
  refine ⟨hmsg,htext,?_⟩
  intro h
  have hkind := (h "msg" (by decide) "text" (by decide)).kind
  rw [hmsg,htext] at hkind
  cases hkind

end FrameParser
end Saarathi
