import Saarathi.FrameParser

/-!
# Frames and their kinds

The channel decides what to do with a frame from its source and its error, not
from the kind that the parser gave it. This module says for which messages the
two agree.
-/

namespace Saarathi
namespace FrameParser

open Channel

section Treatment

variable (c : Chan) (l : Loop) (a : Arrival)

/-- The loop goes on with the same text, options and step. -/
def Ignored : Prop :=
  ∃ l', c.process l a = { c with pc := some (.checking l') } ∧
    l'.chunks = l.chunks ∧ l'.options = l.options ∧ l'.step = l.step

/-- The turn ends with `MitraRemoteError`. -/
def Refused : Prop := ∃ msg, c.process l a = c.finish (.raised l.turn (.mitra (.remote msg)))

/-- The frame's text is added to the turn's. -/
def Accumulated (l' : Loop) : Prop := String.join l'.chunks = String.join l.chunks ++ a.frame.msg

/-- The text is added and the turn goes on. -/
def Continued : Prop :=
  ∃ l', c.process l a = { c with pc := some (.checking l') } ∧ Accumulated l a l'

/-- The text is added and the turn ends. -/
def Completed : Prop := ∃ l', c.process l a = c.flush l' ∧ Accumulated l a l'

/-- What the kind of a frame says the channel does with it; `reports` says whether it was made from
a text envelope with an error. -/
def Documented (reports : Prop) : FrameKind → Prop
  | .botChunk => Continued c l a
  | .botFinal => Completed c l a
  | .userEcho => Ignored c l a
  | .system => (Ignored c l a ∨ Refused c l a) ∧ (reports → Refused c l a)
  | .error => Ignored c l a

end Treatment

/-- Whatever the state of the turn, the channel treats the frame as its kind says. -/
def Frame.Honoured (f : Frame) (reports : Prop) : Prop :=
  ∀ c l n, Documented c l ⟨f.toFrame,n⟩ reports f.kind

section Process

variable {c : Chan} {l : Loop} {a : Arrival}

theorem ignored_of_user (h : a.frame.source = "user") : Ignored c l a :=
  ⟨l,by simp [Chan.process,h],rfl,rfl,rfl⟩

theorem ignored_of_source (h : a.frame.source ≠ "bot")
    (he : a.frame.source = "system" → a.frame.error = "") : Ignored c l a := by
  refine ⟨l,?_,rfl,rfl,rfl⟩
  by_cases huser : a.frame.source = "user"
  · simp [Chan.process,huser]
  · have hsys : ¬ (a.frame.source = "system" ∧ a.frame.error ≠ "") := fun hs => hs.2 (he hs.1)
    rw [Chan.process,if_neg huser,if_neg hsys,if_pos h]

theorem refused_of_system (h : a.frame.source = "system") (he : a.frame.error ≠ "") :
    Refused c l a := by
  refine ⟨if a.frame.msg = "" then a.frame.error else a.frame.msg,?_⟩
  simp [Chan.process,h,he]

theorem process_bot (h : a.frame.source = "bot") : c.process l a =
    if a.frame.finishReason.getD "" ≠ "" then c.flush (c.accumulate l a)
    else { c with pc := some (.checking (c.accumulate l a)) } := by
  simp [Chan.process,h]

theorem accumulated_accumulate : Accumulated l a (c.accumulate l a) := by
  unfold Accumulated Chan.accumulate
  by_cases hm : a.frame.msg = ""
  · simp [hm]
  · simp [hm,String.join]

theorem continued_of_bot (h : a.frame.source = "bot") (hf : a.frame.finishReason.getD "" = "") :
    Continued c l a := by
  refine ⟨c.accumulate l a,?_,accumulated_accumulate⟩
  rw [process_bot h,if_neg (not_not.mpr hf)]

theorem completed_of_bot (h : a.frame.source = "bot") (hf : a.frame.finishReason.getD "" ≠ "") :
    Completed c l a := by
  refine ⟨c.accumulate l a,?_,accumulated_accumulate⟩
  rw [process_bot h,if_pos hf]

/-- A frame of another source is read over. -/
theorem process_other (hu : a.frame.source ≠ "user") (hs : a.frame.source ≠ "system")
    (hb : a.frame.source ≠ "bot") : c.process l a = { c with pc := some (.checking l) } := by
  simp [Chan.process,hu,hs,hb]

end Process

/-- A turn that has read nothing yet. -/
def atStart : Loop := { turn := 1, deadline := 1, idleGap := 1, lastRx := 0 }

theorem ne_finish {c : Chan} {p : Pc} {o : Channel.Outcome} : { c with pc := some p } ≠ c.finish o := by
  intro h
  have hpc : some p = none := congrArg Chan.pc h
  cases hpc

/-- A step of a turn that has read nothing comes from the frame. -/
theorem not_ignored_of_bot {a : Arrival} {n : ℤ} (h : a.frame.source = "bot")
    (hf : a.frame.finishReason = none) (hstep : a.frame.step = some n) :
    ¬ Ignored {} atStart a := by
  rintro ⟨l',hp,-,-,hl'⟩
  have hproc : ({} : Chan).process atStart a =
      { ({} : Chan) with pc := some (.checking (({} : Chan).accumulate atStart a)) } := by
    rw [process_bot h,hf]
    rfl
  have hpc : some (Pc.checking (({} : Chan).accumulate atStart a)) = some (.checking l') :=
    congrArg Chan.pc (hproc.symm.trans hp)
  obtain rfl : ({} : Chan).accumulate atStart a = l' := by simpa using hpc
  have hn : (({} : Chan).accumulate atStart a).step = some n := by simp [Chan.accumulate,hstep]
  rw [hn] at hl'
  cases hl'

/-- Only a frame of the system raises. -/
theorem not_refused {c : Chan} {l : Loop} {a : Arrival} (h : a.frame.source ≠ "system")
    (hf : a.frame.finishReason = none) : ¬ Refused c l a := by
  rintro ⟨msg,hp⟩
  have hsys : ¬ (a.frame.source = "system" ∧ a.frame.error ≠ "") := fun hs => h hs.1
  by_cases huser : a.frame.source = "user"
  · rw [Chan.process,if_pos huser] at hp
    exact ne_finish hp
  by_cases hbot : a.frame.source = "bot"
  · rw [process_bot hbot,hf] at hp
    exact ne_finish hp
  · rw [process_other huser h hbot] at hp
    exact ne_finish hp

namespace Frame

variable {f : Frame} {reports : Prop}

theorem honoured_error (hk : f.kind = .error) (hs : f.source = "") : f.Honoured reports := by
  intro c l n
  rw [hk]
  have hbot : f.source ≠ "bot" := by simp [hs]
  exact ignored_of_source hbot fun h => by simp [hs] at h

theorem honoured_userEcho (hk : f.kind = .userEcho) (hs : f.source = "user") :
    f.Honoured reports := by
  intro c l n
  rw [hk]
  exact ignored_of_user hs

theorem honoured_system_iff {n : ℤ} (hk : f.kind = .system) (hf : f.finishReason = none)
    (hstep : f.step = some n) (he : reports → f.error ≠ "") :
    f.Honoured reports ↔ f.source = "system" ∨ (¬ reports ∧ f.source ≠ "bot") := by
  constructor
  · intro h
    by_cases hs : f.source = "system"
    · exact .inl hs
    have hd : Documented {} atStart ⟨f.toFrame,none⟩ reports .system := hk ▸ h {} atStart none
    have hnr : ¬ Refused {} atStart ⟨f.toFrame,none⟩ := not_refused hs hf
    refine .inr ⟨fun hr => hnr (hd.2 hr),?_⟩
    intro hb
    rcases hd.1 with hi | hr
    · exact not_ignored_of_bot hb hf hstep hi
    · exact hnr hr
  · intro h c l m
    rw [hk]
    rcases h with hs | ⟨hr,hb⟩
    · by_cases hm : f.error = ""
      · have hi : Ignored c l ⟨f.toFrame,m⟩ := ignored_of_source (by simp [hs]) fun _ => hm
        exact ⟨.inl hi,fun hr => absurd hm (he hr)⟩
      · have hr : Refused c l ⟨f.toFrame,m⟩ := refused_of_system hs hm
        exact ⟨.inr hr,fun _ => hr⟩
    · by_cases hs : f.source = "system" ∧ f.error ≠ ""
      · exact ⟨.inr (refused_of_system hs.1 hs.2),fun h => absurd h hr⟩
      · have hi : Ignored c l ⟨f.toFrame,m⟩ :=
          ignored_of_source hb fun h => not_not.mp fun hm => hs ⟨h,hm⟩
        exact ⟨.inl hi,fun h => absurd h hr⟩

theorem honoured_botChunk_iff (hk : f.kind = .botChunk) (hf : f.finishReason.getD "" = "")
    (hu : f.source ≠ "user") (hs : f.source ≠ "system") :
    f.Honoured reports ↔ f.source = "bot" ∨ f.msg = "" := by
  constructor
  · intro h
    by_cases hb : f.source = "bot"
    · exact .inl hb
    have hd : Documented {} atStart ⟨f.toFrame,none⟩ reports .botChunk := hk ▸ h {} atStart none
    obtain ⟨l',hp,ha⟩ := hd
    rw [process_other hu hs hb] at hp
    obtain rfl : atStart = l' := by simpa using congrArg Chan.pc hp
    have hmsg : "" = "" ++ f.msg := ha
    exact .inr (by simpa using hmsg.symm)
  · intro h c l m
    rw [hk]
    by_cases hb : f.source = "bot"
    · exact continued_of_bot hb hf
    · have hmsg : f.msg = "" := h.resolve_left hb
      exact ⟨l,process_other hu hs hb,by simp [Accumulated,hmsg]⟩

theorem honoured_botFinal_iff (hk : f.kind = .botFinal) (hf : f.finishReason.getD "" ≠ "")
    (hu : f.source ≠ "user") (hs : f.source ≠ "system") :
    f.Honoured reports ↔ f.source = "bot" := by
  constructor
  · intro h
    by_contra hb
    have hd : Documented {} atStart ⟨f.toFrame,none⟩ reports .botFinal := hk ▸ h {} atStart none
    obtain ⟨l',hp,-⟩ := hd
    rw [process_other hu hs hb] at hp
    exact ne_finish hp
  · intro hb c l m
    rw [hk]
    exact completed_of_bot hb hf

end Frame

variable {b : Builtins}

/-- The message is a text envelope whose error is not empty. -/
def Reports (b : Builtins) (m : Raw) : Prop :=
  ∃ payload text, b.jsonLoads m = .ok (.obj payload) ∧ Json.get payload "text" = .obj text ∧
    coerceStr b (Json.get text "error") ≠ ""

/-- A text envelope of a source other than the user and the system, with an error, or with a text or
a finish reason that are not the bot's. -/
def MisreadText (b : Builtins) (text : List (String × Json)) : Prop :=
  coerceStr b (Json.get text "source") ≠ "user" ∧ coerceStr b (Json.get text "source") ≠ "system" ∧
    (coerceStr b (Json.get text "error") ≠ "" ∨
      (coerceStr b (Json.get text "source") ≠ "bot" ∧
        ((coerceMessageText b (Json.get text "msg")).1 ≠ "" ∨
          (Json.get text "finish_reason").truthy = true)))

/-- A legacy envelope of unknown type whose source is the bot. -/
def MisreadLegacy (b : Builtins) (raw : List (String × Json)) : Prop :=
  envelopeType b raw ∉ legacySystemTypes ∧ envelopeType b raw ∉ legacyOptionTypes ∧
    envelopeType b raw ∉ legacyBotTypes ∧ envelopeType b raw ≠ "text" ∧ legacySource b raw = "bot"

/-- A message whose frame the channel treats otherwise than its kind says. -/
def Misread (b : Builtins) (m : Raw) : Prop :=
  match b.jsonLoads m with
  | .ok (.obj payload) => match Json.get payload "text" with
    | .obj text => (∃ n, coerceInt b (Json.get text "step") = .ok n) ∧ MisreadText b text
    | .str _ => False
    | _ => isLegacy payload = true ∧ MisreadLegacy b payload
  | _ => False

theorem coerceStr_ne_of_truthy {v : Json} (h : v.truthy = true) : coerceStr b v ≠ "" := by
  cases v with
  | null => cases h
  | str s => simpa [coerceStr,Json.truthy] using h
  | _ => exact b.repr_ne _

theorem finishOf_getD {v : Json} : (finishOf b v).getD "" = "" ↔ (finishOf b v).isSome = false := by
  unfold finishOf
  split
  · simp
  · rename_i h
    simpa using h

theorem honoured_text {text : List (String × Json)} {f : Frame}
    (h : parseTextEnvelope b text = .ok f) :
    f.Honoured (coerceStr b (Json.get text "error") ≠ "") ↔ ¬ MisreadText b text := by
  unfold parseTextEnvelope at h
  unfold MisreadText
  generalize coerceStr b (Json.get text "source") = source at h ⊢
  generalize coerceStr b (Json.get text "error") = errorVal at h ⊢
  generalize coerceMessageText b (Json.get text "msg") = msg at h ⊢
  generalize Json.get text "finish_reason" = finish at h ⊢
  cases hstep : coerceInt b (Json.get text "step") with
  | error e => simp [hstep] at h
  | ok step =>
    simp only [hstep] at h
    by_cases hu : source = "user"
    · simp only [if_pos hu] at h
      obtain rfl := Except.ok.inj h
      exact iff_of_true (Frame.honoured_userEcho rfl hu) fun hm => hm.1 hu
    by_cases hs : source = "system" ∨ errorVal ≠ ""
    · simp only [if_neg hu,if_pos hs] at h
      obtain rfl := Except.ok.inj h
      have he : errorVal ≠ "" → (if errorVal = "" then msg.1 else errorVal) ≠ "" := by
        intro he
        rwa [if_neg he]
      rw [Frame.honoured_system_iff rfl rfl rfl he]
      by_cases hsys : source = "system"
      · simp [hsys]
      · have he' : errorVal ≠ "" := hs.resolve_left hsys
        simp [hsys,hu,he']
    · simp only [if_neg hu,if_neg hs] at h
      obtain ⟨hsys,he⟩ : source ≠ "system" ∧ errorVal = "" := by simpa using hs
      by_cases hf : finish.truthy = true
      · simp only [if_pos hf] at h
        obtain rfl := Except.ok.inj h
        have hne : (some (coerceStr b finish)).getD "" ≠ "" := coerceStr_ne_of_truthy hf
        refine (Frame.honoured_botFinal_iff rfl hne hu hsys).trans ?_
        simp [hu,hsys,he,hf]
      · simp only [if_neg hf] at h
        obtain rfl := Except.ok.inj h
        refine (Frame.honoured_botChunk_iff rfl rfl hu hsys).trans ?_
        simp only [hu,hsys,he,hf,ne_eq,not_false_eq_true,not_true_eq_false,true_and,false_or,or_false,
          Bool.false_eq_true]
        tauto

/-- A frame of the bot whose kind says whether it has a finish reason. -/
theorem honoured_of_bot {f : Frame} {v : Json} {reports : Prop} (hs : f.source = "bot")
    (hf : f.finishReason = finishOf b v)
    (hk : f.kind = if (finishOf b v).isSome then .botFinal else .botChunk) : f.Honoured reports := by
  have hu : f.source ≠ "user" := by simp [hs]
  have hsys : f.source ≠ "system" := by simp [hs]
  by_cases hfin : (finishOf b v).isSome = true
  · have hne : f.finishReason.getD "" ≠ "" := by
      rw [hf,Ne,finishOf_getD]
      simp [hfin]
    have hk' : f.kind = .botFinal := by rw [hk,if_pos hfin]
    exact (Frame.honoured_botFinal_iff hk' hne hu hsys).mpr hs
  · have he : f.finishReason.getD "" = "" := by
      rw [hf,finishOf_getD]
      simpa using hfin
    have hk' : f.kind = .botChunk := by rw [hk,if_neg hfin]
    exact (Frame.honoured_botChunk_iff hk' he hu hsys).mpr (.inl hs)

theorem honoured_legacy {raw : List (String × Json)} :
    (parseLegacyEnvelope b raw).Honoured False ↔ ¬ MisreadLegacy b raw := by
  unfold parseLegacyEnvelope MisreadLegacy
  by_cases hsys : envelopeType b raw ∈ legacySystemTypes
  · simp only [if_pos hsys]
    rw [Frame.honoured_system_iff rfl rfl rfl nofun]
    simp [hsys]
  by_cases hopt : envelopeType b raw ∈ legacyOptionTypes
  · simp only [if_neg hsys,if_pos hopt]
    rw [Frame.honoured_botFinal_iff rfl (by simp) (by simp) (by simp)]
    simp [hopt]
  by_cases hbot : envelopeType b raw ∈ legacyBotTypes ∨ envelopeType b raw = "text"
  · simp only [if_neg hsys,if_neg hopt,if_pos hbot]
    refine iff_of_true (honoured_of_bot rfl rfl rfl) fun hm => ?_
    rcases hbot with h | h
    · exact hm.2.2.1 h
    · exact hm.2.2.2.1 h
  · simp only [if_neg hsys,if_neg hopt,if_neg hbot]
    rw [Frame.honoured_system_iff rfl rfl rfl nofun]
    obtain ⟨hb,ht⟩ := not_or.mp hbot
    by_cases hs : legacySource b raw = "bot"
    · simp [hs,hsys,hopt,hb,ht]
    · simp [hs]

theorem honoured_parseError {e : String} {reports : Prop} : (parseError e).Honoured reports :=
  Frame.honoured_error rfl rfl

theorem not_reports {m : Raw} (h : ∀ payload text, b.jsonLoads m = .ok (.obj payload) →
    Json.get payload "text" ≠ .obj text) : ¬ Reports b m := by
  rintro ⟨payload,text,hm,ht,-⟩
  exact h payload text hm ht

theorem honoured_payload {m : Raw} {payload : List (String × Json)}
    (hm : b.jsonLoads m = .ok (.obj payload)) :
    (parsePayload b payload).Honoured (Reports b m) ↔ ¬ Misread b m := by
  unfold Misread parsePayload
  simp only [hm]
  cases ht : Json.get payload "text" with
  | obj text =>
    have hreports : Reports b m ↔ coerceStr b (Json.get text "error") ≠ "" := by
      constructor
      · rintro ⟨payload',text',hm',ht',he⟩
        obtain rfl : payload = payload' := by simpa using hm.symm.trans hm'
        obtain rfl : text = text' := by simpa using ht.symm.trans ht'
        exact he
      · intro he
        exact ⟨payload,text,hm,ht,he⟩
    cases hp : parseTextEnvelope b text with
    | error e =>
      simp only [hp]
      refine iff_of_true honoured_parseError ?_
      rintro ⟨⟨n,hn⟩,-⟩
      simp only [parseTextEnvelope,hn] at hp
      split at hp
      · cases hp
      split at hp
      · cases hp
      · cases hp
    | ok f =>
      have hn : ∃ n, coerceInt b (Json.get text "step") = .ok n := by
        cases hn : coerceInt b (Json.get text "step") with
        | error e => simp [parseTextEnvelope,hn] at hp
        | ok n => exact ⟨n,rfl⟩
      simp only [hp,hreports,hn,true_and]
      exact honoured_text hp
  | str text => exact iff_of_true (honoured_of_bot rfl rfl rfl) not_false
  | _ =>
    have hreports : Reports b m ↔ False := by
      refine iff_of_false (not_reports ?_) not_false
      intro payload' text hm' ht'
      obtain rfl : payload = payload' := by simpa using hm.symm.trans hm'
      rw [ht] at ht'
      cases ht'
    simp only [hreports]
    by_cases hl : isLegacy payload = true
    · simp [hl,honoured_legacy]
    · simp only [hl,Bool.false_eq_true,if_false,false_and,not_false_eq_true,iff_true]
      exact honoured_parseError

/-- The channel treats a message's frame as its kind says exactly when the message is not one that
it misreads. -/
theorem parse_honoured_iff {m : Raw} : (parse b m).Honoured (Reports b m) ↔ ¬ Misread b m := by
  cases hm : b.jsonLoads m with
  | error e =>
    have hf : parse b m = parseError s!"JSON decode error: {e}" := by simp [parse,hm]
    have hmis : ¬ Misread b m := by simp [Misread,hm]
    rw [hf]
    exact iff_of_true honoured_parseError hmis
  | ok v =>
    cases v with
    | obj payload =>
      have hf : parse b m = parsePayload b payload := by simp [parse,hm]
      rw [hf]
      exact honoured_payload hm
    | _ =>
      have hmis : ¬ Misread b m := by simp [Misread,hm]
      simp only [parse,hm]
      exact iff_of_true honoured_parseError hmis

def botErrorText : String :=
  "\x7b\"text\": \x7b\"msg\": \"\", \"source\": \"bot\", \"error\": \"upstream error\"\x7d\x7d"

def botError : Builtins := knowing botErrorText
  (.obj [("text",.obj [("msg",.str ""),("source",.str "bot"),("error",.str "upstream error")])])
  fun _ => none

/-- An error on a frame of the bot is not raised; the frame counts as a part of the reply. -/
theorem botError_not_honoured : (parse botError (.str botErrorText)).kind = .system ∧
    Reports botError (.str botErrorText) ∧
    ¬ (parse botError (.str botErrorText)).Honoured (Reports botError (.str botErrorText)) := by
  have hreports : Reports botError (.str botErrorText) := ⟨_,_,rfl,rfl,by decide⟩
  have herror : (parse botError (.str botErrorText)).error ≠ "" := by decide
  refine ⟨rfl,hreports,?_⟩
  rw [Frame.honoured_system_iff rfl rfl rfl fun _ => herror]
  rintro (h | ⟨hn,-⟩)
  · exact absurd h (by decide)
  · exact hn hreports

end FrameParser
end Saarathi
