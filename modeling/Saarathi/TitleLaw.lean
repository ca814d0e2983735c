import Saarathi.Orchestration

/-!
# What a conversation is called

The first words that the user types name a conversation; until then the
placeholder of the first started interview does. A turn puts them in stages: the
text is stored, the conversation touched, the placeholder replaced.
-/

namespace Saarathi

/-- What was said in a conversation: the text of a typed turn whose message was stored, and the
placeholder that a started interview left when it succeeded. -/
inductive Said where
  | typed (text : Json)
  | started (placeholder : String)

/-- What `_conversation_title` returns, where it does not raise. -/
def titleOf : Json → Option Json
  | .str s =>
    if s.length ≤ OrchestrationService.titleMaxLen then some (.str s)
    else some (.str (String.ofList (s.toList.take OrchestrationService.titleTruncateAt) ++ "..."))
  | .arr items => if items.length ≤ OrchestrationService.titleMaxLen then some (.arr items) else none
  | .obj fields => if fields.length ≤ OrchestrationService.titleMaxLen then some (.obj fields) else none
  | _ => none

theorem conversationTitle_of_some {j t : Json} (h : titleOf j = some t) :
    OrchestrationService.conversationTitle j = pure t := by
  unfold titleOf at h
  unfold OrchestrationService.conversationTitle
  split at h
  · split at h
    · rename_i hle
      simp only [hle,if_true]
      rw [Option.some.inj h]
    · rename_i hle
      simp only [hle,if_false]
      rw [Option.some.inj h]
  · split at h
    · rename_i hle
      simp only [hle,if_true]
      rw [Option.some.inj h]
    · cases h
  · split at h
    · rename_i hle
      simp only [hle,if_true]
      rw [Option.some.inj h]
    · cases h
  · cases h

theorem conversationTitle_of_none {j : Json} (h : titleOf j = none) :
    ∃ e, OrchestrationService.conversationTitle j = throw e := by
  cases j with
  | str s =>
    by_cases hle : s.length ≤ OrchestrationService.titleMaxLen <;> simp [titleOf,hle] at h
  | arr items =>
    by_cases hle : items.length ≤ OrchestrationService.titleMaxLen
    · simp [titleOf,hle] at h
    · exact ⟨_,if_neg hle⟩
  | obj fields =>
    by_cases hle : fields.length ≤ OrchestrationService.titleMaxLen
    · simp [titleOf,hle] at h
    · exact ⟨_,if_neg hle⟩
  | null => exact ⟨_,rfl⟩
  | bool b => exact ⟨_,rfl⟩
  | num q => exact ⟨_,rfl⟩

theorem truthy_of_titleOf {text j : Json} (h : titleOf text = some j) : j.truthy = text.truthy := by
  unfold titleOf at h
  split at h
  · rename_i s
    split at h
    · rw [← Option.some.inj h]
    · rename_i hlong
      rw [← Option.some.inj h]
      have hdots : String.ofList (s.toList.take OrchestrationService.titleTruncateAt) ++ "..." ≠ "" := by simp
      have hs : s ≠ "" := by
        rintro rfl
        exact hlong (by decide)
      exact (bne_iff_ne.mpr hdots).trans (bne_iff_ne.mpr hs).symm
  · split at h
    · rw [← Option.some.inj h]
    · cases h
  · split at h
    · rw [← Option.some.inj h]
    · cases h
  · cases h

namespace Said

variable (adapt : Json → Option String)

/-- The truncated text of a typed turn, where the text is not empty. -/
def words : Said → Option String
  | typed text => if text.truthy then (titleOf text).bind (storedText adapt) else none
  | started _ => none

def placeholder : Said → Option String
  | typed _ => none
  | started title => some title

/-- The words of a text are the text, or where it is longer than a title its beginning. -/
theorem words_str {s : String} (hs : s ≠ "") (hnul : Text.hasNul s = false) :
    (typed (.str s)).words adapt = some (if s.length ≤ OrchestrationService.titleMaxLen then s
      else String.ofList (s.toList.take OrchestrationService.titleTruncateAt) ++ "...") := by
  have htruthy : (Json.str s).truthy = true := bne_iff_ne.mpr hs
  have hcut : Text.hasNul (String.ofList (s.toList.take OrchestrationService.titleTruncateAt) ++ "...") = false := by
    simp only [Text.hasNul,List.contains_eq_mem,decide_eq_false_iff_not] at hnul
    simp only [Text.hasNul,String.toList_append,String.toList_ofList,List.contains_eq_mem,List.mem_append,
      decide_eq_false_iff_not]
    rintro (h | h)
    · exact hnul (List.mem_of_mem_take h)
    · simp at h
  simp only [words,htruthy,if_true,titleOf]
  split
  · simp [storedText,hnul]
  · simp [storedText,hcut]

end Said

section Law

variable (adapt : Json → Option String)

def firstWords (h : List Said) : Option String := h.findSome? (Said.words adapt)

def firstPlaceholder (h : List Said) : Option String := h.findSome? Said.placeholder

/-- The title is the first words, or else the first placeholder, and it is flagged in the second
case only. -/
structure NamedBy (h : List Said) (v : Conversation) : Prop where
  title : v.title = (firstWords adapt h).or (firstPlaceholder h)
  flag : v.titleIsPlaceholder = ((firstWords adapt h).isNone && (firstPlaceholder h).isSome)

/-- A text that is not in the title yet, but for a title that there was none before. -/
structure TouchedBy (h : List Said) (text : Json) (v : Conversation) : Prop where
  title : v.title = ((firstWords adapt h).or (firstPlaceholder h)).or ((Said.typed text).words adapt)
  flag : v.titleIsPlaceholder = ((firstWords adapt h).isNone && (firstPlaceholder h).isSome)

variable {adapt} {h : List Said} {v v' : Conversation} {text : Json} {t : String}

@[simp] theorem firstWords_concat (h : List Said) (e : Said) :
    firstWords adapt (h ++ [e]) = (firstWords adapt h).or (e.words adapt) := by
  simp [firstWords,List.findSome?_append]

@[simp] theorem firstPlaceholder_concat (h : List Said) (e : Said) :
    firstPlaceholder (h ++ [e]) = (firstPlaceholder h).or e.placeholder := by
  simp [firstPlaceholder,List.findSome?_append]

@[simp] theorem Said.words_started (t : String) : (Said.started t).words adapt = none := rfl
@[simp] theorem Said.placeholder_started (t : String) : (Said.started t).placeholder = some t := rfl
@[simp] theorem Said.placeholder_typed (text : Json) : (Said.typed text).placeholder = none := rfl

/-- The first words stay the first. -/
theorem firstWords_of_begins {h' : List Said} (hp : h <+: h') (hs : (firstWords adapt h).isSome = true) :
    firstWords adapt h' = firstWords adapt h := by
  obtain ⟨e,rfl⟩ := hp
  obtain ⟨t,ht⟩ := Option.isSome_iff_exists.mp hs
  rw [firstWords] at ht
  simp [firstWords,List.findSome?_append,ht]

namespace NamedBy

theorem congr (hn : NamedBy adapt h v) (ht : v'.title = v.title)
    (hf : v'.titleIsPlaceholder = v.titleIsPlaceholder) : NamedBy adapt h v' :=
  ⟨ht.trans hn.title,hf.trans hn.flag⟩

theorem nil (ht : v.title = none) (hf : v.titleIsPlaceholder = false) : NamedBy adapt [] v := ⟨ht,hf⟩

theorem isSome_of_words (hn : NamedBy adapt h v) (hw : (firstWords adapt h).isSome = true) :
    v.title.isSome = true := by
  rw [hn.title]
  simp [hw]

/-- A text without words names nothing. -/
theorem typed (hn : NamedBy adapt h v) (hw : (Said.typed text).words adapt = none) :
    NamedBy adapt (h ++ [.typed text]) v := by
  refine ⟨?_,?_⟩
  · simp [hn.title,hw]
  · simp [hn.flag,hw]

/-- A started interview leaves a title as it is. -/
theorem started (hn : NamedBy adapt h v) (ht : v.title.isSome = true) :
    NamedBy adapt (h ++ [.started t]) v := by
  have htitle := hn.title
  refine ⟨?_,?_⟩
  · rw [htitle]
    cases hw : firstWords adapt h with
    | some u => simp [hw]
    | none =>
      cases hp : firstPlaceholder h with
      | some u => simp [hw,hp]
      | none => simp [htitle,hw,hp] at ht
  · rw [hn.flag]
    cases hw : firstWords adapt h with
    | some u => simp [hw]
    | none =>
      cases hp : firstPlaceholder h with
      | some u => simp [hw,hp]
      | none => simp [htitle,hw,hp] at ht

/-- A started interview gives an untitled conversation its placeholder. -/
theorem start (hn : NamedBy adapt h v) (ht : v.title = none) (ht' : v'.title = some t)
    (hf' : v'.titleIsPlaceholder = true) : NamedBy adapt (h ++ [.started t]) v' := by
  have htitle := hn.title
  rw [ht] at htitle
  obtain ⟨hw,hp⟩ := Option.or_eq_none_iff.mp htitle.symm
  refine ⟨?_,?_⟩
  · simp [ht',hw,hp]
  · simp [hf',hw,hp]

/-- The first words are put where there is no title. -/
theorem touch (hn : NamedBy adapt h v) (ht : v'.title = v.title.or ((Said.typed text).words adapt))
    (hf : v'.titleIsPlaceholder = v.titleIsPlaceholder) : TouchedBy adapt h text v' :=
  ⟨by rw [ht,hn.title],hf.trans hn.flag⟩

end NamedBy

namespace TouchedBy

/-- The words take the place of a placeholder. -/
theorem promote (ht : TouchedBy adapt h text v) (hf : v.titleIsPlaceholder = true)
    (hw : (Said.typed text).words adapt = some t) (ht' : v'.title = some t)
    (hf' : v'.titleIsPlaceholder = false) : NamedBy adapt (h ++ [.typed text]) v' := by
  have hflag := ht.flag
  rw [hf] at hflag
  have hnone : firstWords adapt h = none := by
    cases hfw : firstWords adapt h with
    | none => rfl
    | some u => simp [hfw] at hflag
  refine ⟨?_,?_⟩
  · simp [ht',hnone,hw]
  · simp [hf',hw]

/-- Without a placeholder the title stays. -/
theorem keep (ht : TouchedBy adapt h text v) (hf : v.titleIsPlaceholder = false) :
    NamedBy adapt (h ++ [.typed text]) v := by
  have hflag := ht.flag
  rw [hf] at hflag
  have htitle := ht.title
  cases hfw : firstWords adapt h with
  | some u => exact ⟨by simp [htitle,hfw],by simp [hf,hfw]⟩
  | none =>
    have hp : firstPlaceholder h = none := by
      cases hp : firstPlaceholder h with
      | none => rfl
      | some u => simp [hfw,hp] at hflag
    exact ⟨by simp [htitle,hfw,hp],by simp [hf,hp]⟩

end TouchedBy

end Law

/-- How far a request is with the titles of a conversation: the user's message is stored, the
conversation touched, the placeholder promoted. -/
inductive Stage where
  | idle
  | said (c : ConversationId) (text : Json)
  | touched (c : ConversationId) (text : Json)
  | named (c : ConversationId) (text : Json)

namespace Stage

/-- An empty text meets no placeholder. -/
def Spares (text : Json) (v : Conversation) : Prop := text.truthy = false → v.titleIsPlaceholder = false

instance (text : Json) (v : Conversation) : Decidable (Spares text v) := inferInstanceAs (Decidable (_ → _))

/-- What the version of conversation `k` is, by what was said in it. -/
def Allows (adapt : Json → Option String) (k : ConversationId) (h : List Said) (v : Conversation) : Stage → Prop
  | said c text => if c = k then ∃ h', h = h' ++ [.typed text] ∧ NamedBy adapt h' v ∧ Spares text v
    else NamedBy adapt h v
  | touched c text => if c = k then ∃ h', h = h' ++ [.typed text] ∧ TouchedBy adapt h' text v ∧ Spares text v
    else NamedBy adapt h v
  | _ => NamedBy adapt h v

/-- The conversation whose title is still to be seen to. -/
def mid : Stage → Option ConversationId
  | said c _ => some c
  | touched c _ => some c
  | _ => none

variable {adapt : Json → Option String} {k : ConversationId} {h : List Said} {v v' : Conversation} {stage : Stage}

theorem allows_iff (hm : stage.mid ≠ some k) : stage.Allows adapt k h v ↔ NamedBy adapt h v := by
  cases stage with
  | idle => exact Iff.rfl
  | said c text => simp [Allows,show c ≠ k from fun e => hm (congrArg some e)]
  | touched c text => simp [Allows,show c ≠ k from fun e => hm (congrArg some e)]
  | named c text => exact Iff.rfl

theorem Allows.congr (ha : stage.Allows adapt k h v) (ht : v'.title = v.title)
    (hf : v'.titleIsPlaceholder = v.titleIsPlaceholder) : stage.Allows adapt k h v' := by
  have hspare : ∀ {text}, Spares text v → Spares text v' := fun hs he => hf.trans (hs he)
  cases stage with
  | idle => exact NamedBy.congr ha ht hf
  | named c text => exact NamedBy.congr ha ht hf
  | said c text =>
    by_cases hc : c = k
    · simp only [Allows,hc,if_true] at ha ⊢
      obtain ⟨h',rfl,hn,hs⟩ := ha
      exact ⟨h',rfl,hn.congr ht hf,hspare hs⟩
    · simp only [Allows,hc,if_false] at ha ⊢
      exact ha.congr ht hf
  | touched c text =>
    by_cases hc : c = k
    · simp only [Allows,hc,if_true] at ha ⊢
      obtain ⟨h',rfl,hn,hs⟩ := ha
      exact ⟨h',rfl,⟨ht.trans hn.title,hf.trans hn.flag⟩,hspare hs⟩
    · simp only [Allows,hc,if_false] at ha ⊢
      exact ha.congr ht hf

end Stage

/-- The stages in which a transaction may end. -/
def Stage.Closed : Stage → Prop
  | said _ text => titleOf text = none
  | touched .. => False
  | _ => True

namespace Stage

variable {adapt : Json → Option String} {k : ConversationId} {h : List Said} {v : Conversation} {stage : Stage}

theorem closed_of_mid (h : stage.mid = none) : stage.Closed := by
  cases stage with
  | said c text => cases h
  | touched c text => cases h
  | _ => trivial

theorem named_of_closed (hc : stage.Closed) (ha : stage.Allows adapt k h v) : NamedBy adapt h v := by
  cases stage with
  | idle => exact ha
  | named c text => exact ha
  | touched c text => exact hc.elim
  | said c text =>
    have htitle : titleOf text = none := hc
    by_cases hck : c = k
    · simp only [Stage.Allows,hck,if_true] at ha
      obtain ⟨h',rfl,hn,-⟩ := ha
      exact hn.typed (by simp [Said.words,htitle])
    · simpa only [Stage.Allows,hck,if_false] using ha

end Stage

end Saarathi
