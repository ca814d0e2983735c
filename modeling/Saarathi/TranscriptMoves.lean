import Saarathi.ChatPage
import Saarathi.OptionIds

/-!
# What handlers do to the transcript

Items keep their ids, which the counter gives once only, and their options are not
enabled again.
-/

namespace Saarathi

open Transcript

namespace Transcript

theorem nextId_injective {m n : ℕ} (h : nextId m = nextId n) : m = n := by
  have hlist := congrArg String.toList h
  rw [nextId,nextId,String.toList_append,String.toList_append] at hlist
  exact FrameParser.toString_injective (String.toList_injective (List.append_cancel_left hlist))

/-- The id is one that the counter has given. -/
def Given (seq : ℕ) (id : String) : Prop := ∃ n, n ≤ seq ∧ id = nextId n

/-- The item is one of the transcript that was changed at most in what it shows. -/
def Item.Of (it' it : Item) : Prop := it.id = it'.id ∧ it.kind = it'.kind ∧ it.retryText = it'.retryText

/-- What is done to a transcript: new items have new ids, new error bubbles one of the texts, and at most `n`
more items can be chosen from. -/
structure Moves (T : List String) (n : ℕ) (chat chat' : Chat) : Prop where
  seq : chat.seq ≤ chat'.seq
  items : ∀ it' ∈ chat'.items, (∃ it ∈ chat.items, it'.Of it) ∨
    (∃ m, chat.seq < m ∧ m ≤ chat'.seq ∧ it'.id = nextId m) ∧
      (it'.kind = .errorRetry → ∃ t ∈ T, it'.retryText = some t)
  live : chat'.items.countP ChatPage.live ≤ chat.items.countP ChatPage.live + n

section Moves

variable {T : List String} {m n : ℕ} {chat chat' chat'' : Chat}

theorem Given.mono {id : String} (h : Given m id) (hle : m ≤ n) : Given n id :=
  h.imp fun _ hk => ⟨Nat.le_trans hk.1 hle,hk.2⟩

theorem Given.ne {id : String} (h : Given m id) (hlt : m < n) : id ≠ nextId n := by
  obtain ⟨k,hk,rfl⟩ := h
  exact fun heq => absurd (nextId_injective heq) (by omega)

theorem Moves.refl : Moves T 0 chat chat :=
  ⟨Nat.le_refl _,fun it h => .inl ⟨it,h,rfl,rfl,rfl⟩,Nat.le_refl _⟩

theorem Moves.trans (h : Moves T m chat chat') (h' : Moves T n chat' chat'') : Moves T (m + n) chat chat'' := by
  refine ⟨Nat.le_trans h.seq h'.seq,fun it'' hit'' => ?_,by have := h.live; have := h'.live; omega⟩
  rcases h'.items it'' hit'' with ⟨it',hit',hid',hkind',htext'⟩ | ⟨⟨k,hk,hk',hid⟩,htext⟩
  · rcases h.items it' hit' with ⟨it,hit,hid,hkind,htext⟩ | ⟨⟨k,hk,hk',hid⟩,htext⟩
    · exact .inl ⟨it,hit,hid.trans hid',hkind.trans hkind',htext.trans htext'⟩
    · refine .inr ⟨⟨k,hk,Nat.le_trans hk' h'.seq,hid' ▸ hid⟩,fun hkind => ?_⟩
      rw [← htext']
      exact htext (hkind'.trans hkind)
  · exact .inr ⟨⟨k,Nat.lt_of_le_of_lt h.seq hk,hk',hid⟩,htext⟩

theorem Moves.also (h : Moves T n chat chat') (h' : Moves T 0 chat' chat'') : Moves T n chat chat'' := h.trans h'

theorem Moves.mono (h : Moves T m chat chat') (hle : m ≤ n) : Moves T n chat chat' :=
  ⟨h.seq,h.items,Nat.le_trans h.live (by omega)⟩

/-- An item that is added somewhere. -/
theorem Moves.add {it : Item} {as bs : List Item} (hitems : chat.items = as ++ bs) (hid : it.id = nextId (chat.seq + 1))
    (hlive : (if ChatPage.live it then 1 else 0) ≤ n)
    (htext : it.kind = .errorRetry → ∃ t ∈ T, it.retryText = some t) :
    Moves T n chat {seq := chat.seq + 1, items := as ++ it :: bs} := by
  refine ⟨Nat.le_succ _,fun it' hit' => ?_,?_⟩
  · rw [List.mem_append,List.mem_cons] at hit'
    rcases hit' with h | rfl | h
    · exact .inl ⟨it',by rw [hitems]; exact List.mem_append_left _ h,rfl,rfl,rfl⟩
    · exact .inr ⟨⟨chat.seq + 1,Nat.lt_succ_self _,Nat.le_refl _,hid⟩,htext⟩
    · exact .inl ⟨it',by rw [hitems]; exact List.mem_append_right _ h,rfl,rfl,rfl⟩
  · rw [hitems,List.countP_append,List.countP_append,List.countP_cons]
    omega

/-- An item that is appended and cannot be chosen from. -/
theorem moves_append {now : ℕ} {kind : Kind} {fields : Fields} (hkind : kind ≠ .errorRetry)
    (hlive : (if fields.options.isSome && !fields.readOnly then 1 else 0) ≤ n) :
    Moves T n chat (chat.append now kind fields).2 := by
  have hadd : Moves T n chat {seq := chat.seq + 1, items := chat.items ++ chat.makeItem now kind fields :: []} :=
    .add (List.append_nil _).symm rfl hlive fun h => absurd h hkind
  exact hadd

theorem moves_insertAfterSession {now : ℕ} {sessionId : String} {kind : Kind} {fields : Fields}
    (hkind : kind ≠ .errorRetry) (hlive : fields.options = none) :
    Moves T 0 chat (chat.insertAfterSession now sessionId kind fields).2 := by
  have hnot : (if ChatPage.live (chat.makeItem now kind {fields with agentSessionId := some sessionId}) then 1 else 0) ≤ 0 := by
    simp [ChatPage.live,Chat.makeItem,makeItem,hlive]
  unfold Chat.insertAfterSession reducer
  dsimp only
  split
  · exact .add (List.append_nil _).symm rfl hnot fun h => absurd h hkind
  · exact .add (List.take_append_drop _ _).symm rfl hnot fun h => absurd h hkind

theorem moves_remove (p : Item → Bool) : Moves T 0 chat {chat with items := chat.items.filter p} :=
  ⟨Nat.le_refl _,fun it h => .inl ⟨it,(List.mem_filter.mp h).1,rfl,rfl,rfl⟩,
    (List.filter_sublist).countP_le⟩

theorem moves_map {f : Item → Item} (hf : ∀ it, (f it).Of it) (hlive : ∀ it, ChatPage.live (f it) → ChatPage.live it) :
    Moves T 0 chat {chat with items := chat.items.map f} := by
  refine ⟨Nat.le_refl _,fun it' h => ?_,?_⟩
  · obtain ⟨it,hit,rfl⟩ := List.mem_map.mp h
    exact .inl ⟨it,hit,hf it⟩
  · rw [List.countP_map]
    exact List.countP_mono_left fun it _ h => hlive it h

theorem moves_disable : Moves T 0 chat (chat.dispatch .disableAllOptions) := by
  refine moves_map (fun it => ?_) fun it h => ?_
  · split <;> exact ⟨rfl,rfl,rfl⟩
  · split at h
    · simp [ChatPage.live] at h
    · exact h

theorem moves_replace (id : String) (patch : Patch) : Moves T 0 chat (chat.dispatch (.replace id patch)) := by
  refine moves_map (fun it => ?_) fun it h => ?_
  · split <;> exact ⟨rfl,rfl,rfl⟩
  · split at h
    · exact h
    · exact h

/-- The items' ids are the counter's. -/
theorem Moves.given (h : Moves T n chat chat') (hg : ∀ it ∈ chat.items, Given chat.seq it.id) :
    ∀ it ∈ chat'.items, Given chat'.seq it.id := by
  intro it' hit'
  rcases h.items it' hit' with ⟨it,hit,hid,-⟩ | ⟨⟨k,-,hk,hid⟩,-⟩
  · rw [← hid]
    exact (hg it hit).mono h.seq
  · exact ⟨k,hk,hid⟩

/-- An item that is gone does not come back. -/
theorem Moves.absent (h : Moves T n chat chat') {id : String} (hid : Given chat.seq id)
    (ha : ∀ it ∈ chat.items, it.id ≠ id) : ∀ it ∈ chat'.items, it.id ≠ id := by
  intro it' hit'
  rcases h.items it' hit' with ⟨it,hit,heq,-⟩ | ⟨⟨k,hk,-,heq⟩,-⟩
  · rw [← heq]
    exact ha it hit
  · rw [heq]
    exact (hid.ne hk).symm

/-- The error bubbles carry texts that are kept. -/
theorem Moves.texts (h : Moves T n chat chat')
    (ht : ∀ it ∈ chat.items, it.kind = .errorRetry → ∃ t ∈ T, it.retryText = some t) :
    ∀ it ∈ chat'.items, it.kind = .errorRetry → ∃ t ∈ T, it.retryText = some t := by
  intro it' hit' hkind
  rcases h.items it' hit' with ⟨it,hit,-,hkind',htext⟩ | ⟨-,htext⟩
  · rw [← htext]
    exact ht it hit (hkind'.trans hkind)
  · exact htext hkind

theorem mem_makeItems {now seq : ℕ} {fs : List (Kind × Fields)} {it : Item} (h : it ∈ makeItems now seq fs) :
    ∃ k, seq < k ∧ k ≤ seq + fs.length ∧ ∃ f ∈ fs, it = makeItem (nextId k) now f.1 f.2 := by
  induction fs generalizing seq with
  | nil => cases h
  | cons f fs ih =>
    obtain ⟨kind,fields⟩ := f
    rw [List.length_cons]
    rcases List.mem_cons.mp h with rfl | h
    · exact ⟨seq + 1,Nat.lt_succ_self _,by omega,(kind,fields),List.mem_cons_self,rfl⟩
    · obtain ⟨k,hk,hle,f,hf,rfl⟩ := ih h
      exact ⟨k,by omega,by omega,f,List.mem_cons_of_mem _ hf,rfl⟩

/-- No item can be chosen from when all options are disabled. -/
theorem live_disabled (chat : Chat) : (chat.dispatch .disableAllOptions).items.countP ChatPage.live = 0 := by
  rw [List.countP_eq_zero]
  intro it hit
  obtain ⟨it',-,rfl⟩ := List.mem_map.mp hit
  by_cases h : it'.options.isSome <;> simp [ChatPage.live,h]

end Moves

end Transcript

namespace SessionLifecycle

variable {T : List String} {page page' : Page} {now timer : ℕ}

theorem moves_renderCompleted (page : Page) (now : ℕ) (session : SessionPayload) (agentName anchor : Option String) :
    Moves T 0 page.chat (page.renderCompleted now session agentName anchor).chat := by
  have hremove : Moves T 0 page.chat (page.dispatch (.removeKind .sessionFinalizing)).chat := moves_remove _
  unfold Page.renderCompleted
  cases anchor with
  | none =>
    dsimp only
    split
    · exact hremove.also (moves_append (by decide) (Nat.le_refl _))
    · exact hremove.also (moves_append (by decide) (Nat.le_refl _))
  | some anchor =>
    dsimp only
    split
    · split
      · exact hremove.also (moves_append (by decide) (Nat.le_refl _))
      · exact hremove.also (moves_insertAfterSession (by decide) rfl)
    · split
      · exact hremove.also (moves_append (by decide) (Nat.le_refl _))
      · exact hremove.also (moves_insertAfterSession (by decide) rfl)

theorem moves_handleSession (page : Page) (now : ℕ) (session : SessionPayload) (agentName : Option String) :
    Moves T 0 page.chat (page.handleSession now session agentName).chat := by
  unfold Page.handleSession
  split
  · exact moves_append (by decide) (Nat.le_refl _)
  · split
    · exact moves_renderCompleted page now session agentName none
    · exact .refl

theorem moves_tick (h : page.step (.tick timer) = some page') : Moves T 0 page.chat page'.chat := by
  change page.tick timer = some page' at h
  unfold Page.tick at h
  split at h
  · split at h
    · obtain rfl := Option.some.inj h
      exact .refl
    · dsimp only at h
      split at h
      · obtain rfl := Option.some.inj h
        exact moves_replace _ _
      · obtain rfl := Option.some.inj h
        exact .refl
    · cases h
  · cases h

theorem moves_answered {answer : Answer} (h : page.answered now timer answer = some page') :
    Moves T 0 page.chat page'.chat := by
  unfold Page.answered at h
  split at h
  · obtain rfl := Option.some.inj h
    exact .refl
  · split at h
    · split at h
      · cases h
      · split at h
        · obtain rfl := Option.some.inj h
          exact moves_renderCompleted (page.stop timer) now _ _ none
        · split at h
          · obtain rfl := Option.some.inj h
            have hremove : Moves T 0 page.chat ((page.stop timer).dispatch (.removeKind .sessionFinalizing)).chat :=
              moves_remove _
            exact hremove.also (moves_append (by decide) (Nat.le_refl _))
          · obtain rfl := Option.some.inj h
            exact .refl
    · obtain rfl := Option.some.inj h
      exact .refl
  · split at h
    · obtain rfl := Option.some.inj h
      exact moves_replace _ _
    · obtain rfl := Option.some.inj h
      exact .refl
  · cases h

end SessionLifecycle

end Saarathi
