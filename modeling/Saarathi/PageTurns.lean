import Saarathi.Machine
import Saarathi.TranscriptMoves

/-!
# One turn at a time

The page never has two turns in flight, and the text of an error bubble is sent off
once more at most, whatever the user does while something is awaited.
-/

namespace Saarathi

open Transcript Machine

namespace Task

def isTurn : Task → Bool
  | turn _ _ => true
  | _ => false

/-- The error bubble that the task is about. -/
def item? : Task → Option Item
  | check item _ _ => some item
  | pause item _ _ => some item
  | _ => none

def asks (id : String) (t : Task) : Bool := t.item?.any fun it => it.id = id

end Task

namespace Origin

/-- The error bubble whose text is sent again. -/
def item? : Origin → Option String
  | retried id => some id
  | resent id => some id
  | _ => none

def isTyped : Origin → Bool
  | typed => true
  | _ => false

end Origin

def Post.repeats (id : String) (p : Post) : Bool := p.origin.item? = some id

theorem countP_eraseIdx {α : Type} {as : List α} {k : ℕ} {a : α} (h : as[k]? = some a) (p : α → Bool) :
    as.countP p = (as.eraseIdx k).countP p + if p a then 1 else 0 := by
  obtain ⟨hlt,hget⟩ := List.getElem?_eq_some_iff.mp h
  rw [← (List.getElem_cons_eraseIdx_perm hlt).countP_eq p,hget,List.countP_cons]

namespace ChatPage

variable {page page' : ChatPage} {t : Task} {item : Item} {origin : Origin} {message : String} {optionId text : Option String}
  {autostart : Bool} {button : Option ActionButton} {now k : ℕ} {renderAgentHtml : String → String}

/-- What the steps of the page can be. -/
inductive Stepped (renderAgentHtml : String → String) (page : ChatPage) : Act → ChatPage → Prop
  | nothing {act} : Stepped renderAgentHtml page act page
  | type (draft : String) : Stepped renderAgentHtml page (.type draft) {page with draft := draft}
  | submit (now : ℕ) (hne : trim page.draft ≠ "") (hb : page.busy = false) :
    Stepped renderAgentHtml page (.submit now)
      (({page with draft := "", typed := page.typed ++ [trim page.draft]}.append now .user
        {content := trim page.draft}).sendMessage (some (trim page.draft)) none false .typed none)
  | selectOption (now : ℕ) (itemId : String) (opt : ChatOption) :
    Stepped renderAgentHtml page (.selectOption now itemId opt)
      (((page.dispatch .disableAllOptions).append now .user {content := opt.label}).sendMessage
        (some opt.value) (some opt.id) false .option none)
  | start {act} (pending : List ActionButton) (next : Afterwards) :
    Stepped renderAgentHtml page act ({page with pending := pending}.startNewConversation next)
  | selectConversation (id : String) (hb : page.busy = false) :
    Stepped renderAgentHtml page (.selectConversation id) (page.loadConversationHistory id)
  | recover (itemId : String) (item : Item) (hitem : item ∈ page.items) (hkind : item.kind = .errorRetry) :
    Stepped renderAgentHtml page (.recover itemId) (page.recover item)
  | turn (now k : ℕ) {body button} (hk : page.tasks[k]? = some (.turn body button)) (answer : TurnAnswer) :
    Stepped renderAgentHtml page (.turn now k answer) ((page.resumed k).turnAnswered renderAgentHtml now body button answer)
  | reset (now k : ℕ) {next} (hk : page.tasks[k]? = some (.reset next)) (answer : ResetAnswer) :
    Stepped renderAgentHtml page (.reset now k answer) ((page.resumed k).resetAnswered now next answer)
  | history (now k : ℕ) {id} (hk : page.tasks[k]? = some (.history id)) (answer : HistoryAnswer) :
    Stepped renderAgentHtml page (.history now k answer) ((page.resumed k).historyAnswered renderAgentHtml now id answer)
  | check (now k : ℕ) {item sessionId attempt} (hk : page.tasks[k]? = some (.check item sessionId attempt))
    (answer : ResumeAnswer) : Stepped renderAgentHtml page (.check now k answer)
      ((page.resumed k).checkAnswered renderAgentHtml now item sessionId attempt answer)
  | pause (k : ℕ) {item sessionId attempt} (hk : page.tasks[k]? = some (.pause item sessionId attempt)) :
    Stepped renderAgentHtml page (.pause k) ((page.resumed k).paused item sessionId attempt)
  | sessions {act} (hook : SessionLifecycle.Page) (hm : ∀ T, Moves T 0 page.hook.chat hook.chat) :
    Stepped renderAgentHtml page act {page with hook := hook}

theorem stepped_of_step {act : Act} (hs : page.step renderAgentHtml act = some page') :
    Stepped renderAgentHtml page act page' := by
  cases act with
  | type draft =>
    rw [ChatPage.step] at hs
    split at hs
    · cases hs
    · obtain rfl := Option.some.inj hs
      exact .type draft
  | submit now =>
    obtain rfl := Option.some.inj hs
    unfold handleSubmit
    dsimp only
    split
    · exact .nothing
    · rename_i hne
      rw [not_or] at hne
      exact .submit now hne.1 (by simpa using hne.2)
  | selectOption now itemId opt =>
    rw [ChatPage.step] at hs
    split at hs
    · obtain rfl := Option.some.inj hs
      unfold handleSelectOption
      split
      · exact .nothing
      · exact .selectOption now itemId opt
    · cases hs
  | runAction action button =>
    obtain rfl := Option.some.inj hs
    cases button with
    | none => exact .start page.pending _
    | some b =>
      unfold handleActivateCapability
      dsimp only
      split
      · exact .nothing
      · exact .start _ _
  | selectAgent agentKey =>
    obtain rfl := Option.some.inj hs
    unfold handleSelectAgent
    split
    · exact .nothing
    · exact .start page.pending _
  | selectConversation id =>
    obtain rfl := Option.some.inj hs
    unfold handleSelectConversation
    split
    · exact .nothing
    · rename_i hb
      exact .selectConversation id (by simpa using hb)
  | newChat =>
    obtain rfl := Option.some.inj hs
    unfold handleNewChat
    split
    · exact .nothing
    · exact .start page.pending _
  | recover itemId =>
    obtain ⟨item,hitem,rfl⟩ := Option.map_eq_some_iff.mp hs
    have hfound := List.find?_some hitem
    rw [Bool.and_eq_true,decide_eq_true_eq,decide_eq_true_eq] at hfound
    exact .recover itemId item (List.mem_of_find?_eq_some hitem) hfound.2
  | turn now k answer =>
    rw [ChatPage.step] at hs
    split at hs
    · rename_i hk
      obtain rfl := Option.some.inj hs
      exact .turn now k hk answer
    · cases hs
  | reset now k answer =>
    rw [ChatPage.step] at hs
    split at hs
    · rename_i hk
      obtain rfl := Option.some.inj hs
      exact .reset now k hk answer
    · cases hs
  | history now k answer =>
    rw [ChatPage.step] at hs
    split at hs
    · rename_i hk
      obtain rfl := Option.some.inj hs
      exact .history now k hk answer
    · cases hs
  | check now k answer =>
    rw [ChatPage.step] at hs
    split at hs
    · rename_i hk
      obtain rfl := Option.some.inj hs
      exact .check now k hk answer
    · cases hs
  | pause k =>
    rw [ChatPage.step] at hs
    split at hs
    · rename_i hk
      obtain rfl := Option.some.inj hs
      exact .pause k hk
    · cases hs
  | tick timer =>
    obtain ⟨hook,hhook,rfl⟩ := Option.map_eq_some_iff.mp hs
    exact .sessions hook fun _ => SessionLifecycle.moves_tick hhook
  | poll now k answer =>
    obtain ⟨hook,hhook,rfl⟩ := Option.map_eq_some_iff.mp hs
    rw [SessionLifecycle.Page.step] at hhook
    split at hhook
    · refine .sessions hook fun T => ?_
      have hm : Moves T 0 {page.hook with requests := page.hook.requests.eraseIdx k}.chat hook.chat :=
        SessionLifecycle.moves_answered hhook
      exact hm
    · cases hhook

def messages (page : ChatPage) : List String := page.posts.map (·.body.message)

/-- A turn in flight makes the page busy, only its last options can be chosen from, and an error bubble asks, or has
been sent again, once. -/
structure Orderly (page : ChatPage) : Prop where
  turns : page.tasks.countP Task.isTurn = if page.busy then 1 else 0
  live : page.items.countP live ≤ if page.busy then 0 else 1
  given : ∀ it ∈ page.items, Given page.hook.chat.seq it.id
  texts : ∀ it ∈ page.items, it.kind = .errorRetry → ∃ t ∈ page.messages, it.retryText = some t
  bodies : ∀ body button, Task.turn body button ∈ page.tasks → body.message ∈ page.messages
  asked : ∀ t ∈ page.tasks, ∀ it, t.item? = some it → Given page.hook.chat.seq it.id ∧ it.id ∈ page.checking ∧
    ∃ t ∈ page.messages, it.retryText = some t
  once : ∀ id, page.tasks.countP (Task.asks id) + page.posts.countP (Post.repeats id) ≤ 1
  gone : ∀ p ∈ page.posts, ∀ id, p.origin.item? = some id →
    Given page.hook.chat.seq id ∧ ∀ it ∈ page.items, it.id ≠ id
  echoes : ∀ i p, page.posts[i]? = some p → ∀ id, p.origin.item? = some id →
    p.body.message ∈ (page.posts.take i).map (·.body.message)
  blind : ∀ p ∈ page.posts, ∀ id, p.origin = .retried id → orNull p.sessionId = none

/-- Nothing is sent, awaited or answered. -/
structure Still (page page' : ChatPage) : Prop where
  busy : page'.busy = page.busy
  tasks : page'.tasks = page.tasks
  posts : page'.posts = page.posts
  checking : page'.checking = page.checking
  chat : Moves page.messages 0 page.hook.chat page'.hook.chat

theorem Orderly.still (h : Orderly page) (hs : Still page page') : Orderly page' where
  turns := by rw [hs.tasks,hs.busy]; exact h.turns
  live := by rw [hs.busy]; exact Nat.le_trans hs.chat.live h.live
  given := hs.chat.given h.given
  texts := by rw [messages,hs.posts]; exact hs.chat.texts h.texts
  bodies := by rw [hs.tasks,messages,hs.posts]; exact h.bodies
  asked := by
    rw [hs.tasks,hs.checking,messages,hs.posts]
    exact fun t ht it hit => (h.asked t ht it hit).imp_left fun hg => hg.mono hs.chat.seq
  once := by rw [hs.tasks,hs.posts]; exact h.once
  gone := by
    rw [hs.posts]
    intro p hp id hid
    obtain ⟨hg,ha⟩ := h.gone p hp id hid
    exact ⟨hg.mono hs.chat.seq,hs.chat.absent hg ha⟩
  echoes := by rw [hs.posts]; exact h.echoes
  blind := by rw [hs.posts]; exact h.blind

/-- The turn may be posted: if it sends a text again, nothing else does. -/
structure Allows (page : ChatPage) (origin : Origin) (message : String) : Prop where
  repeats : ∀ id, origin.item? = some id →
    page.tasks.countP (Task.asks id) = 0 ∧ page.posts.countP (Post.repeats id) = 0 ∧
    Given page.hook.chat.seq id ∧ (∀ it ∈ page.items, it.id ≠ id) ∧ message ∈ page.messages
  blind : ∀ id, origin = .retried id → orNull page.lastSessionId = none

theorem Allows.of_new (h : origin.item? = none) : Allows page origin message := by
  refine ⟨fun id hid => ?_,fun id heq => ?_⟩
  · rw [h] at hid
    cases hid
  · rw [heq] at h
    cases h

theorem Orderly.post (h : Orderly page) (hb : page.busy = false) (ho : Allows page origin message) :
    Orderly (page.post message optionId autostart origin button) := by
  have hchat : Moves page.messages 0 page.hook.chat (page.post message optionId autostart origin button).hook.chat :=
    moves_disable
  have hposts : (page.post message optionId autostart origin button).posts = page.posts ++
      [⟨page.sendTurn message optionId autostart,origin,page.lastSessionId⟩] := rfl
  have htasks : (page.post message optionId autostart origin button).tasks = page.tasks ++
      [.turn (page.sendTurn message optionId autostart) button] := rfl
  have hmessages : (page.post message optionId autostart origin button).messages = page.messages ++ [message] := by
    rw [messages,hposts,List.map_append]
    rfl
  have hgrown : ∀ t ∈ page.messages, t ∈ (page.post message optionId autostart origin button).messages := by
    rw [hmessages]
    exact fun t ht => List.mem_append_left _ ht
  have hturns := h.turns
  rw [hb] at hturns
  constructor
  · rw [htasks,List.countP_append,hturns]
    rfl
  · exact Nat.le_of_eq (live_disabled page.hook.chat)
  · exact hchat.given h.given
  · intro it hit hkind
    obtain ⟨t,ht,heq⟩ := hchat.texts h.texts it hit hkind
    exact ⟨t,hgrown t ht,heq⟩
  · intro body button' hmem
    rw [htasks,List.mem_append,List.mem_singleton] at hmem
    rcases hmem with hmem | heq
    · exact hgrown _ (h.bodies body button' hmem)
    · obtain ⟨rfl,rfl⟩ := Task.turn.inj heq
      rw [hmessages]
      exact List.mem_append_right _ (List.mem_singleton_self _)
  · intro t ht it hit
    rw [htasks,List.mem_append,List.mem_singleton] at ht
    rcases ht with ht | rfl
    · obtain ⟨hg,hc,t,ht,heq⟩ := h.asked t ht it hit
      exact ⟨hg.mono hchat.seq,hc,t,hgrown t ht,heq⟩
    · cases hit
  · intro id
    have hone := h.once id
    rw [htasks,hposts,List.countP_append,List.countP_append,List.countP_singleton,List.countP_singleton]
    by_cases hid : origin.item? = some id
    · obtain ⟨hnone,hno,-⟩ := ho.repeats id hid
      rw [hnone,hno]
      simp [Task.asks,Task.item?,Post.repeats,hid]
    · simpa [Task.asks,Task.item?,Post.repeats,hid] using hone
  · intro p hp id hid
    rw [hposts,List.mem_append,List.mem_singleton] at hp
    rcases hp with hp | rfl
    · obtain ⟨hg,ha⟩ := h.gone p hp id hid
      exact ⟨hg.mono hchat.seq,hchat.absent hg ha⟩
    · obtain ⟨-,-,hg,ha,-⟩ := ho.repeats id hid
      exact ⟨hg.mono hchat.seq,hchat.absent hg ha⟩
  · intro i p hp id hid
    rw [hposts] at hp ⊢
    rcases Nat.lt_trichotomy i page.posts.length with hlt | rfl | hlt
    · rw [List.getElem?_append_left hlt] at hp
      rw [List.take_append_of_le_length (Nat.le_of_lt hlt)]
      exact h.echoes i p hp id hid
    · rw [List.getElem?_append_right (Nat.le_refl _),Nat.sub_self] at hp
      obtain rfl := Option.some.inj hp
      rw [List.take_left']
      · exact (ho.repeats id hid).2.2.2.2
      · rfl
    · rw [List.getElem?_eq_none (by rw [List.length_append,List.length_singleton]; omega)] at hp
      cases hp
  · intro p hp id heq
    rw [hposts,List.mem_append,List.mem_singleton] at hp
    rcases hp with hp | rfl
    · exact h.blind p hp id heq
    · exact ho.blind id heq

theorem still_unlatch (page : ChatPage) (button : Option ActionButton) : Still page (page.unlatch button) :=
  ⟨rfl,rfl,rfl,rfl,.refl⟩

theorem Orderly.sendMessage (h : Orderly page) (ho : Allows page origin (text.getD "")) :
    Orderly (page.sendMessage text optionId autostart origin button) := by
  unfold ChatPage.sendMessage
  dsimp only
  split
  · exact h.still (still_unlatch page button)
  · split
    · exact h.still (still_unlatch page button)
    · rename_i hb
      exact h.post (by simpa using hb) ho

/-- A task that is no turn is taken up. -/
theorem Orderly.resumed (h : Orderly page) (hk : page.tasks[k]? = some t) (ht : t.isTurn = false) :
    Orderly (page.resumed k) := by
  have hsub : (page.resumed k).tasks.Sublist page.tasks := List.eraseIdx_sublist page.tasks k
  have hturns := countP_eraseIdx hk Task.isTurn
  rw [ht,h.turns] at hturns
  exact {h with
    turns := hturns.symm
    bodies := fun body button hmem => h.bodies body button (hsub.subset hmem)
    asked := fun t ht => h.asked t (hsub.subset ht)
    once := fun id => Nat.le_trans (Nat.add_le_add_right hsub.countP_le _) (h.once id) }

/-- What is known of an error bubble when what was asked of it comes back. -/
structure Asked (page : ChatPage) (item : Item) : Prop where
  tasks : page.tasks.countP (Task.asks item.id) = 0
  posts : page.posts.countP (Post.repeats item.id) = 0
  given : Given page.hook.chat.seq item.id
  checking : item.id ∈ page.checking
  text : ∃ t ∈ page.messages, item.retryText = some t

theorem Orderly.asked_resumed (h : Orderly page) (hk : page.tasks[k]? = some t) (hit : t.item? = some item) :
    Asked (page.resumed k) item := by
  obtain ⟨hg,hc,htext⟩ := h.asked t (List.mem_of_getElem? hk) item hit
  have hone := h.once item.id
  have hasks : t.asks item.id = true := by simp [Task.asks,hit]
  rw [countP_eraseIdx hk (Task.asks item.id),if_pos hasks] at hone
  refine ⟨?_,?_,hg,hc,htext⟩
  · change (page.tasks.eraseIdx k).countP (Task.asks item.id) = 0
    omega
  · change page.posts.countP (Post.repeats item.id) = 0
    omega

theorem Orderly.await (h : Orderly page) (ht : t.isTurn = false) (ha : ∀ it, t.item? = some it → Asked page it) :
    Orderly (page.await t) := by
  have hnot : ∀ body button, Task.turn body button ≠ t := by
    rintro body button rfl
    cases ht
  exact {h with
    turns := by
      change (page.tasks ++ [t]).countP Task.isTurn = _
      rw [List.countP_append,h.turns,List.countP_singleton,ht]
      rfl
    bodies := by
      intro body button hmem
      rcases List.mem_append.mp hmem with hmem | hmem
      · exact h.bodies body button hmem
      · exact absurd (List.mem_singleton.mp hmem) (hnot body button)
    asked := by
      intro t' ht' it hit
      rcases List.mem_append.mp ht' with ht' | ht'
      · exact h.asked t' ht' it hit
      · obtain rfl := List.mem_singleton.mp ht'
        exact ⟨(ha it hit).given,(ha it hit).checking,(ha it hit).text⟩
    once := by
      intro id
      change (page.tasks ++ [t]).countP (Task.asks id) + _ ≤ 1
      have hone := h.once id
      rw [List.countP_append,List.countP_singleton]
      split
      · rename_i hid
        obtain ⟨it,hit,heq⟩ := (Option.any_eq_true _ _).mp hid
        obtain rfl := of_decide_eq_true heq
        have hno : (page.await t).posts.countP (Post.repeats it.id) = 0 := (ha it hit).posts
        rw [(ha it hit).tasks,hno]
      · exact hone }

/-- The button of the bubble can be pressed again. -/
theorem Orderly.recheckable (h : Orderly page) (ha : Asked page item) : Orderly (page.recheckable item.id) :=
  {h with
    asked := by
      intro t ht it hit
      obtain ⟨hg,hc,htext⟩ := h.asked t ht it hit
      refine ⟨hg,List.mem_filter.mpr ⟨hc,?_⟩,htext⟩
      have hno : ¬t.asks item.id = true := List.countP_eq_zero.mp ha.tasks t ht
      rw [Task.asks,hit] at hno
      simpa using hno }

/-- The text of a bubble is sent again, if the page is not busy. -/
theorem Orderly.again (h : Orderly page) (ha : Asked page item) (ho : origin.item? = some item.id)
    (hblind : ∀ id, origin = .retried id → orNull page.lastSessionId = none) :
    Orderly ((page.dispatch (.remove item.id)).sendMessage (page.retryText item) none false origin none) := by
  have hstill : Still page (page.dispatch (.remove item.id)) := ⟨rfl,rfl,rfl,rfl,moves_remove _⟩
  refine (h.still hstill).sendMessage ⟨fun id hid => ?_,hblind⟩
  obtain rfl : item.id = id := Option.some.inj (ho.symm.trans hid)
  refine ⟨ha.tasks,ha.posts,ha.given,fun it hit => ?_,?_⟩
  · simpa using (List.mem_filter.mp hit).2
  · obtain ⟨t,ht,heq⟩ := ha.text
    rw [retryText,heq]
    exact ht

theorem Orderly.checkAnswered (h : Orderly page) (ha : Asked page item) {sessionId : String} {attempt : ℕ}
    (answer : ResumeAnswer) : Orderly (page.checkAnswered renderAgentHtml now item sessionId attempt answer) := by
  cases answer with
  | raised => exact h.recheckable ha
  | pending =>
    refine h.await rfl fun it hit => ?_
    obtain rfl := Option.some.inj hit
    exact ha
  | other => exact h.recheckable ha
  | canResend =>
    unfold ChatPage.checkAnswered
    exact h.again ha rfl fun id heq => (by cases heq)
  | answered text session =>
    have hremove : Moves page.messages 0 page.hook.chat (page.dispatch (.remove item.id)).hook.chat := moves_remove _
    have happend : Moves page.messages 0 page.hook.chat ((page.dispatch (.remove item.id)).append now .agent {
        content := text
        html := some (renderAgentHtml text) }).hook.chat := hremove.also (moves_append (by decide) (Nat.le_refl _))
    cases session with
    | none => exact h.still ⟨rfl,rfl,rfl,rfl,happend⟩
    | some session =>
      exact h.still ⟨rfl,rfl,rfl,rfl,happend.also (SessionLifecycle.moves_handleSession _ now session none)⟩

theorem Orderly.paused (h : Orderly page) (ha : Asked page item) {sessionId : String} {attempt : ℕ} :
    Orderly (page.paused item sessionId attempt) := by
  unfold ChatPage.paused
  split
  · exact h.recheckable ha
  · refine h.await rfl fun it hit => ?_
    obtain rfl := Option.some.inj hit
    exact ha

theorem Orderly.recover (h : Orderly page) (hitem : item ∈ page.items) (hkind : item.kind = .errorRetry) :
    Orderly (page.recover item) := by
  unfold ChatPage.recover
  split
  · exact h
  · rename_i hc
    have hnone : page.tasks.countP (Task.asks item.id) = 0 := by
      rw [List.countP_eq_zero]
      intro t ht hasks
      obtain ⟨it,hit,heq⟩ := (Option.any_eq_true _ _).mp hasks
      have hid : it.id = item.id := of_decide_eq_true heq
      exact hc (hid ▸ (h.asked t ht it hit).2.1)
    have hno : page.posts.countP (Post.repeats item.id) = 0 := by
      rw [List.countP_eq_zero]
      intro p hp hrepeats
      exact (h.gone p hp item.id (of_decide_eq_true hrepeats)).2 item hitem rfl
    have hlatched : Orderly {page with checking := page.checking ++ [item.id]} :=
      {h with asked := fun t ht it hit =>
        (h.asked t ht it hit).imp_right fun hr => ⟨List.mem_append_left _ hr.1,hr.2⟩ }
    have ha : Asked {page with checking := page.checking ++ [item.id]} item :=
      ⟨hnone,hno,h.given item hitem,List.mem_append_right _ (List.mem_singleton_self _),h.texts item hitem hkind⟩
    dsimp only
    split
    · refine hlatched.await rfl fun it hit => ?_
      obtain rfl := Option.some.inj hit
      exact ha
    · rename_i hsession
      exact hlatched.again ha rfl fun _ _ => hsession

theorem moves_switchContext {T : List String} (page : ChatPage) (now : ℕ) (agentName : String) :
    Moves T 0 page.hook.chat (page.switchContext now agentName).hook.chat := by
  unfold switchContext
  split
  · exact .refl
  · exact moves_append (by decide) (Nat.le_refl _)

theorem moves_succeed {T : List String} (page : ChatPage) (now : ℕ) (reply : TurnReply) :
    Moves T 1 page.hook.chat (page.succeed renderAgentHtml now reply).hook.chat := by
  have hpill := moves_switchContext (T := T) {page with currentAgentKey := none} now reply.agentName
  have hreply : ∀ (page : ChatPage) (fields : Fields), Moves T 1 page.hook.chat (page.append now .agent fields).hook.chat :=
    fun _ _ => moves_append (by decide) (by split <;> omega)
  have hsession : ∀ (page : ChatPage) (session : SessionLifecycle.SessionPayload) (agentKey : Option String),
      Moves T 0 page.hook.chat ((page.remember session agentKey).handleSession now session none).hook.chat :=
    fun page session agentKey => SessionLifecycle.moves_handleSession (page.remember session agentKey).hook now session none
  unfold ChatPage.succeed
  dsimp only
  split
  · exact (hpill.trans (hreply _ _)).also (hsession _ _ _)
  · exact hpill.trans (hreply _ _)

theorem moves_turnAnswered {T : List String} {body : TurnBody} (hT : body.message ∈ T) (page : ChatPage)
    (button : Option ActionButton) (answer : TurnAnswer) :
    Moves T 1 page.hook.chat (page.turnAnswered renderAgentHtml now body button answer).hook.chat := by
  cases answer with
  | raised => exact (moves_append (by decide) (Nat.le_refl _)).mono (Nat.zero_le 1)
  | success reply => exact moves_succeed (page.adopt reply.conversationId) now reply
  | failure conversationId errorCode error =>
    unfold ChatPage.turnAnswered
    dsimp only
    split
    · exact .add (List.append_nil _).symm rfl (Nat.zero_le 1) fun _ => ⟨body.message,hT,rfl⟩
    · exact (moves_append (by decide) (Nat.le_refl _)).mono (Nat.zero_le 1)

theorem switchContext_rest (page : ChatPage) (now : ℕ) (agentName : String) :
    (page.switchContext now agentName).tasks = page.tasks ∧ (page.switchContext now agentName).posts = page.posts ∧
    (page.switchContext now agentName).checking = page.checking ∧
    (page.switchContext now agentName).typed = page.typed := by
  unfold switchContext
  split <;> exact ⟨rfl,rfl,rfl,rfl⟩

theorem turnAnswered_rest (renderAgentHtml : String → String) (now : ℕ) (page : ChatPage) (body : TurnBody)
    (button : Option ActionButton) (answer : TurnAnswer) :
    (page.turnAnswered renderAgentHtml now body button answer).busy = false ∧
    (page.turnAnswered renderAgentHtml now body button answer).tasks = page.tasks ∧
    (page.turnAnswered renderAgentHtml now body button answer).posts = page.posts ∧
    (page.turnAnswered renderAgentHtml now body button answer).checking = page.checking ∧
    (page.turnAnswered renderAgentHtml now body button answer).typed = page.typed := by
  refine ⟨rfl,?_⟩
  cases answer with
  | raised => exact ⟨rfl,rfl,rfl,rfl⟩
  | success reply =>
    have hrest := switchContext_rest {(page.adopt reply.conversationId) with currentAgentKey := none} now reply.agentName
    unfold ChatPage.turnAnswered ChatPage.succeed
    dsimp only
    split <;> exact hrest
  | failure conversationId errorCode error =>
    unfold ChatPage.turnAnswered
    dsimp only
    split <;> exact ⟨rfl,rfl,rfl,rfl⟩

/-- A turn in flight is the only one. -/
theorem Orderly.turn (h : Orderly page) {body : TurnBody} (hk : page.tasks[k]? = some (.turn body button)) :
    page.busy = true ∧ (page.tasks.eraseIdx k).countP Task.isTurn = 0 := by
  have hcount := countP_eraseIdx hk Task.isTurn
  have hone : Task.isTurn (.turn body button) = true := rfl
  rw [if_pos hone,h.turns] at hcount
  split at hcount
  · rename_i hb
    exact ⟨hb,by omega⟩
  · omega

theorem Orderly.turnAnswered (h : Orderly page) {body : TurnBody} (hk : page.tasks[k]? = some (.turn body button))
    (answer : TurnAnswer) : Orderly ((page.resumed k).turnAnswered renderAgentHtml now body button answer) := by
  have hT : body.message ∈ page.messages := h.bodies body button (List.mem_of_getElem? hk)
  have hsub : (page.resumed k).tasks.Sublist page.tasks := List.eraseIdx_sublist page.tasks k
  obtain ⟨hb,hnone⟩ := h.turn hk
  have hm : Moves page.messages 1 page.hook.chat
      ((page.resumed k).turnAnswered renderAgentHtml now body button answer).hook.chat :=
    moves_turnAnswered hT (page.resumed k) button answer
  obtain ⟨hbusy,htasks,hposts,hchecking,-⟩ := turnAnswered_rest renderAgentHtml now (page.resumed k) body button answer
  have hlive := h.live
  rw [hb] at hlive
  have hmessages : ((page.resumed k).turnAnswered renderAgentHtml now body button answer).messages = page.messages := by
    rw [messages,hposts]
    rfl
  constructor
  · rw [htasks,hbusy]
    exact hnone
  · rw [hbusy]
    exact Nat.le_trans hm.live (Nat.add_le_add_right hlive 1)
  · exact hm.given h.given
  · rw [hmessages]
    exact hm.texts h.texts
  · rw [hmessages,htasks]
    exact fun body button hmem => h.bodies body button (hsub.subset hmem)
  · rw [hmessages,htasks,hchecking]
    exact fun t ht it hit => (h.asked t (hsub.subset ht) it hit).imp_left fun hg => hg.mono hm.seq
  · rw [htasks,hposts]
    exact fun id => Nat.le_trans (Nat.add_le_add_right hsub.countP_le _) (h.once id)
  · rw [hposts]
    intro p hp id hid
    obtain ⟨hg,ha⟩ := h.gone p hp id hid
    exact ⟨hg.mono hm.seq,hm.absent hg ha⟩
  · rw [hposts]
    exact h.echoes
  · rw [hposts]
    exact h.blind

theorem moves_resetToGreeting {T : List String} (page : ChatPage) :
    Moves T 0 page.hook.chat (page.resetToGreeting now).hook.chat := by
  refine ⟨Nat.le_succ _,fun it hit => ?_,Nat.zero_le _⟩
  obtain rfl := List.mem_singleton.mp hit
  exact .inr ⟨⟨_,Nat.lt_succ_self _,Nat.le_refl _,rfl⟩,fun hkind => by cases hkind⟩

theorem Orderly.resetAnswered (h : Orderly page) (next : Afterwards) (answer : ResetAnswer) :
    Orderly (page.resetAnswered now next answer) := by
  have hreset : ∀ conversationId, Orderly
      (({page with conversationId := conversationId}.resetToGreeting now).resetConversationScopedState) := fun _ =>
    h.still ⟨rfl,rfl,rfl,rfl,moves_resetToGreeting _⟩
  cases next with
  | nothing => exact hreset _
  | pin agentKey => exact (hreset _).still ⟨rfl,rfl,rfl,rfl,.refl⟩
  | start action button =>
    have hpinned : ∀ conversationId, Orderly {(({page with conversationId := conversationId}.resetToGreeting
        now).resetConversationScopedState) with currentAgentKey := some action.agentKey} := fun conversationId =>
      (hreset conversationId).still ⟨rfl,rfl,rfl,rfl,.refl⟩
    unfold ChatPage.resetAnswered
    dsimp only
    split
    · exact (hpinned _).sendMessage (.of_new rfl)
    · exact (hpinned _).still (still_unlatch _ _)

theorem Orderly.startNewConversation (h : Orderly page) (next : Afterwards) :
    Orderly (page.startNewConversation next) := by
  have hclear : Orderly page.clearAll := h.still ⟨rfl,rfl,rfl,rfl,.refl⟩
  exact hclear.await rfl fun it hit => by cases hit

theorem Orderly.loadConversationHistory (h : Orderly page) (id : String) :
    Orderly (page.loadConversationHistory id) := by
  have hclear : Orderly page.clearAll.resetConversationScopedState := h.still ⟨rfl,rfl,rfl,rfl,.refl⟩
  exact hclear.await rfl fun it hit => by cases hit

theorem moves_setItems {T : List String} (page : ChatPage) (history : History) :
    Moves T 0 page.hook.chat (page.setItems renderAgentHtml now history).hook.chat := by
  have hmem : ∀ it ∈ history.items renderAgentHtml now page.hook.chat.seq, ∃ m, page.hook.chat.seq < m ∧
      m ≤ page.hook.chat.seq + history.messages.length ∧ ∃ v : StoredMessage,
        it = makeItem (nextId m) now v.kind (v.fields renderAgentHtml) := by
    intro it hit
    obtain ⟨m,hm,hle,f,hf,rfl⟩ := mem_makeItems hit
    obtain ⟨v,-,rfl⟩ := List.mem_map.mp hf
    rw [List.length_map] at hle
    exact ⟨m,hm,hle,v,rfl⟩
  refine ⟨Nat.le_add_right _ _,fun it hit => ?_,?_⟩
  · obtain ⟨m,hm,hle,v,rfl⟩ := hmem it hit
    refine .inr ⟨⟨m,hm,hle,rfl⟩,fun hkind => absurd hkind ?_⟩
    change v.kind ≠ .errorRetry
    unfold StoredMessage.kind
    split <;> decide
  · refine Nat.le_trans (Nat.le_of_eq (List.countP_eq_zero.mpr fun it hit => ?_)) (Nat.zero_le _)
    obtain ⟨m,hm,hle,v,rfl⟩ := hmem it hit
    simp [live,makeItem,StoredMessage.fields]

theorem moves_renderCompleted {T : List String} (page : ChatPage) (history : History) :
    Moves T 0 page.hook.chat (page.renderCompleted now history).hook.chat := by
  unfold ChatPage.renderCompleted
  dsimp only
  generalize page.hook = hook
  induction history.completed generalizing hook with
  | nil => exact .refl
  | cons s sessions ih =>
    exact (SessionLifecycle.moves_renderCompleted hook now s (history.agentNameOf s.id) (some s.id)).also (ih _)

theorem Orderly.historyAnswered (h : Orderly page) (id : String) (answer : HistoryAnswer) :
    Orderly (page.historyAnswered renderAgentHtml now id answer) := by
  cases answer with
  | raised => exact h
  | refused => exact h
  | notFound => exact h.still ⟨rfl,rfl,rfl,rfl,moves_resetToGreeting _⟩
  | loaded history =>
    have hset : ∀ conversationId lastAgent, Orderly {(page.setItems renderAgentHtml now history) with
        conversationId := conversationId, hook.refs.lastAgent := lastAgent} := fun _ _ =>
      h.still ⟨rfl,rfl,rfl,rfl,moves_setItems page history⟩
    have hshown : ∀ conversationId lastAgent, Orderly (({(page.setItems renderAgentHtml now history) with
        conversationId := conversationId, hook.refs.lastAgent := lastAgent}).renderCompleted now history) := fun c a =>
      (hset c a).still ⟨rfl,rfl,rfl,rfl,moves_renderCompleted _ history⟩
    unfold ChatPage.historyAnswered
    dsimp only
    split
    · exact hshown _ _
    · split
      · exact (hshown _ _).still ⟨rfl,rfl,rfl,rfl,SessionLifecycle.moves_handleSession (remember _ _ _).hook now _ _⟩
      · split
        · exact (hshown _ _).still ⟨rfl,rfl,rfl,rfl,.refl⟩
        · exact hshown _ _

/-- What the user says is shown before it is sent. -/
theorem Orderly.said (h : Orderly page) (ho : origin.item? = none) {content : String} :
    Orderly ((page.append now .user {content := content}).sendMessage text optionId false origin button) := by
  have hshown : Orderly (page.append now .user {content := content}) :=
    h.still ⟨rfl,rfl,rfl,rfl,moves_append (by decide) (Nat.le_refl _)⟩
  exact hshown.sendMessage (.of_new ho)

/-- Whatever happens on the page. -/
theorem Orderly.step {act : Act} (h : Orderly page) (hs : page.step renderAgentHtml act = some page') : Orderly page' := by
  cases stepped_of_step hs with
  | nothing => exact h
  | type draft => exact h.still ⟨rfl,rfl,rfl,rfl,.refl⟩
  | submit now =>
    have hdrafted : Orderly {page with draft := "", typed := page.typed ++ [trim page.draft]} :=
      h.still ⟨rfl,rfl,rfl,rfl,.refl⟩
    exact hdrafted.said rfl
  | selectOption now itemId opt =>
    have hdisabled : Orderly (page.dispatch .disableAllOptions) := h.still ⟨rfl,rfl,rfl,rfl,moves_disable⟩
    exact hdisabled.said rfl
  | start pending next =>
    have hlatched : Orderly {page with pending := pending} := h.still ⟨rfl,rfl,rfl,rfl,.refl⟩
    exact hlatched.startNewConversation next
  | selectConversation id => exact h.loadConversationHistory id
  | recover itemId item hitem hkind => exact h.recover hitem hkind
  | turn now k hk answer => exact h.turnAnswered hk answer
  | reset now k hk answer => exact (h.resumed hk rfl).resetAnswered _ answer
  | history now k hk answer => exact (h.resumed hk rfl).historyAnswered _ answer
  | check now k hk answer => exact (h.resumed hk rfl).checkAnswered (h.asked_resumed hk rfl) answer
  | pause k hk => exact (h.resumed hk rfl).paused (h.asked_resumed hk rfl)
  | sessions hook hm => exact h.still ⟨rfl,rfl,rfl,rfl,hm page.messages⟩

theorem orderly_boot (now : ℕ) (stored : Option String) : Orderly (boot now stored) := by
  have hfresh : Orderly {
      hook := {chat := {seq := 1, items := [greetingItem (nextId 1) now]}}
      conversationId := stored } := by
    refine ⟨rfl,Nat.zero_le 1,fun it hit => ?_,fun it hit hkind => ?_,fun _ _ hmem => ?_,fun t ht => ?_,
      fun _ => Nat.zero_le 1,fun p hp => ?_,fun i p hp => ?_,fun p hp => ?_⟩
    · obtain rfl := List.mem_singleton.mp hit
      exact ⟨1,Nat.le_refl 1,rfl⟩
    · obtain rfl := List.mem_singleton.mp hit
      cases hkind
    · cases hmem
    · cases ht
    · cases hp
    · cases hp
    · cases hp
  unfold boot
  dsimp only
  split
  · exact hfresh.loadConversationHistory _
  · exact hfresh

/-- The texts that were typed in, as they were posted. -/
def typedMessages (page : ChatPage) : List String := (page.posts.filter (·.origin.isTyped)).map (·.body.message)

/-- Every text that was typed in and sent off was posted, in order. -/
def Heard (page : ChatPage) : Prop := page.typed = page.typedMessages

theorem Heard.of_eq (h : Heard page) (htyped : page'.typed = page.typed) (hposts : page'.posts = page.posts) :
    Heard page' := by
  rw [Heard,typedMessages,htyped,hposts]
  exact h

theorem Heard.sendMessage (h : Heard page) (ho : origin.isTyped = false) :
    Heard (page.sendMessage text optionId autostart origin button) := by
  unfold ChatPage.sendMessage
  dsimp only
  split
  · exact h
  · split
    · exact h
    · change page.typed = ((page.posts ++ [_]).filter _).map _
      rw [List.filter_append,List.map_append,List.filter_cons_of_neg (by simpa using ho)]
      exact h.trans (List.append_nil _).symm

theorem trim_trim (s : String) : trim (trim s) = trim s := by
  have hcore : Stripping.core isWhite (Stripping.core isWhite s.toList) = Stripping.core isWhite s.toList := by
    have hbetween := Stripping.core_between (Stripping.bare_core (q := isWhite) (s := s.toList)) (u := []) (v := [])
      (fun _ ha => by cases ha) fun _ ha => by cases ha
    rwa [List.nil_append,List.append_nil] at hbetween
  rw [trim,trim,String.toList_ofList,hcore]

/-- What is typed in while the page is not busy is posted. -/
theorem Heard.submit (h : Heard page) (hne : trim page.draft ≠ "") (hb : page.busy = false) :
    Heard (({page with draft := "", typed := page.typed ++ [trim page.draft]}.append now .user
      {content := trim page.draft}).sendMessage (some (trim page.draft)) none false .typed none) := by
  unfold ChatPage.sendMessage
  dsimp only [Option.getD_some]
  rw [trim_trim,if_neg hne,if_neg (by simpa [append] using hb)]
  change page.typed ++ [trim page.draft] = ((page.posts ++ [_]).filter _).map _
  rw [List.filter_append,List.map_append,List.filter_cons_of_pos (by rfl)]
  exact congrArg (· ++ [trim page.draft]) h

theorem Heard.again (h : Heard page) (ho : origin.isTyped = false) :
    Heard ((page.dispatch (.remove item.id)).sendMessage (page.retryText item) none false origin none) := by
  have hremoved : Heard (page.dispatch (.remove item.id)) := h
  exact hremoved.sendMessage ho

theorem Heard.resetAnswered (h : Heard page) (next : Afterwards) (answer : ResetAnswer) :
    Heard (page.resetAnswered now next answer) := by
  cases next with
  | nothing => exact h
  | pin agentKey => exact h
  | start action button =>
    have hpinned : ∀ conversationId, Heard {(({page with conversationId := conversationId}.resetToGreeting
        now).resetConversationScopedState) with currentAgentKey := some action.agentKey} := fun _ => h
    unfold ChatPage.resetAnswered
    dsimp only
    split
    · exact (hpinned _).sendMessage rfl
    · exact h

theorem Heard.historyAnswered (h : Heard page) (id : String) (answer : HistoryAnswer) :
    Heard (page.historyAnswered renderAgentHtml now id answer) := by
  cases answer with
  | raised => exact h
  | refused => exact h
  | notFound => exact h
  | loaded history =>
    unfold ChatPage.historyAnswered
    dsimp only
    split
    · exact h
    · split
      · exact h
      · split <;> exact h

theorem Heard.recover (h : Heard page) (item : Item) : Heard (page.recover item) := by
  unfold ChatPage.recover
  split
  · exact h
  · have hlatched : Heard {page with checking := page.checking ++ [item.id]} := h
    dsimp only
    split
    · exact h
    · exact hlatched.again rfl

theorem Heard.checkAnswered (h : Heard page) (item : Item) (sessionId : String) (attempt : ℕ) (answer : ResumeAnswer) :
    Heard (page.checkAnswered renderAgentHtml now item sessionId attempt answer) := by
  cases answer with
  | raised => exact h
  | pending => exact h
  | other => exact h
  | canResend =>
    unfold ChatPage.checkAnswered
    exact h.again rfl
  | answered text session => cases session <;> exact h

theorem Heard.step {act : Act} (h : Heard page) (hs : page.step renderAgentHtml act = some page') : Heard page' := by
  have hresumed : ∀ k, Heard (page.resumed k) := fun _ => h
  cases stepped_of_step hs with
  | nothing => exact h
  | type draft => exact h
  | submit now hne hb => exact h.submit hne hb
  | selectOption now itemId opt =>
    have hshown : Heard ((page.dispatch .disableAllOptions).append now .user {content := opt.label}) := h
    exact hshown.sendMessage rfl
  | start pending next => exact h
  | selectConversation id => exact h
  | recover itemId item => exact h.recover item
  | turn now k hk answer =>
    obtain ⟨-,-,hposts,-,htyped⟩ := turnAnswered_rest renderAgentHtml now (page.resumed k) _ _ answer
    exact (hresumed k).of_eq htyped hposts
  | reset now k hk answer => exact (hresumed k).resetAnswered _ answer
  | history now k hk answer => exact (hresumed k).historyAnswered _ answer
  | check now k hk answer => exact (hresumed k).checkAnswered _ _ _ answer
  | pause k =>
    unfold ChatPage.paused
    split <;> exact h
  | sessions hook => exact h

theorem heard_boot (now : ℕ) (stored : Option String) : Heard (boot now stored) := by
  unfold boot
  dsimp only
  split <;> rfl

end ChatPage

open ChatPage

/-- Whatever the user does and however the requests are answered: the page is busy exactly while one turn is in flight,
and any answer to it frees the page; options can be chosen from in one place at most, and nowhere during a turn; what was
typed in and sent off is posted, in order; the text of an error bubble is sent once more at most, and is one that was
sent before; and it is sent without asking only where no session is remembered that could be asked. -/
theorem one_turn_in_flight (renderAgentHtml : String → String) (now : ℕ) (stored : Option String) (page : ChatPage)
    (h : Reach (step renderAgentHtml) anyAct (boot now stored) page) :
    page.tasks.countP Task.isTurn = (if page.busy then 1 else 0) ∧
    (∀ k body button, page.tasks[k]? = some (.turn body button) → ∀ now answer, ∃ page',
      step renderAgentHtml page (.turn now k answer) = some page' ∧ page'.busy = false ∧
      page'.tasks.countP Task.isTurn = 0) ∧
    page.items.countP live ≤ (if page.busy then 0 else 1) ∧
    page.typed = page.typedMessages ∧
    (∀ id, page.posts.countP (Post.repeats id) ≤ 1) ∧
    (∀ i p, page.posts[i]? = some p → ∀ id, p.origin.item? = some id →
      p.body.message ∈ (page.posts.take i).map (·.body.message)) ∧
    ∀ p ∈ page.posts, ∀ id, p.origin = .retried id → orNull p.sessionId = none := by
  have horderly : Orderly page := h.invariant (orderly_boot now stored) fun _ _ _ hi _ hs => hi.step hs
  have hheard : Heard page := h.invariant (heard_boot now stored) fun _ _ _ hi _ hs => hi.step hs
  refine ⟨horderly.turns,fun k body button hk now answer => ?_,horderly.live,hheard,fun id => ?_,horderly.echoes,
    horderly.blind⟩
  · obtain ⟨hbusy,htasks,-⟩ := turnAnswered_rest renderAgentHtml now (page.resumed k) body button answer
    refine ⟨_,by rw [step,hk],hbusy,?_⟩
    rw [htasks]
    exact (horderly.turn hk).2
  · exact Nat.le_trans (Nat.le_add_left _ _) (horderly.once id)

/-- A turn times out, and its text is sent again; a second press of the button is of no use. -/
theorem one_turn_in_flight_retried : ∃ page : ChatPage, (page.posts.map (·.body.message) = ["hi","hi"] ∧ page.busy = true) ∧
    page.tasks.countP Task.isTurn = 1 ∧ ∀ id, page.posts.countP (Post.repeats id) ≤ 1 := by
  have hrun : ((run (step id) anyAct (boot 0 none) [.type " hi ",.submit 1,
      .turn 2 0 (.failure none (some "UPSTREAM_TIMEOUT") none),.recover "item-3"]).any fun page =>
        decide (page.posts.map (·.body.message) = ["hi","hi"] ∧ page.busy = true)) = true := by
    decide +kernel
  obtain ⟨page,hr,hP⟩ := exists_reach_of_run hrun
  have hpage : page.posts.map (·.body.message) = ["hi","hi"] ∧ page.busy = true := of_decide_eq_true hP
  obtain ⟨hturns,-,-,-,honce,-⟩ := one_turn_in_flight id 0 none page hr
  rw [hpage.2] at hturns
  exact ⟨page,hpage,hturns,honce⟩

end Saarathi
