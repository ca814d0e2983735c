import Saarathi.Machine
import Saarathi.Sessions
import Saarathi.Transcript

/-!
# Polling a session and its report

The page polls a session that is finalizing until it is completed or has failed, and
then the report until there is one. An interval starts a request at every tick,
whether or not the one before is answered, and stopping it does not recall requests.
-/

namespace Saarathi
namespace SessionLifecycle

open Transcript Machine

/-- What the page is told of a session. -/
structure SessionPayload where
  id : String
  state : SessionState
  agentKey : Option String := none
  reportUrl : Option String := none
  deriving DecidableEq, Repr

/-- A string that is there and not empty. -/
def truthy (s : Option String) : Bool := s.any (· ≠ "")

/-- The page's references that the hook reads. -/
structure Refs where
  lastAgent : Option String := none
  lastSessionAgentKey : Option String := none

structure SessionCopy where
  ready : String
  checking : String
  failed : String

/-- Which wording the session gets. -/
def copyFor (refs : Refs) (session : SessionPayload) : SessionCopy :=
  let agentKey := if truthy session.agentKey then session.agentKey else refs.lastSessionAgentKey
  if agentKey = some "capture_discussion" then {
    ready := "✅ Your discussion report is ready."
    checking := "Your discussion report is ready. Checking for the PDF report…"
    failed := "Capturing this discussion could not be completed. Please try again." }
  else {
    ready := "✅ Your story is ready."
    checking := "Your story is ready. Checking for the PDF report…"
    failed := "Story capture could not be completed. Please try again." }

/-- The callback of an interval, with what it closes over. -/
inductive Poll where
  | session (session : SessionPayload) (agentName : Option String)
  | report (sessionId placeholderId readyText : String) (attempts : ℕ)

/-- The page: the transcript, the intervals that were created, those that still run, and the intervals whose
requests are not answered yet. What the hook adds is also recorded with the session that it is about. -/
structure Page where
  chat : Chat
  refs : Refs := {}
  polls : List Poll := []
  live : List ℕ := []
  requests : List ℕ := []
  added : List (String × Item) := []

/-- What a request comes back with. -/
inductive Answer where
  | raised
  | session (ok : Bool) (data : Option SessionPayload)
  | report (status : ℕ) (reportUrl : Option String)

def reportMaxAttempts : ℕ := 30

namespace Page

variable (page : Page)

def stop (timer : ℕ) : Page := {page with live := page.live.filter (· ≠ timer)}

/-- `_pollSessionTimers` is cleared. -/
def clearAll : Page := {page with live := []}

/-- `setInterval`; the timer is the index of its callback. -/
def trackedInterval (poll : Poll) : Page :=
  {page with polls := page.polls ++ [poll], live := page.live ++ [page.polls.length]}

def dispatch (action : Action) : Page := {page with chat := page.chat.dispatch action}

/-- Add an item about the session at the end. -/
def append (now : ℕ) (sessionId : String) (kind : Kind) (fields : Fields) : Item × Page :=
  let (item,chat) := page.chat.append now kind fields
  (item,{page with chat := chat, added := page.added ++ [(sessionId,item)]})

/-- Add an item about the session where the anchor's session ended. -/
def insertAfterSession (now : ℕ) (sessionId anchor : String) (kind : Kind) (fields : Fields) : Item × Page :=
  let (item,chat) := page.chat.insertAfterSession now anchor kind fields
  (item,{page with chat := chat, added := page.added ++ [(sessionId,item)]})

/-- Replace the placeholder by what is said when the attempts are used up. -/
def reportPending (placeholderId : String) : Page := page.dispatch
  (.replace placeholderId {content := some "PDF report is still being generated. Please check back later."})

/-- One tick of an interval. -/
def tick (timer : ℕ) : Option Page :=
  if timer ∈ page.live then match page.polls[timer]? with
    | some (.session _ _) => some {page with requests := page.requests ++ [timer]}
    | some (.report sessionId placeholderId readyText attempts) =>
      let page := {page with polls := page.polls.set timer (.report sessionId placeholderId readyText (attempts + 1))}
      if reportMaxAttempts < attempts + 1 then some ((page.stop timer).reportPending placeholderId)
      else some {page with requests := page.requests ++ [timer]}
    | none => none
  else none

/-- The interval of a report poll, and its first check. -/
def pollReport (sessionId placeholderId readyText : String) : Page :=
  let timer := page.polls.length
  let page := page.trackedInterval (.report sessionId placeholderId readyText 1)
  {page with requests := page.requests ++ [timer]}

def renderCompleted (now : ℕ) (session : SessionPayload) (agentName anchorSessionId : Option String) : Page :=
  let page := page.dispatch (.removeKind .sessionFinalizing)
  let attribution := if truthy agentName then agentName else page.refs.lastAgent
  let copy := copyFor page.refs session
  let fields : Fields := {agentName := attribution, agentSessionId := some session.id}
  let add (fields : Fields) : Item × Page := match anchorSessionId with
    | some anchor =>
      if anchor = "" then page.append now session.id .sessionComplete fields
      else page.insertAfterSession now session.id anchor .sessionComplete fields
    | none => page.append now session.id .sessionComplete fields
  if truthy session.reportUrl then (add {fields with content := copy.ready, reportUrl := session.reportUrl}).2
  else
    let (placeholder,page) := add {fields with content := copy.checking}
    page.pollReport session.id placeholder.id copy.ready

def handleSession (now : ℕ) (session : SessionPayload) (agentName : Option String) : Page :=
  if session.state = .finalizing then
    let (_,page) := page.append now session.id .sessionFinalizing {
      content := "Writing your story… This may take a moment."
      agentName := if truthy agentName then agentName else page.refs.lastAgent
      agentSessionId := some session.id }
    page.trackedInterval (.session session agentName)
  else if session.state = .completed then page.renderCompleted now session agentName none
  else page

/-- The answer to a request of the interval. -/
def answered (now timer : ℕ) (answer : Answer) : Option Page :=
  match page.polls[timer]?,answer with
  | some _,.raised => some page
  | some (.session session agentName),.session ok data => match ok,data with
    | true,some data =>
      -- the endpoint answers about the session that it is asked for
      if data.id ≠ session.id then none
      else if data.state = .completed then some ((page.stop timer).renderCompleted now data agentName none)
      else if data.state = .failed ∨ data.state = .abandoned then
        let page := (page.stop timer).dispatch (.removeKind .sessionFinalizing)
        some (page.append now session.id .system {content := (copyFor page.refs session).failed}).2
      else some page
    | _,_ => some page
  | some (.report _ placeholderId readyText _),.report status reportUrl =>
    if status = 200 ∧ truthy reportUrl then
      some ((page.stop timer).dispatch (.replace placeholderId {content := some readyText, reportUrl := reportUrl}))
    else some page
  | _,_ => none

end Page

/-- What happens to the page. -/
inductive Event where
  | handle (now : ℕ) (session : SessionPayload) (agentName : Option String)
  | replay (now : ℕ) (session : SessionPayload) (agentName anchorSessionId : Option String)
  | tick (timer : ℕ)
  | answer (now k : ℕ) (answer : Answer)
  | clearAll
  | append (now : ℕ) (kind : Kind) (fields : Fields)
  | dispatch (action : Action)
  | setRefs (refs : Refs)

/-- A request may be answered before the ones that were sent earlier. -/
def Page.step (page : Page) : Event → Option Page
  | .handle now session agentName => some (page.handleSession now session agentName)
  | .replay now session agentName anchor =>
    if session.state = .completed then some (page.renderCompleted now session agentName anchor) else none
  | .tick timer => page.tick timer
  | .answer now k answer => match page.requests[k]? with
    | some timer => {page with requests := page.requests.eraseIdx k}.answered now timer answer
    | none => none
  | .clearAll => some page.clearAll
  | .append now kind fields => some {page with chat := (page.chat.append now kind fields).2}
  | .dispatch action => some (page.dispatch action)
  | .setRefs refs => some {page with refs := refs}

/-- The events of a list, one after the other. -/
def Page.play (page : Page) (events : List Event) : Option Page := events.foldlM Page.step page

/-- How many items of the kind about the session the hook has added. -/
def Page.count (page : Page) (id : String) (kind : Kind) : ℕ :=
  page.added.countP fun a => a.1 = id ∧ a.2.kind = kind

/-- The event tells the hook that the session is completed. -/
def Event.completes (id : String) : Event → Bool
  | .handle _ session _ => session.id = id && session.state = .completed
  | .replay _ session _ _ => session.id = id
  | .answer _ _ (.session true (some data)) => data.id = id && data.state = .completed
  | _ => false

/-- An answer tells the hook that the session failed or was abandoned. -/
def Event.fails (id : String) : Event → Bool
  | .answer _ _ (.session true (some data)) => data.id = id && (data.state = .failed || data.state = .abandoned)
  | _ => false

section Added

variable {page page' : Page} {e : Event} {events : List Event} {id : String} {kind : Kind} {now timer : ℕ}
  {session : SessionPayload} {agentName anchor : Option String} {answer : Answer}

theorem append_added (page : Page) (now : ℕ) (sessionId : String) (kind : Kind) (fields : Fields) :
    ∃ item : Item, item.kind = kind ∧
      (page.append now sessionId kind fields).2.added = page.added ++ [(sessionId,item)] := ⟨_,rfl,rfl⟩

theorem renderCompleted_added (page : Page) (now : ℕ) (session : SessionPayload) (agentName anchor : Option String) :
    ∃ item : Item, item.kind = .sessionComplete ∧
      (page.renderCompleted now session agentName anchor).added = page.added ++ [(session.id,item)] := by
  unfold Page.renderCompleted
  cases anchor with
  | none =>
    dsimp only
    split
    · exact ⟨_,rfl,rfl⟩
    · exact ⟨_,rfl,rfl⟩
  | some anchor =>
    dsimp only
    split
    · split
      · exact ⟨_,rfl,rfl⟩
      · exact ⟨_,rfl,rfl⟩
    · split
      · exact ⟨_,rfl,rfl⟩
      · exact ⟨_,rfl,rfl⟩

/-- What an event adds: an item for what it tells of a session. -/
structure Adds (e : Event) (new : List (String × Item)) : Prop where
  complete : ∀ id, (new.countP fun a => a.1 = id ∧ a.2.kind = .sessionComplete) = if e.completes id then 1 else 0
  failed : ∀ id, (new.countP fun a => a.1 = id ∧ a.2.kind = .system) = if e.fails id then 1 else 0

theorem Adds.nil (hc : ∀ id, e.completes id = false) (hf : ∀ id, e.fails id = false) : Adds e [] :=
  ⟨fun id => by simp [hc],fun id => by simp [hf]⟩

theorem Adds.single {item : Item} {sessionId : String}
    (hc : ∀ id, e.completes id = decide (sessionId = id ∧ item.kind = .sessionComplete))
    (hf : ∀ id, e.fails id = decide (sessionId = id ∧ item.kind = .system)) : Adds e [(sessionId,item)] := by
  constructor
  · intro id
    rw [List.countP_singleton,hc]
  · intro id
    rw [List.countP_singleton,hf]

theorem tick_added (h : page.tick timer = some page') : page'.added = page.added := by
  unfold Page.tick at h
  split at h
  · split at h
    · obtain rfl := Option.some.inj h
      rfl
    · dsimp only at h
      split at h
      · obtain rfl := Option.some.inj h
        rfl
      · obtain rfl := Option.some.inj h
        rfl
    · cases h
  · cases h

theorem handleSession_added (page : Page) (now : ℕ) (session : SessionPayload) (agentName : Option String) :
    ∃ new, (page.handleSession now session agentName).added = page.added ++ new ∧
      Adds (.handle now session agentName) new := by
  unfold Page.handleSession
  by_cases hf : session.state = .finalizing
  · rw [if_pos hf]
    exact ⟨_,rfl,.single (fun id => by simp [Event.completes,hf]) fun id => by simp [Event.fails]⟩
  · rw [if_neg hf]
    by_cases hc : session.state = .completed
    · rw [if_pos hc]
      obtain ⟨item,hkind,hadd⟩ := renderCompleted_added page now session agentName none
      exact ⟨_,hadd,.single (fun id => by simp [Event.completes,hc,hkind]) fun id => by simp [Event.fails,hkind]⟩
    · rw [if_neg hc]
      exact ⟨[],(List.append_nil _).symm,.nil (fun id => by simp [Event.completes,hc]) fun _ => rfl⟩

theorem answered_added {k : ℕ} (h : page.answered now timer answer = some page') :
    ∃ new, page'.added = page.added ++ new ∧ Adds (.answer now k answer) new := by
  have hnil : page'.added = page.added → (∀ id, (Event.answer now k answer).completes id = false) →
      (∀ id, (Event.answer now k answer).fails id = false) →
      ∃ new, page'.added = page.added ++ new ∧ Adds (.answer now k answer) new :=
    fun heq hc hf => ⟨[],by rw [heq,List.append_nil],.nil hc hf⟩
  unfold Page.answered at h
  split at h
  · obtain rfl := Option.some.inj h
    exact hnil rfl (fun _ => rfl) fun _ => rfl
  · rename_i ok data _
    split at h
    · rename_i data
      split at h
      · cases h
      · rename_i hid
        rw [not_ne_iff] at hid
        split at h
        · rename_i hc
          obtain rfl := Option.some.inj h
          obtain ⟨item,hkind,hadd⟩ := renderCompleted_added (page.stop timer) now data _ none
          exact ⟨_,hadd,.single (fun id => by simp [Event.completes,hc,hkind]) fun id => by
            simp [Event.fails,hc,hkind]⟩
        · rename_i hc
          split at h
          · rename_i hf
            obtain rfl := Option.some.inj h
            have hterminal : (decide (data.state = .failed) || decide (data.state = .abandoned)) = true := by
              simpa using hf
            exact ⟨_,rfl,.single (fun id => by simp [Event.completes,hc]) fun id => by
              simp [Event.fails,hterminal,hid]⟩
          · rename_i hf
            obtain rfl := Option.some.inj h
            rw [not_or] at hf
            exact hnil rfl (fun id => by simp [Event.completes,hc]) fun id => by simp [Event.fails,hf]
    · rename_i hdata
      obtain rfl := Option.some.inj h
      refine hnil rfl (fun id => ?_) fun id => ?_
      · cases ok <;> cases data <;> first | rfl | exact (hdata _ rfl rfl).elim
      · cases ok <;> cases data <;> first | rfl | exact (hdata _ rfl rfl).elim
  · split at h
    · obtain rfl := Option.some.inj h
      exact hnil rfl (fun _ => rfl) fun _ => rfl
    · obtain rfl := Option.some.inj h
      exact hnil rfl (fun _ => rfl) fun _ => rfl
  · cases h

/-- One event adds what it tells of. -/
theorem step_added (h : page.step e = some page') : ∃ new, page'.added = page.added ++ new ∧ Adds e new := by
  have hnil : page'.added = page.added → (∀ id, e.completes id = false) → (∀ id, e.fails id = false) →
      ∃ new, page'.added = page.added ++ new ∧ Adds e new :=
    fun heq hc hf => ⟨[],by rw [heq,List.append_nil],.nil hc hf⟩
  cases e with
  | handle now session agentName =>
    obtain rfl := Option.some.inj h
    exact handleSession_added page now session agentName
  | replay now session agentName anchor =>
    rw [Page.step] at h
    split at h
    · obtain rfl := Option.some.inj h
      obtain ⟨item,hkind,hadd⟩ := renderCompleted_added page now session agentName anchor
      exact ⟨_,hadd,.single (fun id => by simp [Event.completes,hkind]) fun id => by simp [Event.fails,hkind]⟩
    · cases h
  | tick timer => exact hnil (tick_added h) (fun _ => rfl) fun _ => rfl
  | answer now k answer =>
    rw [Page.step] at h
    split at h
    · obtain ⟨new,hadd,hnew⟩ := answered_added (k := k) h
      exact ⟨new,hadd,hnew⟩
    · cases h
  | clearAll =>
    obtain rfl := Option.some.inj h
    exact hnil rfl (fun _ => rfl) fun _ => rfl
  | append now kind fields =>
    obtain rfl := Option.some.inj h
    exact hnil rfl (fun _ => rfl) fun _ => rfl
  | dispatch action =>
    obtain rfl := Option.some.inj h
    exact hnil rfl (fun _ => rfl) fun _ => rfl
  | setRefs refs =>
    obtain rfl := Option.some.inj h
    exact hnil rfl (fun _ => rfl) fun _ => rfl

/-- A run adds what its events tell of. -/
theorem play_count (h : page.play events = some page') (id : String) :
    page'.count id .sessionComplete = page.count id .sessionComplete + events.countP (·.completes id) ∧
      page'.count id .system = page.count id .system + events.countP (·.fails id) := by
  induction events generalizing page with
  | nil =>
    obtain rfl := Option.some.inj h
    exact ⟨rfl,rfl⟩
  | cons e events ih =>
    rw [Page.play,List.foldlM_cons,Option.bind_eq_bind,Option.bind_eq_some_iff] at h
    obtain ⟨page₁,h₁,h⟩ := h
    obtain ⟨new,hadd,hnew⟩ := step_added h₁
    obtain ⟨hc,hf⟩ := ih h
    constructor
    · rw [hc,Page.count,hadd,List.countP_append,hnew.complete,List.countP_cons,Page.count]
      omega
    · rw [hf,Page.count,hadd,List.countP_append,hnew.failed,List.countP_cons,Page.count]
      omega

end Added

/-- The interval polls the session with the id. -/
def Page.Polls (page : Page) (timer : ℕ) (id : String) : Prop :=
  ∃ session agentName, page.polls[timer]? = some (Poll.session session agentName) ∧ session.id = id

/-- The session is not handed to the hook again, and its poll does not tick while a request is unanswered. -/
def Unhurried (id : String) (page : Page) : Event → Prop
  | .handle _ session _ => session.id ≠ id
  | .replay _ session _ _ => session.id ≠ id
  | .tick timer => page.Polls timer id → timer ∉ page.requests
  | _ => True

/-- How many notices and failure messages about the session the hook has added. -/
def Page.told (page : Page) (id : String) : ℕ := page.count id .sessionComplete + page.count id .system

/-- What is done on behalf of other intervals than `p` and other sessions. -/
structure Frame (id : String) (p : ℕ) (page page' : Page) : Prop where
  polls : ∀ t, page'.Polls t id ↔ page.Polls t id
  live : p ∈ page'.live → p ∈ page.live
  requests : page'.requests.count p = page.requests.count p

section Frames

variable {page page' page'' : Page} {id : String} {p timer now : ℕ} {poll : Poll} {answer : Answer}

theorem Frame.trans (h : Frame id p page page') (h' : Frame id p page' page'') : Frame id p page page'' :=
  ⟨fun t => (h'.polls t).trans (h.polls t),fun hl => h.live (h'.live hl),h'.requests.trans h.requests⟩

/-- Only the transcript and the record of what was added differ. -/
theorem Frame.of_eq (hpolls : page'.polls = page.polls) (hlive : page'.live = page.live)
    (hrequests : page'.requests = page.requests) : Frame id p page page' := by
  refine ⟨fun t => ?_,fun h => hlive ▸ h,by rw [hrequests]⟩
  rw [Page.Polls,Page.Polls,hpolls]

theorem frame_stop (id : String) (p : ℕ) (page : Page) (timer : ℕ) : Frame id p page (page.stop timer) :=
  ⟨fun _ => Iff.rfl,fun h => (List.mem_filter.mp h).1,rfl⟩

theorem frame_trackedInterval (hp : p < page.polls.length)
    (hpoll : ∀ session agentName, poll = .session session agentName → session.id ≠ id) :
    Frame id p page (page.trackedInterval poll) := by
  refine ⟨?_,?_,rfl⟩
  · intro t
    change (∃ session agentName, (page.polls ++ [poll])[t]? = _ ∧ _) ↔ _
    rcases Nat.lt_trichotomy t page.polls.length with hlt | rfl | hlt
    · rw [List.getElem?_append_left hlt]
      rfl
    · simpa [Page.Polls] using hpoll
    · rw [List.getElem?_eq_none (by rw [List.length_append,List.length_singleton]; omega)]
      simp [Page.Polls,List.getElem?_eq_none (Nat.le_of_lt hlt)]
  · intro h
    rcases List.mem_append.mp h with h | h
    · exact h
    · exact absurd (List.mem_singleton.mp h) (Nat.ne_of_lt hp)

theorem frame_request (hne : timer ≠ p) : Frame id p page {page with requests := page.requests ++ [timer]} := by
  refine ⟨fun _ => Iff.rfl,fun h => h,?_⟩
  rw [List.count_append,List.count_eq_zero_of_not_mem (a := p) (l := [timer]) (by simpa using hne.symm),
    Nat.add_zero]

theorem Frame.pollReport (h : Frame id p page page') (hpolls : page'.polls = page.polls)
    (hp : p < page.polls.length) (sessionId placeholderId readyText : String) :
    Frame id p page (page'.pollReport sessionId placeholderId readyText) := by
  rw [← hpolls] at hp
  refine h.trans ((frame_trackedInterval hp ?_).trans (frame_request (Nat.ne_of_gt hp)))
  intro session agentName heq
  cases heq

theorem frame_renderCompleted (id : String) (hp : p < page.polls.length) (now : ℕ) (session : SessionPayload)
    (agentName anchor : Option String) : Frame id p page (page.renderCompleted now session agentName anchor) := by
  unfold Page.renderCompleted
  cases anchor with
  | none =>
    dsimp only
    split
    · exact .of_eq rfl rfl rfl
    · refine .pollReport (.of_eq ?_ ?_ ?_) ?_ hp _ _ _ <;> rfl
  | some anchor =>
    dsimp only
    split
    · split
      · exact .of_eq rfl rfl rfl
      · exact .of_eq rfl rfl rfl
    · split
      · refine .pollReport (.of_eq ?_ ?_ ?_) ?_ hp _ _ _ <;> rfl
      · refine .pollReport (.of_eq ?_ ?_ ?_) ?_ hp _ _ _ <;> rfl

/-- An answer that tells how the session ended stops the interval that asked. -/
theorem answered_frame (id : String) (hp : p < page.polls.length) (h : page.answered now timer answer = some page') :
    Frame id p page page' ∧ ∀ k, (Event.answer now k answer).completes id ∨ (Event.answer now k answer).fails id →
      page.Polls timer id ∧ (timer = p → p ∉ page'.live) := by
  have hstopped : p ∉ (page.stop p).live := fun hmem => by simp [Page.stop] at hmem
  unfold Page.answered at h
  split at h
  · obtain rfl := Option.some.inj h
    exact ⟨.of_eq rfl rfl rfl,fun k htold => by simp [Event.completes,Event.fails] at htold⟩
  · rename_i session agentName ok data hpoll
    split at h
    · rename_i data
      split at h
      · cases h
      · rename_i hid
        rw [not_ne_iff] at hid
        have hasks : data.id = id → page.Polls timer id := fun h => ⟨session,agentName,hpoll,hid ▸ h⟩
        have htells : ∀ k, (Event.answer now k (.session true (some data))).completes id ∨
            (Event.answer now k (.session true (some data))).fails id → data.id = id := by
          intro k htold
          simp only [Event.completes,Event.fails,Bool.and_eq_true,decide_eq_true_eq] at htold
          exact htold.elim And.left And.left
        split at h
        · obtain rfl := Option.some.inj h
          have hp' : p < (page.stop timer).polls.length := hp
          have hrender := frame_renderCompleted id hp' now data agentName none
          refine ⟨(frame_stop id p page timer).trans hrender,fun k htold => ⟨hasks (htells k htold),?_⟩⟩
          rintro rfl
          exact fun hmem => hstopped (hrender.live hmem)
        · split at h
          · obtain rfl := Option.some.inj h
            refine ⟨(frame_stop id p page timer).trans (.of_eq rfl rfl rfl),
              fun k htold => ⟨hasks (htells k htold),?_⟩⟩
            rintro rfl
            exact hstopped
          · rename_i hc hf
            obtain rfl := Option.some.inj h
            rw [not_or] at hf
            exact ⟨.of_eq rfl rfl rfl,fun k htold => by simp [Event.completes,Event.fails,hc,hf] at htold⟩
    · rename_i hdata
      obtain rfl := Option.some.inj h
      refine ⟨.of_eq rfl rfl rfl,fun k htold => ?_⟩
      cases ok with
      | false => simp [Event.completes,Event.fails] at htold
      | true =>
        cases data with
        | none => simp [Event.completes,Event.fails] at htold
        | some data => exact (hdata data rfl rfl).elim
  · split at h
    · obtain rfl := Option.some.inj h
      exact ⟨(frame_stop id p page timer).trans (.of_eq rfl rfl rfl),fun k htold => by
        simp [Event.completes,Event.fails] at htold⟩
    · obtain rfl := Option.some.inj h
      exact ⟨.of_eq rfl rfl rfl,fun k htold => by simp [Event.completes,Event.fails] at htold⟩
  · cases h

/-- A tick of another interval. -/
theorem tick_frame (hne : timer ≠ p) (h : page.tick timer = some page') : Frame id p page page' := by
  unfold Page.tick at h
  split at h
  · split at h
    · obtain rfl := Option.some.inj h
      exact frame_request hne
    · rename_i sessionId placeholderId readyText attempts hpoll
      have hset : Frame id p page
          {page with polls := page.polls.set timer (.report sessionId placeholderId readyText (attempts + 1))} := by
        refine ⟨fun t => ?_,fun h => h,rfl⟩
        unfold Page.Polls
        by_cases ht : timer = t
        · subst ht
          rw [hpoll,List.getElem?_set_self (List.getElem?_eq_some_iff.mp hpoll).1]
          simp
        · rw [List.getElem?_set_ne ht]
      dsimp only at h
      split at h
      · obtain rfl := Option.some.inj h
        exact hset.trans ((frame_stop id p _ timer).trans (.of_eq rfl rfl rfl))
      · obtain rfl := Option.some.inj h
        exact hset.trans (frame_request hne)
    · cases h
  · cases h

end Frames

/-- The interval `p` is the only one that polls the session; as long as it runs nothing was told of the session
since there were `n`, and once it is not at most one more comes. -/
structure Sole (id : String) (p n : ℕ) (page : Page) : Prop where
  mine : page.Polls p id
  sole : ∀ t, page.Polls t id → t = p
  running : p ∈ page.live → page.told id = n
  bound : page.told id + page.requests.count p ≤ n + 1

section Single

variable {page page' : Page} {id : String} {p n : ℕ} {e : Event}

theorem told_step (h : page.step e = some page') (id : String) : page'.told id =
    page.told id + (if e.completes id then 1 else 0) + (if e.fails id then 1 else 0) := by
  obtain ⟨new,hadd,hnew⟩ := step_added h
  rw [Page.told,Page.told,Page.count,Page.count,Page.count,Page.count,hadd,List.countP_append,List.countP_append,
    hnew.complete,hnew.failed]
  omega

theorem not_completes_and_fails (e : Event) (id : String) : ¬(e.completes id = true ∧ e.fails id = true) := by
  rintro ⟨hc,hf⟩
  unfold Event.completes at hc
  unfold Event.fails at hf
  split at hf
  · simp only [Bool.and_eq_true,decide_eq_true_eq] at hc
    simp [hc.2] at hf
  · cases hf

theorem Sole.lt (h : Sole id p n page) : p < page.polls.length := by
  obtain ⟨session,agentName,hpoll,-⟩ := h.mine
  exact (List.getElem?_eq_some_iff.mp hpoll).1

theorem Sole.frame (h : Sole id p n page) (hf : Frame id p page page') (ht : page'.told id = page.told id) :
    Sole id p n page' :=
  ⟨(hf.polls p).mpr h.mine,fun t hp => h.sole t ((hf.polls t).mp hp),fun hl => by rw [ht,h.running (hf.live hl)],
    by rw [ht,hf.requests]; exact h.bound⟩

/-- The step of an event that is not hurried. -/
theorem Sole.step (h : Sole id p n page) (hok : Unhurried id page e) (hs : page.step e = some page') :
    Sole id p n page' := by
  have htold := told_step hs id
  cases e with
  | handle now session agentName =>
    have hne : session.id ≠ id := hok
    obtain rfl := Option.some.inj hs
    have hsame : (page.handleSession now session agentName).told id = page.told id := by
      simpa [Event.completes,Event.fails,hne] using htold
    refine h.frame ?_ hsame
    unfold Page.handleSession
    split
    · refine .trans (.of_eq ?_ ?_ ?_) (frame_trackedInterval h.lt ?_) <;> try rfl
      intro s a heq
      cases heq
      exact hne
    · split
      · exact frame_renderCompleted id h.lt now session agentName none
      · exact .of_eq rfl rfl rfl
  | replay now session agentName anchor =>
    have hne : session.id ≠ id := hok
    have hsame : page'.told id = page.told id := by simpa [Event.completes,Event.fails,hne] using htold
    rw [Page.step] at hs
    split at hs
    · obtain rfl := Option.some.inj hs
      exact h.frame (frame_renderCompleted id h.lt now session agentName anchor) hsame
    · cases hs
  | tick timer =>
    by_cases ht : timer = p
    · subst ht
      have hfree : timer ∉ page.requests := hok h.mine
      obtain ⟨session,agentName,hpoll,-⟩ := h.mine
      change page.tick timer = some page' at hs
      unfold Page.tick at hs
      split at hs
      · rename_i hlive
        rw [hpoll] at hs
        obtain rfl := Option.some.inj hs
        refine ⟨h.mine,h.sole,h.running,?_⟩
        have hone : (page.requests ++ [timer]).count timer = 1 := by
          rw [List.count_append,List.count_eq_zero_of_not_mem hfree,List.count_singleton_self]
        have hrun := h.running hlive
        change page.told id + (page.requests ++ [timer]).count timer ≤ n + 1
        omega
      · cases hs
    · exact h.frame (tick_frame ht hs) htold
  | answer now k answer =>
    rw [Page.step] at hs
    split at hs
    · rename_i timer hk
      obtain ⟨hlt,htimer⟩ := List.getElem?_eq_some_iff.mp hk
      have hcount : page.requests.count p = (page.requests.eraseIdx k).count p + if timer = p then 1 else 0 := by
        rw [← (List.getElem_cons_eraseIdx_perm hlt).count_eq p,htimer,List.count_cons]
        simp
      have hlt' : p < {page with requests := page.requests.eraseIdx k}.polls.length := h.lt
      obtain ⟨hframe,htells⟩ := answered_frame id hlt' hs
      have hbound := h.bound
      have hboth := not_completes_and_fails (.answer now k answer) id
      have hrequests : page'.requests.count p = (page.requests.eraseIdx k).count p := hframe.requests
      by_cases htell : (Event.answer now k answer).completes id ∨ (Event.answer now k answer).fails id
      · obtain ⟨hpolls,hstop⟩ := htells k htell
        obtain rfl : timer = p := h.sole timer hpolls
        refine ⟨(hframe.polls _).mpr h.mine,fun t ht => h.sole t ((hframe.polls t).mp ht),
          fun hl => absurd hl (hstop rfl),?_⟩
        rw [if_pos rfl] at hcount
        split at htold <;> split at htold
        · rename_i hc hf
          exact absurd ⟨hc,hf⟩ hboth
        all_goals omega
      · rw [not_or] at htell
        rw [if_neg htell.1,if_neg htell.2] at htold
        refine ⟨(hframe.polls _).mpr h.mine,fun t ht => h.sole t ((hframe.polls t).mp ht),?_,?_⟩
        · intro hl
          rw [htold]
          exact h.running (hframe.live hl)
        · omega
    · cases hs
  | clearAll =>
    obtain rfl := Option.some.inj hs
    exact h.frame ⟨fun _ => Iff.rfl,fun hl => (by cases hl),rfl⟩ htold
  | append now kind fields =>
    obtain rfl := Option.some.inj hs
    exact h.frame (.of_eq rfl rfl rfl) htold
  | dispatch action =>
    obtain rfl := Option.some.inj hs
    exact h.frame (.of_eq rfl rfl rfl) htold
  | setRefs refs =>
    obtain rfl := Option.some.inj hs
    exact h.frame (.of_eq rfl rfl rfl) htold

/-- A session that is seen as finalizing while no interval polls it gets one of its own. -/
theorem sole_handle {now : ℕ} {session : SessionPayload} {agentName : Option String} (hnone : ∀ t, ¬page.Polls t id)
    (hrequests : ∀ t ∈ page.requests, t < page.polls.length) (hid : session.id = id)
    (hstate : session.state = .finalizing) :
    Sole id page.polls.length (page.told id) (page.handleSession now session agentName) := by
  have htold : (page.handleSession now session agentName).told id = page.told id := by
    have hs : page.step (.handle now session agentName) = some (page.handleSession now session agentName) := rfl
    simpa [Event.completes,Event.fails,hstate] using told_step hs id
  have hpolls : (page.handleSession now session agentName).polls = page.polls ++ [.session session agentName] := by
    rw [Page.handleSession,if_pos hstate]
    rfl
  have hreq : (page.handleSession now session agentName).requests = page.requests := by
    rw [Page.handleSession,if_pos hstate]
    rfl
  have hfree : page.requests.count page.polls.length = 0 :=
    List.count_eq_zero_of_not_mem fun hmem => Nat.lt_irrefl _ (hrequests _ hmem)
  refine ⟨⟨session,agentName,by rw [hpolls]; simp,hid⟩,?_,fun _ => htold,?_⟩
  · rintro t ⟨s,a,hpoll,hs⟩
    rw [hpolls] at hpoll
    rcases Nat.lt_trichotomy t page.polls.length with hlt | heq | hlt
    · rw [List.getElem?_append_left hlt] at hpoll
      exact absurd ⟨s,a,hpoll,hs⟩ (hnone t)
    · exact heq
    · rw [List.getElem?_eq_none (by rw [List.length_append,List.length_singleton]; omega)] at hpoll
      cases hpoll
  · rw [htold,hreq,hfree]
    omega

end Single

/-- A run adds at most one notice and at most one failure message about a session exactly if the hook is told at
most once that the session is completed and at most once that it failed. It is told no more than once in all
when the session's poll does not tick while a request is unanswered. -/
theorem session_announced_iff (page page' : Page) (events : List Event) (id : String)
    (h : page.play events = some page') :
    (page'.count id .sessionComplete ≤ page.count id .sessionComplete + 1 ∧
        page'.count id .system ≤ page.count id .system + 1 ↔
      events.countP (·.completes id) ≤ 1 ∧ events.countP (·.fails id) ≤ 1) ∧
    ∀ now session agentName, (∀ t, ¬page.Polls t id) → (∀ t ∈ page.requests, t < page.polls.length) →
      session.id = id → session.state = .finalizing →
      ∀ q, Reach Page.step (Unhurried id) (page.handleSession now session agentName) q →
        q.told id ≤ page.told id + 1 := by
  constructor
  · obtain ⟨hc,hf⟩ := play_count h id
    rw [hc,hf]
    omega
  · intro now session agentName hnone hrequests hid hstate q hr
    have hsole := hr.invariant (sole_handle hnone hrequests hid hstate)
      fun _ _ _ hinv hok hs => hinv.step hok hs
    exact Nat.le_trans (Nat.le_add_right _ _) hsole.bound

section Sample

def Sample.session (state : SessionState) : SessionPayload where
  id := "s"
  state := state
  reportUrl := some "/report.pdf"

/-- The page when the session is seen as finalizing. -/
def Sample.finalizing : Page := ({chat := {seq := 0, items := []}} : Page).handleSession 0 (Sample.session .finalizing) none

def Sample.completed : Answer := .session true (some (Sample.session .completed))

/-- The first request takes longer than the interval. -/
def Sample.overlapping : List Event := [.tick 0,.tick 0,.answer 1 0 Sample.completed,.answer 2 0 Sample.completed]

def Sample.single : List Event := [.tick 0,.answer 1 0 Sample.completed]

end Sample

theorem session_announced_single : ∃ page', Sample.finalizing.play Sample.single = some page' ∧
    page'.count "s" .sessionComplete ≤ 1 := by
  obtain ⟨page',h⟩ : ∃ page', Sample.finalizing.play Sample.single = some page' := ⟨_,rfl⟩
  exact ⟨page',h,((session_announced_iff _ page' _ "s" h).1.mpr (by decide)).1⟩

theorem session_announced_twice : ∃ page', Sample.finalizing.play Sample.overlapping = some page' ∧
    page'.count "s" .sessionComplete = Sample.finalizing.count "s" .sessionComplete + 2 ∧
    (page'.chat.items.map fun it => (it.kind,it.content)) =
      [(.sessionComplete,"✅ Your story is ready."),(.sessionComplete,"✅ Your story is ready.")] :=
  ⟨_,rfl,rfl,rfl⟩

end SessionLifecycle
end Saarathi
