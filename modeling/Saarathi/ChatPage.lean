import Saarathi.CapabilitySchema
import Saarathi.SessionPolls
import Saarathi.Stripping

/-!
# The chat page

A handler of the page runs up to the first answer that it awaits. What is awaited is
answered in any order, and the user goes on using the page meanwhile.
-/

namespace Saarathi

open Transcript

/-- The body of POST /api/chat. -/
structure TurnBody where
  message : String
  agentKey : Option String
  optionId : Option String
  autostart : Bool
  conversationId : Option String

/-- What a turn is posted for. A text is sent once more when there is no session to ask about it, or when it was
asked and the text may be sent. -/
inductive Origin where
  | typed
  | option
  | autostart
  | retried (itemId : String)
  | resent (itemId : String)

/-- A turn that was posted, and the session that was remembered then. -/
structure Post where
  body : TurnBody
  origin : Origin
  sessionId : Option String

/-- The payload of a turn that succeeded. -/
structure TurnReply where
  conversationId : Option String
  agentName : String
  response : String
  options : Option (List ChatOption)
  session : Option SessionLifecycle.SessionPayload

inductive TurnAnswer where
  | raised
  | success (reply : TurnReply)
  | failure (conversationId errorCode error : Option String)

inductive ResetAnswer where
  | raised
  | answered (conversationId : Option String)

/-- A message as GET /api/conversations/{id}/messages lists it. -/
structure StoredMessage where
  role : String
  content : String
  agentName : Option String
  agentSessionId : Option String
  options : Option (List ChatOption)
  selectedOptionId : Option String
  createdAt : ℕ

structure History where
  messages : List StoredMessage
  sessions : List SessionLifecycle.SessionPayload

inductive HistoryAnswer where
  | raised
  | notFound
  | refused
  | loaded (history : History)

/-- What POST /api/sessions/{id}/resume answers: status 202, an outcome, or something else. -/
inductive ResumeAnswer where
  | raised
  | pending
  | answered (text : String) (session : Option SessionLifecycle.SessionPayload)
  | canResend
  | other

/-- An action of the type `start_agent`. -/
structure StartAgent where
  agentKey : String
  autostart : Option String

/-- A button of a capability card. -/
structure ActionButton where
  capabilityId : String
  agentId : String
  deriving DecidableEq

/-- What a handler goes on with when the new conversation is there. -/
inductive Afterwards where
  | nothing
  | pin (agentKey : String)
  | start (action : StartAgent) (button : Option ActionButton)

/-- A handler that waits: for the answer to a request, or for the time before it asks again. -/
inductive Task where
  | turn (body : TurnBody) (button : Option ActionButton)
  | reset (next : Afterwards)
  | history (id : String)
  | check (item : Item) (sessionId : String) (attempt : ℕ)
  | pause (item : Item) (sessionId : String) (attempt : ℕ)

/-- The page. Which turns were posted, and which texts were typed in and sent off, is recorded besides. -/
structure ChatPage where
  hook : SessionLifecycle.Page
  conversationId : Option String := none
  busy : Bool := false
  currentAgentKey : Option String := none
  lastSentText : Option String := none
  lastSessionId : Option String := none
  draft : String := ""
  /-- The buttons whose handler has not come back, `pendingRef`. -/
  pending : List ActionButton := []
  /-- The error bubbles whose button is `busy`. -/
  checking : List String := []
  tasks : List Task := []
  posts : List Post := []
  typed : List String := []

/-- The items of a list, when the counter is at `seq`. -/
def Transcript.makeItems (now : ℕ) : ℕ → List (Kind × Fields) → List Item
  | _, [] => []
  | seq, (kind,fields) :: rest => makeItem (nextId (seq + 1)) now kind fields :: makeItems now (seq + 1) rest

namespace ChatPage

def isWhite (c : Char) : Bool := decide (c.toNat < 0x10000) && CapabilitySchema.isWhite (UInt16.ofNat c.toNat)

def trim (s : String) : String := String.ofList (Stripping.core isWhite s.toList)

/-- `s || null`. -/
def orNull (s : Option String) : Option String := s.filter (· ≠ "")

def resumeMaxAttempts : ℕ := 10

variable (page : ChatPage)

def items : List Item := page.hook.chat.items

def append (now : ℕ) (kind : Kind) (fields : Fields) : ChatPage :=
  {page with hook.chat := (page.hook.chat.append now kind fields).2}

def dispatch (action : Action) : ChatPage := {page with hook := page.hook.dispatch action}

/-- The greeting is made where the transcript is reset. -/
def resetToGreeting (now : ℕ) : ChatPage :=
  let seq := page.hook.chat.seq + 1
  let chat : Chat := {seq := seq, items := reducer page.items (.resetToGreeting (nextId seq) now)}
  {page with hook.chat := chat}

def clearAll : ChatPage := {page with hook := page.hook.clearAll}

def handleSession (now : ℕ) (session : SessionLifecycle.SessionPayload) (agentName : Option String) : ChatPage :=
  {page with hook := page.hook.handleSession now session agentName}

def resetConversationScopedState : ChatPage :=
  {page with currentAgentKey := none, lastSessionId := none, hook.refs := {}}

def remember (session : SessionLifecycle.SessionPayload) (agentKey : Option String) : ChatPage :=
  {page with lastSessionId := some session.id, hook.refs.lastSessionAgentKey := agentKey}

/-- The handler of the button has come back. -/
def unlatch (button : Option ActionButton) : ChatPage :=
  {page with pending := page.pending.filter fun b => some b ≠ button}

/-- The button of the error bubble can be pressed again. -/
def recheckable (itemId : String) : ChatPage := {page with checking := page.checking.filter (· ≠ itemId)}

def await (task : Task) : ChatPage := {page with tasks := page.tasks ++ [task]}

/-- The optional fields are left out where they are empty. -/
def sendTurn (message : String) (optionId : Option String) (autostart : Bool) : TurnBody where
  message := message
  agentKey := page.currentAgentKey
  optionId := orNull optionId
  autostart := autostart
  conversationId := orNull page.conversationId

/-- Up to the request. -/
def post (message : String) (optionId : Option String) (autostart : Bool) (origin : Origin)
    (button : Option ActionButton) : ChatPage :=
  let body := page.sendTurn message optionId autostart
  let page := {page with busy := true, lastSentText := some message}.dispatch .disableAllOptions
  let posted : Post := {body := body, origin := origin, sessionId := page.lastSessionId}
  {page with posts := page.posts ++ [posted]}.await (.turn body button)

def sendMessage (text : Option String) (optionId : Option String) (autostart : Bool) (origin : Origin)
    (button : Option ActionButton) : ChatPage :=
  let text := text.getD ""
  if trim text = "" then page.unlatch button
  -- `acquireBusy`
  else if page.busy then page.unlatch button
  else page.post text optionId autostart origin button

variable (renderAgentHtml : String → String)

/-- A pill whenever the responding agent changed. -/
def switchContext (now : ℕ) (agentName : String) : ChatPage :=
  if page.hook.refs.lastAgent = some agentName then page
  else
    let page := page.append now .contextSwitch {content := "Switched context to " ++ agentName}
    {page with hook.refs.lastAgent := some agentName}

/-- The reply to a turn. -/
def succeed (now : ℕ) (reply : TurnReply) : ChatPage :=
  let page := {page with currentAgentKey := none}
  let page := (page.switchContext now reply.agentName).append now .agent {
    content := reply.response
    html := some (renderAgentHtml reply.response)
    agentName := some reply.agentName
    options := reply.options.filter (· ≠ [])
    agentSessionId := reply.session.map (·.id) }
  match reply.session with
  | some session => (page.remember session session.agentKey).handleSession now session none
  | none => page

/-- `if (data?.conversation_id) setConversationId(data.conversation_id)`. -/
def adopt (conversationId : Option String) : ChatPage :=
  {page with conversationId := orNull conversationId <|> page.conversationId}

/-- The rest of `sendMessage`, and then of the handler of the button. -/
def turnAnswered (now : ℕ) (body : TurnBody) (button : Option ActionButton) (answer : TurnAnswer) : ChatPage :=
  let page := match answer with
    | .raised => page.append now .system {content := "Network error. Please try again."}
    | .success reply => (page.adopt reply.conversationId).succeed renderAgentHtml now reply
    | .failure conversationId errorCode error =>
      let page := page.adopt conversationId
      if errorCode = some "UPSTREAM_TIMEOUT" then page.append now .errorRetry {
        content := "The request timed out. Your session is still active."
        retryText := some body.message }
      else page.append now .system {content := (orNull error).getD "An error occurred."}
  {page with busy := false}.unlatch button

def startNewConversation (next : Afterwards) : ChatPage := page.clearAll.await (.reset next)

/-- The rest of `startNewConversation`, and then of its caller. -/
def resetAnswered (now : ℕ) (next : Afterwards) (answer : ResetAnswer) : ChatPage :=
  let page := {page with conversationId := match answer with
    | .raised => none
    | .answered conversationId => conversationId}
  let page := (page.resetToGreeting now).resetConversationScopedState
  match next with
  | .nothing => page
  | .pin agentKey => {page with currentAgentKey := some agentKey}
  | .start action button =>
    let page := {page with currentAgentKey := some action.agentKey}
    match orNull action.autostart with
    | some text => page.sendMessage text none true .autostart button
    | none => page.unlatch button

def loadConversationHistory (id : String) : ChatPage :=
  page.clearAll.resetConversationScopedState.await (.history id)

end ChatPage

namespace StoredMessage

variable (m : StoredMessage)

def isAssistant : Bool := m.role = "assistant"

def kind : Kind := if m.isAssistant then .agent else .user

/-- Replayed options are decided. -/
def fields (renderAgentHtml : String → String) : Fields where
  content := m.content
  html := if m.isAssistant then some (renderAgentHtml m.content) else none
  agentName := m.agentName
  timestamp := some m.createdAt
  agentSessionId := m.agentSessionId
  options := if m.isAssistant then m.options.filter (· ≠ []) else none
  selectedOptionId := m.selectedOptionId
  readOnly := true

end StoredMessage

namespace History

variable (history : History)

def lastAgentName : Option String := (history.messages.reverse.find? (·.isAssistant)).bind (·.agentName)

/-- `agentNameBySession.get(id) || lastAgentName`. -/
def agentNameOf (id : String) : Option String :=
  ((history.messages.reverse.find? fun m =>
    decide (m.agentSessionId = some id) && decide (id ≠ "") && SessionLifecycle.truthy m.agentName).bind
      (·.agentName)).or history.lastAgentName

def items (renderAgentHtml : String → String) (now seq : ℕ) : List Item :=
  makeItems now seq (history.messages.map fun m => (m.kind,m.fields renderAgentHtml))

def completed : List SessionLifecycle.SessionPayload := history.sessions.filter fun s => s.state = .completed

end History

namespace ChatPage

variable (page : ChatPage) (renderAgentHtml : String → String)

/-- The transcript of a conversation. -/
def setItems (now : ℕ) (history : History) : ChatPage :=
  let seq := page.hook.chat.seq
  let chat : Chat := {
    seq := seq + history.messages.length
    items := reducer page.items (.set (history.items renderAgentHtml now seq)) }
  {page with hook.chat := chat}

def renderCompleted (now : ℕ) (history : History) : ChatPage :=
  let render (hook : SessionLifecycle.Page) (s : SessionLifecycle.SessionPayload) : SessionLifecycle.Page :=
    hook.renderCompleted now s (history.agentNameOf s.id) (some s.id)
  {page with hook := history.completed.foldl render page.hook}

/-- The rest of `loadConversationHistory`. -/
def historyAnswered (now : ℕ) (id : String) : HistoryAnswer → ChatPage
  | .raised => page
  | .notFound => {page with conversationId := none}.resetToGreeting now
  | .refused => page
  | .loaded history =>
    let page := {(page.setItems renderAgentHtml now history) with conversationId := some id}
    let page := {page with hook.refs.lastAgent := history.lastAgentName}
    let page := page.renderCompleted now history
    match history.sessions.getLast? with
    | none => page
    | some latest =>
      if latest.state = .finalizing then
        (page.remember latest (orNull latest.agentKey)).handleSession now latest (history.agentNameOf latest.id)
      else if latest.state ≠ .completed then page.remember latest (orNull latest.agentKey)
      else page

def handleSubmit (now : ℕ) : ChatPage :=
  let text := trim page.draft
  if text = "" ∨ page.busy then page
  else ({page with draft := "", typed := page.typed ++ [text]}.append now .user {content := text}).sendMessage
    text none false .typed none

def handleSelectOption (now : ℕ) (opt : ChatOption) : ChatPage :=
  if page.busy then page
  else ((page.dispatch .disableAllOptions).append now .user {content := opt.label}).sendMessage
    opt.value (some opt.id) false .option none

/-- The button of an agent that can be entered is pressed, with its latch, or the body of a card or a
button that is blocked. -/
def handleActivateCapability (action : StartAgent) (button : Option ActionButton) : ChatPage :=
  match button with
  | none => page.startNewConversation (.start action none)
  | some b =>
    if page.busy ∨ b ∈ page.pending then page
    else {page with pending := page.pending ++ [b]}.startNewConversation (.start action (some b))

def handleSelectAgent (agentKey : String) : ChatPage :=
  if page.busy then page else page.startNewConversation (.pin agentKey)

def handleSelectConversation (id : String) : ChatPage :=
  if page.busy then page else page.loadConversationHistory id

def handleNewChat : ChatPage := if page.busy then page else page.startNewConversation .nothing

def retryText (item : Item) : Option String := item.retryText.or page.lastSentText

def handleRetry (item : Item) : ChatPage :=
  (page.dispatch (.remove item.id)).sendMessage (page.retryText item) none false (.retried item.id) none

/-- The button of an error bubble. -/
def recover (item : Item) : ChatPage :=
  if item.id ∈ page.checking then page
  else
    let page := {page with checking := page.checking ++ [item.id]}
    match orNull page.lastSessionId with
    | some sessionId => page.await (.check item sessionId 0)
    | none => page.handleRetry item

/-- The rest of `runResume`, and then of `handleResume`. -/
def checkAnswered (now : ℕ) (item : Item) (sessionId : String) (attempt : ℕ) : ResumeAnswer → ChatPage
  | .raised => page.recheckable item.id
  | .pending => page.await (.pause item sessionId attempt)
  | .answered text session =>
    let page := (page.dispatch (.remove item.id)).append now .agent {
      content := text
      html := some (renderAgentHtml text) }
    match session with
    | some session => page.handleSession now session none
    | none => page
  | .canResend =>
    (page.dispatch (.remove item.id)).sendMessage (page.retryText item) none false (.resent item.id) none
  | .other => page.recheckable item.id

/-- The delay is over. -/
def paused (item : Item) (sessionId : String) (attempt : ℕ) : ChatPage :=
  if resumeMaxAttempts ≤ attempt + 1 then page.recheckable item.id
  else page.await (.check item sessionId (attempt + 1))

/-- The options of an item can be chosen. -/
def live (it : Item) : Bool := it.options.isSome && !it.readOnly

/-- What the page awaits is answered, or the user does something that the page shows. -/
inductive Act where
  | type (draft : String)
  | submit (now : ℕ)
  | selectOption (now : ℕ) (itemId : String) (opt : ChatOption)
  | runAction (action : StartAgent) (button : Option ActionButton)
  | selectAgent (agentKey : String)
  | selectConversation (id : String)
  | newChat
  | recover (itemId : String)
  | turn (now k : ℕ) (answer : TurnAnswer)
  | reset (now k : ℕ) (answer : ResetAnswer)
  | history (now k : ℕ) (answer : HistoryAnswer)
  | check (now k : ℕ) (answer : ResumeAnswer)
  | pause (k : ℕ)
  | tick (timer : ℕ)
  | poll (now k : ℕ) (answer : SessionLifecycle.Answer)

/-- The task is taken up again. -/
def resumed (k : ℕ) : ChatPage := {page with tasks := page.tasks.eraseIdx k}

/-- A bubble with a recovery button. -/
def bubble (itemId : String) : Option Item :=
  page.items.find? fun it => it.id = itemId && it.kind = .errorRetry

/-- An item whose options have handlers. -/
def offers (itemId : String) (opt : ChatOption) : Bool :=
  page.items.any fun it => decide (it.id = itemId) && live it && (it.options.getD []).contains opt

def step (page : ChatPage) : Act → Option ChatPage
  -- the textarea is disabled during a turn
  | .type draft => if page.busy then none else some {page with draft := draft}
  | .submit now => some (page.handleSubmit now)
  | .selectOption now itemId opt => if page.offers itemId opt then some (page.handleSelectOption now opt) else none
  | .runAction action button => some (page.handleActivateCapability action button)
  | .selectAgent agentKey => some (page.handleSelectAgent agentKey)
  | .selectConversation id => some (page.handleSelectConversation id)
  | .newChat => some page.handleNewChat
  | .recover itemId => (page.bubble itemId).map page.recover
  | .turn now k answer => match page.tasks[k]? with
    | some (.turn body button) => some ((page.resumed k).turnAnswered renderAgentHtml now body button answer)
    | _ => none
  | .reset now k answer => match page.tasks[k]? with
    | some (.reset next) => some ((page.resumed k).resetAnswered now next answer)
    | _ => none
  | .history now k answer => match page.tasks[k]? with
    | some (.history id) => some ((page.resumed k).historyAnswered renderAgentHtml now id answer)
    | _ => none
  | .check now k answer => match page.tasks[k]? with
    | some (.check item sessionId attempt) =>
      some ((page.resumed k).checkAnswered renderAgentHtml now item sessionId attempt answer)
    | _ => none
  | .pause k => match page.tasks[k]? with
    | some (.pause item sessionId attempt) => some ((page.resumed k).paused item sessionId attempt)
    | _ => none
  | .tick timer => (page.hook.step (.tick timer)).map fun hook => {page with hook := hook}
  | .poll now k answer => (page.hook.step (.answer now k answer)).map fun hook => {page with hook := hook}

/-- The page as it is loaded, with the conversation that is stored. -/
def boot (now : ℕ) (stored : Option String) : ChatPage :=
  let page : ChatPage := {
    hook := {chat := {seq := 1, items := [greetingItem (nextId 1) now]}}
    conversationId := stored }
  match orNull stored with
  | some id => page.loadConversationHistory id
  | none => page

end ChatPage
end Saarathi
