import Saarathi.Orchestration

/-!
# Routes

The routes that change state, the request's database session around them, and
the system of all requests.
-/

namespace Saarathi

open Program Program.Prog

structure Response where
  status : ℕ
  code : String := ""
  message : String := ""

def errorResponse (message code : String) (status : ℕ) : Response := ⟨status,code,message⟩

def mitraErrorResponse : MitraError → Response
  | .turnTimeout n => errorResponse (MitraError.turnTimeout n).str "UPSTREAM_TIMEOUT" 504
  | .concurrentTurn => errorResponse MitraError.concurrentTurn.str "CONCURRENT_TURN_REJECTED" 429
  | e => errorResponse e.str "UPSTREAM_UNAVAILABLE" 502

def notFound : Response := errorResponse "Session not found" "SESSION_NOT_FOUND" 404

/-- An optional uuid in a body or a path, parsed. -/
inductive UuidField where
  | absent
  | malformed
  | id (n : ℕ)

/-- The object that `POST /api/chat` receives. -/
structure ChatBody where
  message : Option Json
  agentKey : Json := .null
  agentName : Json := .null
  conversationId : UuidField := .absent
  autostart : Json := .null

namespace ChatBody

def targetAgent (b : ChatBody) : Json := if b.agentKey.truthy then b.agentKey else b.agentName

/-- The display name "Saarthi" means that no agent is named. -/
def explicitKey (b : ChatBody) : Option Json :=
  match b.targetAgent with
  | .str s => if s = "" ∨ s = "Saarthi" then none else some (.str s)
  | j => if j.truthy then some j else none

def turnInput (b : ChatBody) (user : UserContext) (text : Json) : TurnInput where
  conversationId := match b.conversationId with
    | .id c => some c
    | _ => none
  user := user
  text := text
  agentKey := b.explicitKey
  autostart := b.autostart.truthy

end ChatBody

namespace Routes

variable (d : Deployment)

/-- Every exception of a turn becomes a returned response. -/
def chatError : Exn → Response
  | .concurrentTurn _ => errorResponse
      "A reply is already on its way. Please wait for it before sending again." "CONCURRENT_TURN" 409
  | .turnLimitExceeded _ detail => errorResponse detail "RATE_LIMITED" 429
  | .mitra e => mitraErrorResponse e
  | .agentNotFound _ => errorResponse "Agent not found" "AGENT_NOT_FOUND" 404
  | _ => errorResponse "An internal error occurred." "INTERNAL" 500

def chat (body : Option ChatBody) (user : UserContext) : Proc Response :=
  match body with
  | none => pure (errorResponse "No message provided" "INVALID_REQUEST" 400)
  | some body => match body.message,body.conversationId with
    | none,_ => pure (errorResponse "No message provided" "INVALID_REQUEST" 400)
    | some _,.malformed =>
      pure (errorResponse "conversation_id must be a UUID" "INVALID_REQUEST" 400)
    | some text,_ => tryCatch
        (do
          let res ← OrchestrationService.handleTurn d (body.turnInput user text)
          let _ ← stmt (.flowPayload res.conversation.id)
          pure { status := 200 })
        fun e => pure (chatError e)

/-- The session's row, if its conversation belongs to the caller. -/
def resolve (sessionId : UuidField) (user : UserContext) :
    Proc (Option (SessionId × AgentSession)) := do
  match sessionId with
  | .id sid =>
    match ← SessionService.get sid with
    | none => pure none
    | some dto =>
      match ← ConversationRepository.getScoped dto.conversationId user with
      | none => pure none
      | some _ => pure (some (sid,dto))
  | _ => pure none

/-- Only a `MitraError` becomes a returned response; anything else escapes. -/
def returningMitraErrors (p : Proc Response) : Proc Response :=
  tryCatch p fun
    | .mitra e => pure (mitraErrorResponse e)
    | e => throw e

def finalizeSession (sessionId : UuidField) (user : UserContext) : Proc Response := do
  match ← resolve sessionId user with
  | none => pure notFound
  | some (sid,_) => returningMitraErrors do
    match ← OrchestrationService.finalizeNow d sid user with
    | none => pure notFound
    | some _ => pure { status := 200 }

def resumeSession (sessionId : UuidField) (user : UserContext) : Proc Response := do
  match ← resolve sessionId user with
  | none => pure notFound
  | some (sid,_) => returningMitraErrors do
    match ← OrchestrationService.resumeTurn d sid with
    | none => pure notFound
    | some result => pure { status := if result.outcome = .pending then 202 else 200 }

def abandonSession (sessionId : UuidField) (user : UserContext) : Proc Response := do
  match ← resolve sessionId user with
  | none => pure notFound
  | some (_,dto) =>
    let updated ← SessionService.abandon dto.conversationId "user_requested" user.userId
    (if updated.isSome then OrchestrationService.closeRemoteChannel d dto.conversationId else pure ())
    pure { status := 200 }

/-- The conversation being left, without creating one. -/
def findCurrent (c : UuidField) (user : UserContext) : Proc (Option Conversation) :=
  match c with
  | .id c => ConversationRepository.getScoped c user
  | _ => ConversationRepository.newestListed user

def startNew (user : UserContext) : Proc Conversation := do
  match ← ConversationRepository.findEmptyForUser user with
  | some existing => pure existing
  | none => ConversationRepository.createNew user

/-- Abandon the open session of the conversation being left. -/
def leave (c : UuidField) (user : UserContext) : Proc Unit := do
  match ← findCurrent c user with
  | none => pure ()
  | some conv =>
    let abandoned ← SessionService.abandon conv.id "reset" user.userId
    if abandoned.isSome then OrchestrationService.closeRemoteChannel d conv.id else pure ()

def reset (c : UuidField) (user : UserContext) : Proc Response :=
  match c with
  | .malformed => pure (errorResponse "conversation_id must be a UUID" "INVALID_REQUEST" 400)
  | c => do
    leave d c user
    let _ ← startNew user
    pure { status := 200 }

/-- The periodic job. -/
def sweep (olderThan : ℕ) : Proc Response := do
  let _ ← SessionService.sweepAbandoned olderThan
  pure { status := 200 }

/-- `maybe_reload`: a failure is logged, and the transaction stays as the failure left it. -/
def maybeReload : Proc Unit := do
  let due : Bool ← perform Op.reloadDue
  if due then do
    let _ ← (stmt .registryQuery).attempt
    pure ()
  else pure ()

/-- `get_db` around a route: an escaping exception rolls back, a returned response commits. -/
def withDb (route : Proc Response) : Proc Response := do
  maybeReload
  let body : Proc Response := do
    match ← route.attempt with
    | .ok r =>
      let _ ← perform Op.commit
      pure r
    | .error e =>
      let _ ← perform Op.rollback
      throw e
  body.ensuring (do
    let _ ← perform Op.rollback
    pure ())

end Routes

/-- A request, with the caller that it is served for. -/
inductive Req where
  | chat (body : Option ChatBody) (user : UserContext)
  | finalize (sessionId : UuidField) (user : UserContext)
  | resume (sessionId : UuidField) (user : UserContext)
  | abandon (sessionId : UuidField) (user : UserContext)
  | reset (c : UuidField) (user : UserContext)
  | sweep (olderThan : ℕ)

namespace Req

def route : Req → Route
  | chat .. => .chat
  | finalize .. => .finalize
  | resume .. => .resume
  | abandon .. => .abandon
  | reset .. => .reset
  | sweep _ => .sweep

def prog (d : Deployment) : Req → Proc Response
  | chat body user => Routes.withDb (Routes.chat d body user)
  | finalize sid user => Routes.withDb (Routes.finalizeSession d sid user)
  | resume sid user => Routes.withDb (Routes.resumeSession d sid user)
  | abandon sid user => Routes.withDb (Routes.abandonSession d sid user)
  | reset c user => Routes.withDb (Routes.reset d c user)
  | sweep olderThan => Routes.withDb (Routes.sweep olderThan)

end Req

/-- All requests over one world: any number of connections, each serving one request at a time. -/
def system (d : Deployment) :
    Services Req Response where
  prog _ req := req.prog d
  begin w x req := { w with
    serving := Function.update w.serving x (some req.route)
    events := Function.update w.events x [] }
  exec w x o c := w.exec d x o c
  env w e := w.env d e

abbrev Config := Services.Config Response
abbrev Action := Services.Action Req

/-! A small deployment, on which concrete runs are evaluated. -/

namespace Sample

def deployment : Deployment where
  hashtext s := (s.toList.foldl (fun n ch => (31 * n + ch.toNat) % 2 ^ 32) 0 : ℕ)
  adapt _ := none
  lower s := s

def assistant : RegisteredAgent where
  id := 1
  key := "assistant"
  name := "Saarthi"
  isDefault := true
  spec := { key := "assistant", kind := .llm "model" }

/-- An interview that pins its conversation. -/
def interviewer : RegisteredAgent where
  id := 2
  key := "story"
  name := "Story"
  spec := { key := "story", routing := { pinSession := true },
            kind := .remoteFlow { flowName := "guest-mi-story", botRouteEnv := "BOT_ROUTE" } }

def caller : UserContext := { userId := "user", tenantCode := "default" }

def world : World := { registry := ⟨[assistant,interviewer]⟩ }

def turn (text agentKey : String) (c : UuidField) : Req :=
  .chat (some { message := some (.str text), agentKey := .str agentKey, conversationId := c }) caller

/-- A key that no table has used. -/
def freshId (w : World) : ℕ :=
  w.db.sessions.keys.length + w.db.conversations.keys.length + w.db.messages.keys.length

/-- One finished reply, to the text with this number. -/
def reply (n : ℕ) : Choice :=
  .schedule [.go {},.go {},.go {},
    .recv ⟨{ source := "bot", msg := "hello", finishReason := some "stop" },some n⟩,.go {}]

/-- Every call goes through. -/
def smooth (w : World) : Op → Choice
  | .stmt _ => .db (.go { id := freshId w })
  | .commit => .db (.go {})
  | .acquire .. => .connect 0 [] none
  | .sendAndAwaitTurn .. => reply 1
  | .upsertProfile .. => .text "profile"
  | .generateSession => .text "remote-session"
  | .isSessionCompleted _ => .flag false
  | .recentChat .. => .rows []
  | .finalize _ => .story "story" ""
  | .getReport .. => .optText none
  | .getenv _ => .optText (some "route")
  | .today => .text "01 Jan"
  | .reloadDue => .flag false
  | .routerModel _ => .routed none
  | .llmHandle .. => .reply { text := "hello" }
  | _ => .ok

end Sample

end Saarathi
