import Saarathi.Services

/-!
# Agent handlers

`RemoteFlowAgentHandler` drives one turn of a Mitra interview; the handler of an
LLM agent answers from a model.
-/

namespace Saarathi

open Program Program.Prog

namespace MitraSessionManager

def acquire (c : ConversationId) (auth : Auth) : Proc ChannelId := perform (Op.acquire c auth)

/-- Discard the pooled channel and connect again. -/
def reacquire (c : ConversationId) (auth : Auth) : Proc ChannelId := do
  let _ ← perform (Op.popChannel c)
  acquire c auth

def close (c : ConversationId) : Proc Unit := do
  let _ ← perform (Op.popChannel c)
  pure ()

end MitraSessionManager

namespace RemoteFlowAgentHandler

def resolveEnv (name : String) : Proc String := do
  match ← perform (Op.getenv name) with
  | some value =>
    if value = "" then throw (.python "RuntimeError" s!"environment variable '{name}' is not set")
    else pure value
  | none => throw (.python "RuntimeError" s!"environment variable '{name}' is not set")

/-- What the channel of this turn is authenticated with. -/
def authOf (remote : RemoteSpec) (sess : AgentSessionView) : Auth where
  remoteSessionId := sess.remoteSessionId
  remoteProfileId := sess.remoteProfileId
  flowName := remote.flowName
  botRoute := sess.remoteBotRoute
  language := sess.language

/-- The session view of this turn: a first turn creates the remote session. -/
def remoteSession (remote : RemoteSpec) (user : UserContext) (session : AgentSessionView) :
    Proc AgentSessionView := do
  let botRoute ← resolveEnv remote.botRouteEnv
  match session.remoteSessionId with
  | none =>
    let company ← resolveEnv remote.companyEnv
    let profileId ← perform (Op.upsertProfile user.email remote.flowName company)
    let remoteSid ← perform Op.generateSession
    pure { session with
      remoteSessionId := some remoteSid, remoteProfileId := some profileId,
      remoteBotRoute := some botRoute }
  | some _ => pure { session with remoteBotRoute := some botRoute }

def timeoutMs (remote : RemoteSpec) (session : AgentSessionView) : ℕ :=
  if session.remoteSessionId.isNone then remote.turn.firstTurnTimeoutMs else remote.turn.turnTimeoutMs

def sendOn (ch : ChannelId) (text : Json) (timeoutMs idleGapMs : ℕ) (auth : Auth) :
    Proc Channel.BotTurn := perform (Op.sendAndAwaitTurn ch text timeoutMs idleGapMs auth)

/-- Send the text; after a closed channel, once more on a new one. -/
def converse (c : ConversationId) (auth : Auth) (text : Json) (timeoutMs idleGapMs : ℕ) :
    Proc Channel.BotTurn := do
  let ch ← MitraSessionManager.acquire c auth
  match ← (sendOn ch text timeoutMs idleGapMs auth).attempt with
  | .ok bot => pure bot
  | .error (.mitra (.channelClosed _)) =>
    let ch ← MitraSessionManager.reacquire c auth
    sendOn ch text timeoutMs idleGapMs auth
  | .error e => throw e

def turnOf (remote : RemoteSpec) (sess : AgentSessionView) (bot : Channel.BotTurn) (finished : Bool) :
    AgentTurn where
  text := bot.text
  options := bot.options
  sessionDelta := some {
    state := .awaitingUser
    remoteSessionId := sess.remoteSessionId
    remoteProfileId := sess.remoteProfileId
    remoteFlow := some remote.flowName
    remoteBotRoute := sess.remoteBotRoute
    step := bot.step }
  terminal := finished

def handle (key : String) (remote : RemoteSpec) (user : UserContext)
    (session : Option AgentSessionView) (text : Json) : Proc AgentTurn := do
  match session with
  | none => throw (.python "RuntimeError"
      s!"agent '{key}': handle() called with no prior session row")
  | some session =>
    let sess ← remoteSession remote user session
    let bot ← converse sess.conversationId (authOf remote sess) text (timeoutMs remote session)
      remote.turn.idleGapMs
    let finished ← (if remote.completionPollEveryTurn then
        perform (Op.isSessionCompleted sess.remoteSessionId)
      else pure false)
    pure (turnOf remote sess bot finished)

end RemoteFlowAgentHandler

/-- The turn of an LLM agent carries no session change and never ends an interview. -/
def LlmReply.turn (r : LlmReply) : AgentTurn where
  text := r.text
  toolTraces := r.toolTraces
  model := r.model
  promptTokens := r.promptTokens
  completionTokens := r.completionTokens
  latencyMs := r.latencyMs

/-- `HandlerFactory.build` and the handler's `handle`. -/
def handle (d : Deployment) (c : ConversationId) (agent : RegisteredAgent) (user : UserContext)
    (session : Option AgentSessionView) (text : Json) : Proc AgentTurn :=
  match agent.spec.kind with
  | .llm _ => do pure (← perform (Op.llmHandle c agent)).turn
  | .remoteFlow remote =>
    if d.mitraEnabled then RemoteFlowAgentHandler.handle agent.spec.key remote user session text
    else throw (.python "RuntimeError" s!"agent '{agent.spec.key}' but Mitra is not configured")

/-- `p`, between the marks that say when the handler of `c` runs. -/
def marked {α : Type} (c : ConversationId) (run : HandlerRun) (p : Proc α) : Proc α := do
  let _ ← perform (Op.handleBegin c run)
  p.ensuring (do
    let _ ← perform (Op.handleEnd c)
    pure ())

end Saarathi
