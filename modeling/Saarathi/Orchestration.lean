import Saarathi.Handlers
import Saarathi.Routing

/-!
# Orchestrating a turn

`OrchestrationService`: a turn under the conversation's advisory lock, the
recovery of a reply that came too late, and finalisation.
-/

namespace Saarathi

open Program Program.Prog

namespace OrchestrationService

variable (d : Deployment)

/-- `TITLE_MAX_LEN` and `TITLE_TRUNCATE_AT`. -/
def titleMaxLen : ℕ := 60
def titleTruncateAt : ℕ := 57

def conversationTitle : Json → Proc Json
  | .str s =>
    if s.length ≤ titleMaxLen then pure (.str s)
    else pure (.str (String.ofList (s.toList.take titleTruncateAt) ++ "..."))
  | .arr items => if items.length ≤ titleMaxLen then pure (.arr items)
    else throw (.python "TypeError" "can only concatenate list (not \"str\") to list")
  | .obj fields => if fields.length ≤ titleMaxLen then pure (.obj fields)
    else throw (.python "TypeError" "unhashable type: 'slice'")
  | _ => throw (.python "TypeError" "object has no len()")

def agentFallbackTitle (agent : RegisteredAgent) : Proc String := do
  let today : String ← perform Op.today
  match ← conversationTitle (.str s!"{agent.name} — {today}") with
  | .str title => pure title
  | _ => pure ""

def checkMaxTurns (c : ConversationId) (maxTurns : Option ℤ) : Proc Unit :=
  match maxTurns with
  | none => pure ()
  | some maxTurns =>
    if maxTurns = 0 then pure ()
    else do
      match ← AgentSessionRepository.getOpenForConversation c with
      | none => pure ()
      | some session =>
        if maxTurns ≤ session.turnCount then
          throw (.turnLimitExceeded "max_turns"
            s!"This interview has reached its limit of {maxTurns} turns.")
        else pure ()

def checkRate (c : ConversationId) (perMinute : ℕ) : Proc Unit :=
  if perMinute = 0 then pure ()
  else do
    let recent : ℕ ← stmt (.countRecentUser c)
    if perMinute < recent then
      throw (.turnLimitExceeded "rate_limit_per_conversation_per_min"
        "You're sending messages too quickly. Please wait a moment.")
    else pure ()

/-- `RateLimits.check`. -/
def checkRateLimits (c : ConversationId) (limits : LimitsSpec) : Proc Unit := do
  checkMaxTurns c limits.maxTurns
  checkRate c limits.rateLimitPerConversationPerMin

def tryLockConversation (c : ConversationId) : Proc Bool :=
  stmt (.tryAdvisoryLock (d.turnLockKey c))

/-- A failure to unlock is logged and swallowed. -/
def unlockConversation (c : ConversationId) : Proc Unit := do
  let _ ← (stmt (.advisoryUnlock (d.turnLockKey c))).attempt
  pure ()

def closeRemoteChannel (c : ConversationId) : Proc Unit :=
  if d.mitraEnabled then MitraSessionManager.close c else pure ()

/-- Ask Mitra what became of the text; `none` where that does not apply. -/
def reconcileTurn (agent : RegisteredAgent) (session : Option AgentSession) (sentText : Json) :
    Proc (Option Reconciliation) :=
  match d.mitraEnabled,session,agent.spec.remote with
  | true,some session,some _ =>
    match session.remoteSessionId,session.remoteProfileId with
    | some sid,some pid =>
      if sid = "" ∨ pid = "" then pure none
      else do
        let rows ← perform (Op.recentChat sid pid)
        pure (some (reconcile rows (← RouterService.textOr sentText)))
    | _,_ => pure none
  | _,_,_ => pure none

/-- The delta of a recovered turn leaves the step alone. -/
def recoveredTurn (remote : RemoteSpec) (session : AgentSession) (text : String) (finished : Bool) :
    AgentTurn where
  text := text
  sessionDelta := some {
    state := .awaitingUser
    remoteSessionId := session.remoteSessionId
    remoteProfileId := session.remoteProfileId
    remoteFlow := some remote.flowName
    remoteBotRoute := session.remoteBotRoute }
  terminal := finished

/-- The reply that Mitra gave to a turn that timed out here, if it has one. -/
def recoverTimedOutTurn (agent : RegisteredAgent) (session : Option AgentSession) (sentText : Json) :
    Proc (Option AgentTurn) := do
  match ← (reconcileTurn d agent session sentText).attempt with
  | .error _ => pure none
  | .ok none => pure none
  | .ok (some result) =>
    match result.outcome,session,agent.spec.remote with
    | .answered,some session,some remote =>
      let finished ← (if remote.completionPollEveryTurn then do
          match ← (perform (Op.isSessionCompleted session.remoteSessionId)).attempt with
          | .ok finished => pure finished
          | .error _ => pure false
        else pure false)
      pure (some (recoveredTurn remote session result.botText finished))
    | _,_,_ => pure none

/-- The end-story call of a claimed session; without an agent, a remote specification or a
configured client there is nothing to call. -/
def endStory (claimed : AgentSession) (agent : Option RegisteredAgent) (user : UserContext) :
    Proc (RemoteSpec × String × String) :=
  match d.mitraEnabled,agent.bind fun a => a.spec.remote with
  | true,some remote => do
    let (storyId,content) ← perform (Op.finalize {
      session := claimed.id
      remoteSessionId := claimed.remoteSessionId
      remoteProfileId := claimed.remoteProfileId
      flow := remote.flowName
      language := claimed.language
      token := user.token
      path := remote.finalizePath
      asGuest := remote.finalizeAsGuest })
    pure (remote,storyId,content)
  | _,_ => throw (.python "AttributeError" "'NoneType' object has no attribute")

/-- The report's address; a `MitraError` means that it is not ready. -/
def fetchReport (claimed : AgentSession) (remote : RemoteSpec) : Proc (Option String) := do
  match ← (perform (Op.getReport claimed.remoteSessionId remote.reportMediaType)).attempt with
  | .ok url => pure url
  | .error e => if e.isMitra then pure none else throw e

/-- Steps 3 to 6 of a finalisation that holds the claim. -/
def finalizeClaimed (claimed : AgentSession) (agent : Option RegisteredAgent) (user : UserContext) :
    Proc AgentSession := do
  closeRemoteChannel d claimed.conversationId
  match ← (endStory d claimed agent user).attempt with
  | .error e =>
    let _ ← SessionService.apply claimed { state := .failed, error := some e.str }
    throw e
  | .ok (remote,storyId,_) =>
    let reportUrl ← fetchReport claimed remote
    let completed ← SessionService.apply claimed {
      state := .completed, resultRef := some storyId, reportUrl := reportUrl.filter (· ≠ "") }
    ConversationRepository.unpin claimed.conversationId
    pure completed

/-- `_finalize`. -/
def finalize (session : AgentSession) (agent : Option RegisteredAgent) (user : UserContext) :
    Proc AgentSession := do
  match ← SessionService.claimFinalizing session.id with
  | none => pure ((← SessionService.get session.id).getD session)
  | some claimed =>
    stmt (.auditInsert "session_finalize" claimed.id "system" "")
    finalizeClaimed d claimed agent user

def finalizeNow (id : SessionId) (user : UserContext) : Proc (Option AgentSession) := do
  match ← SessionService.get id with
  | none => pure none
  | some session =>
    let agent := (← snapshot).getById session.agentId
    pure (some (← finalize d session agent user))

/-- Steps 2 and 3: number and store the user's message, touch and title the conversation. -/
def recordUserMessage (inp : TurnInput) (conv : Conversation) : Proc Unit := do
  let seq ← ConversationRepository.nextSeqForUpdate conv.id
  let _ ← MessageRepository.insert
    { conversationId := conv.id, seq := seq, role := .user, content := inp.text }
  if inp.autostart then ConversationRepository.touch conv.id none
  else
    ConversationRepository.touch conv.id (some (← conversationTitle inp.text))
    ConversationRepository.replacePlaceholderTitle conv.id (← conversationTitle inp.text)

/-- The history that the default agent would see. -/
def routerHistory (conv : Conversation) : Proc (List Message) := do
  match (← snapshot).default with
  | some agent => MessageRepository.recent conv.id agent.spec.historyTurns
  | none => pure []

/-- Step 4: route, then resolve the agent for the caller's scope. -/
def routeTurn (inp : TurnInput) (conv : Conversation) : Proc (RouteDecision × RegisteredAgent) := do
  let _ ← routerHistory conv
  let decision ← RouterService.select d conv inp
  match decision.agent with
  | none => throw (.python "AttributeError" "'NoneType' object has no attribute")
  | some agent =>
    let organization := if inp.user.activeOrgId.getD "" = "" then "default"
      else inp.user.activeOrgId.getD ""
    let tenant := if inp.user.tenantCode = "" then "default" else inp.user.tenantCode
    pure (decision,← AgentRegistry.resolveForScope agent tenant organization)

/-- Steps 5 to 8: limits, session, pin and history. -/
def admitTurn (conv : Conversation) (agent : RegisteredAgent) :
    Proc (Option AgentSession × List Message) := do
  checkRateLimits conv.id agent.spec.limits
  let session ← SessionService.openFor conv.id agent (closeRemoteChannel d conv.id)
  (if agent.spec.routing.pinSession then ConversationRepository.pin conv.id agent.id else pure ())
  pure (session,← MessageRepository.recent conv.id agent.spec.historyTurns)

/-- Step 10: the handler, and the recovery of a turn that timed out. -/
def runHandler (inp : TurnInput) (conv : Conversation) (agent : RegisteredAgent)
    (session : Option AgentSession) (history : List Message) : Proc AgentTurn := do
  match ← (marked conv.id ⟨agent,session.map (·.id),inp.text,history⟩
      (handle d conv.id agent inp.user (session.map (·.toSessionView)) inp.text)).attempt with
  | .ok turn => pure turn
  | .error (.mitra (.turnTimeout lastStep)) =>
    match ← recoverTimedOutTurn d agent session inp.text with
    | some turn => pure turn
    | none => throw (.mitra (.turnTimeout lastStep))
  | .error e => throw e

/-- Step 11: the session change, and finalisation if the turn ends the interview. -/
def settleTurn (inp : TurnInput) (agent : RegisteredAgent) (turn : AgentTurn)
    (session : Option AgentSession) : Proc (Option AgentSession) := do
  match session with
  | none => pure none
  | some session =>
    let session ← (match turn.sessionDelta with
      | some delta => SessionService.apply session delta
      | none => pure session)
    if turn.terminal then pure (some (← finalize d session (some agent) inp.user))
    else pure (some session)

/-- Steps 12 to 14: the reply, its tool traces, the conversation's time and title. -/
def storeReply (inp : TurnInput) (conv : Conversation) (decision : RouteDecision)
    (agent : RegisteredAgent) (turn : AgentTurn) (session : Option AgentSession) : Proc Unit := do
  let seq ← ConversationRepository.nextSeqForUpdate conv.id
  let id ← MessageRepository.insert
    { conversationId := conv.id, seq := seq, role := .assistant, content := .str turn.text,
      agentId := some agent.id, agentSessionId := session.map (·.id),
      routeReason := some decision.reason.value, routeConfidence := some decision.confidence,
      options := if turn.options.isEmpty then none else some turn.options,
      promptTokens := turn.promptTokens, completionTokens := turn.completionTokens,
      latencyMs := some turn.latencyMs }
  (if agent.spec.recordToolExecutions then
    ToolExecutionRepository.bulkInsert id agent.id turn.toolTraces
  else pure ())
  if inp.autostart then
    ConversationRepository.touch conv.id none
    ConversationRepository.setPlaceholderTitle conv.id (← agentFallbackTitle agent)
  else ConversationRepository.touch conv.id (some (← conversationTitle inp.text))

structure TurnResult where
  conversation : Conversation
  agent : RegisteredAgent
  decision : RouteDecision
  turn : AgentTurn
  session : Option AgentSession

def handleTurnLocked (inp : TurnInput) (conv : Conversation) : Proc TurnResult := do
  recordUserMessage inp conv
  let (decision,agent) ← routeTurn d inp conv
  let (session,history) ← admitTurn d conv agent
  let _ ← perform Op.commit
  let turn ← runHandler d inp conv agent session history
  let session ← settleTurn d inp agent turn session
  storeReply inp conv decision agent turn session
  let _ ← perform Op.commit
  pure { conversation := conv, agent := agent, decision := decision, turn := turn, session := session }

def handleTurn (inp : TurnInput) : Proc TurnResult := do
  let conv ← ConversationRepository.getOrCreate inp.conversationId inp.user
  if ← tryLockConversation d conv.id then
    (handleTurnLocked d inp conv).ensuring (unlockConversation d conv.id)
  else throw (.concurrentTurn conv.id)

structure ResumeResult where
  outcome : TurnOutcome
  session : AgentSession
  text : String := ""

/-- Store a reply that Mitra had already given. -/
def storeRecovered (session : AgentSession) (agent : RegisteredAgent) (result : Reconciliation) :
    Proc ResumeResult := do
  let seq ← ConversationRepository.nextSeqForUpdate session.conversationId
  let _ ← MessageRepository.insert
    { conversationId := session.conversationId, seq := seq, role := .assistant,
      content := .str result.botText, agentId := some agent.id, agentSessionId := some session.id }
  let updated ← SessionService.apply session { state := .awaitingUser }
  ConversationRepository.touch session.conversationId none
  let _ ← perform Op.commit
  pure { outcome := .answered, text := result.botText, session := updated }

def resumeTurn (id : SessionId) : Proc (Option ResumeResult) := do
  match ← SessionService.get id with
  | none => pure none
  | some session =>
    let agent := (← snapshot).getById session.agentId
    let lastUserText ← MessageRepository.lastUserContent session.conversationId
    match agent,lastUserText with
    | some agent,some text =>
      if text = "" then pure (some { outcome := .notDelivered, session := session })
      else match ← reconcileTurn d agent (some session) (.str text) with
        | none => pure (some { outcome := .notDelivered, session := session })
        | some result =>
          if result.outcome = .answered then
            pure (some (← storeRecovered session agent result))
          else pure (some { outcome := result.outcome, session := session })
    | _,_ => pure (some { outcome := .notDelivered, session := session })

end OrchestrationService

end Saarathi
