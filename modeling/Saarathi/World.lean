import Saarathi.Channel
import Saarathi.Database
import Saarathi.Interleaving
import Saarathi.Recovery

/-!
# The world of a request

Everything that a request calls: statements and transactions of its connection,
the channel pool, Mitra, the registry and the model. A choice says how the call
turns out; what a third party answers is left open.
-/

namespace Saarathi

open Program

/-- What a channel was authenticated with, or what the session view of a turn carries. -/
structure Auth where
  remoteSessionId : Option String
  remoteProfileId : Option String
  flowName : String
  botRoute : Option String
  language : String
  deriving DecidableEq

abbrev ChannelId := ℕ

/-- One end-story call: the session it finalises and the fields it sends. -/
structure EndStory where
  session : SessionId
  remoteSessionId : Option String
  remoteProfileId : Option String
  flow : String
  language : String
  token : Option String
  path : String
  asGuest : Bool

/-- What an LLM handler's run amounts to. -/
structure LlmReply where
  text : String
  toolTraces : List ToolTrace := []
  model : Option String := none
  promptTokens : Option ℤ := none
  completionTokens : Option ℤ := none
  latencyMs : ℤ := 0

/-- What a handler is run on: the resolved agent, the turn's session, the user's text and the history. -/
structure HandlerRun where
  agent : RegisteredAgent
  session : Option SessionId
  text : Json
  history : List Message

/-- The calls that a request makes. `handleBegin` and `handleEnd` only mark the handler's run. -/
inductive Op where
  | stmt (s : Stmt)
  | commit
  | rollback
  | snapshot
  | scopeLookup (tenant organization key : String)
  | scopeStore (version : ℕ) (tenant organization : String) (agent : RegisteredAgent)
  | acquire (c : ConversationId) (auth : Auth)
  | popChannel (c : ConversationId)
  | sendAndAwaitTurn (ch : ChannelId) (text : Json) (timeoutMs idleGapMs : ℕ) (sess : Auth)
  | upsertProfile (email flow company : String)
  | generateSession
  | isSessionCompleted (remoteSessionId : Option String)
  | recentChat (remoteSessionId remoteProfileId : String)
  | finalize (story : EndStory)
  | getReport (remoteSessionId : Option String) (mediaType : String)
  | getenv (name : String)
  | today
  | reloadDue
  | routerModel (c : ConversationId)
  | llmHandle (c : ConversationId) (agent : RegisteredAgent)
  | handleBegin (c : ConversationId) (run : HandlerRun)
  | handleEnd (c : ConversationId)

/-- What a call answers with. -/
def Op.Ans : Op → Type
  | stmt s => s.Ans
  | snapshot => AgentRegistry
  | scopeLookup .. => ℕ × Option RegisteredAgent
  | acquire .. => ChannelId
  | popChannel _ => Bool
  | sendAndAwaitTurn .. => Channel.BotTurn
  | upsertProfile .. => String
  | generateSession => String
  | isSessionCompleted _ => Bool
  | recentChat .. => List ChatRow
  | finalize _ => String × String
  | getReport .. => Option String
  | getenv _ => Option String
  | today => String
  | reloadDue => Bool
  | routerModel _ => Option (Option String × PyFloat)
  | llmHandle .. => LlmReply
  | _ => Unit

/-- A program of the services. -/
abbrev Proc := Prog Op Op.Ans Exn

/-- One call of a request, its answer, and whether Mitra carried out what was asked. -/
structure Event where
  op : Op
  answer : Except Exn op.Ans
  done : Bool

/-- What a deployment fixes: PostgreSQL's `hashtext`, the driver's adaptation of values that are
not strings, Unicode lower-casing, and the settings. -/
structure Deployment where
  hashtext : String → ℤ
  adapt : Json → Option String
  lower : String → String
  mitraEnabled : Bool := true
  maxOpenChannels : ℕ := 200
  idleCloseS : ℕ := 1200

/-- `_turn_lock_key`, hashed. -/
def Deployment.turnLockKey (d : Deployment) (c : ConversationId) : ℤ := d.hashtext s!"saarthi:turn:{c}"

structure ChannelRec where
  auth : Auth
  chan : Channel.Chan

/-- An entry of the pool, least recently used first. -/
structure PoolEntry where
  conversationId : ConversationId
  channel : ChannelId
  lastUsed : ℕ

/-- The routes that change state, and the periodic sweep. -/
inductive Route where
  | chat
  | finalize
  | resume
  | abandon
  | reset
  | sweep
  deriving DecidableEq

structure World where
  db : Database := {}
  registry : AgentRegistry := ⟨[]⟩
  registryVersion : ℕ := 0
  scopeCache : List ((ℕ × String × String × String) × RegisteredAgent) := []
  channels : List ChannelRec := []
  pool : List PoolEntry := []
  stories : List SessionId := []
  handling : Conn → Option ConversationId := fun _ => none
  serving : Conn → Option Route := fun _ => none
  events : Conn → List Event := fun _ => []

/-- How a call turns out. -/
inductive Choice where
  | db (c : DbChoice)
  | ok
  | raise (e : Exn)
  | executedRaise (e : Exn)
  | text (s : String)
  | optText (s : Option String)
  | flag (b : Bool)
  | rows (rs : List ChatRow)
  | story (id content : String)
  | routed (r : Option (Option String × PyFloat))
  | reply (r : LlmReply)
  | connect (now : ℕ) (queue : List Channel.Frame) (pending : Option Channel.Frame)
  | schedule (acts : List Channel.Act)

namespace Choice

def asText : Choice → Option String
  | text s => some s
  | _ => none

def asOptText : Choice → Option (Option String)
  | optText s => some s
  | _ => none

def asFlag : Choice → Option Bool
  | flag b => some b
  | _ => none

def asRows : Choice → Option (List ChatRow)
  | rows rs => some rs
  | _ => none

def asRouted : Choice → Option (Option (Option String × PyFloat))
  | routed r => some r
  | _ => none

def asReply : Choice → Option LlmReply
  | reply r => some r
  | _ => none

end Choice

namespace World

variable (w : World)

def closeChannel (i : ChannelId) : World := { w with
  channels := w.channels.modify i fun r => { r with chan := { r.chan with closed := true } } }

def channelAlive (i : ChannelId) : Bool := (w.channels[i]?).any fun r => r.chan.alive

def poolGet (c : ConversationId) : Option PoolEntry := w.pool.find? (·.conversationId = c)

/-- Pop the conversation's entry and close its channel; whether there was one. -/
def popChannel (c : ConversationId) : Bool × World :=
  match w.poolGet c with
  | none => (false,w)
  | some e => (true,{ w with pool := w.pool.filter (·.conversationId ≠ c) }.closeChannel e.channel)

/-- `_evict_if_needed`, as many rounds as there are entries. -/
def evict (max : ℕ) : ℕ → World → World
  | 0, w => w
  | n + 1, w => match w.pool with
    | [] => w
    | e :: es => if max ≤ (e :: es).length then
        evict max n ({ w with pool := es }.closeChannel e.channel)
      else w

/-- A new channel, authenticated; frames that came during the handshake are kept. -/
def openChannel (c : ConversationId) (auth : Auth) (now : ℕ) (queue : List Channel.Frame)
    (pending : Option Channel.Frame) : ChannelId × World :=
  (w.channels.length,{ w with
    channels := w.channels ++ [⟨auth,{ queue := queue.map fun f => ⟨f,none⟩,
                                       pending := pending.map fun f => ⟨f,none⟩ }⟩]
    pool := w.pool ++ [⟨c,w.channels.length,now⟩] })

/-- The miss half of `acquire`: make room and connect, which may raise. -/
def connect (max : ℕ) (c : ConversationId) (auth : Auth) :
    Choice → Option (Except Exn ChannelId × World)
  | .connect now queue pending =>
    if max = 0 then some (.error (.python "StopIteration" ""),evict max w.pool.length w)
    else
      let r := (evict max w.pool.length w).openChannel c auth now queue pending
      some (.ok r.1,r.2)
  | .raise e => some (.error e,evict max w.pool.length w)
  | _ => none

/-- The hit half of `acquire`: the entry becomes the most recently used. -/
def reuse (e : PoolEntry) : Choice → Option (Except Exn ChannelId × World)
  | .connect now _ _ => some (.ok e.channel,{ w with
      pool := w.pool.filter (·.conversationId ≠ e.conversationId) ++ [{ e with lastUsed := now }] })
  | _ => none

/-- `MitraSessionManager.acquire`, atomic under its lock. -/
def acquire (max : ℕ) (c : ConversationId) (auth : Auth) (ch : Choice) :
    Option (Except Exn ChannelId × World) :=
  match w.poolGet c with
  | some e =>
    if w.channelAlive e.channel then w.reuse e ch else (w.popChannel c).2.connect max c auth ch
  | none => w.connect max c auth ch

/-- One `send_and_await_turn`, on a schedule of the channel's threads; whether Mitra received
the text. -/
def sendAndAwaitTurn (i : ChannelId) (text : Json) (timeoutMs idleGapMs : ℕ) :
    Choice → Option (Except Exn Channel.BotTurn × Bool × World)
  | .schedule acts => match w.channels[i]? with
    | none => none
    | some r => match r.chan.sendAndAwaitTurn text timeoutMs idleGapMs acts with
      | none => none
      | some (o,chan) =>
        let w' := { w with channels := w.channels.set i { r with chan := chan } }
        let received := decide (r.chan.delivered.length < chan.delivered.length)
        match o with
        | .returned _ _ b => some (.ok b,received,w')
        | .raised _ e => some (.error e,received,w')
  | _ => none

/-- `_reap_once`: close the channels that are dead or idle. -/
def reap (idleClose now : ℕ) : World :=
  let stale := w.pool.filter fun e => !w.channelAlive e.channel || e.lastUsed + idleClose ≤ now
  stale.foldl (fun w e => w.closeChannel e.channel)
    { w with pool := w.pool.filter fun e => !(!w.channelAlive e.channel || e.lastUsed + idleClose ≤ now) }

/-- `close_all`. -/
def closeAll : World :=
  w.pool.foldl (fun w e => w.closeChannel e.channel) { w with pool := [] }

/-- A call of the database. -/
def onDb {A : Type} (f : DbChoice → Option (Except Exn A × Database)) :
    Choice → Option (Except Exn A × Bool × World)
  | .db c => match f c with
    | some (r,db) => some (r,true,{ w with db := db })
    | none => none
  | _ => none

/-- A call that can only answer `a` and leave the world as `w'`. -/
def settled {A : Type} (a : A) (w' : World) : Choice → Option (Except Exn A × Bool × World)
  | .ok => some (.ok a,true,w')
  | _ => none

/-- A call whose answer is left open. -/
def asked {A : Type} (answer : Choice → Option A) (ch : Choice) :
    Option (Except Exn A × Bool × World) :=
  match answer ch with
  | some a => some (.ok a,true,w)
  | none => none

/-- A call of a third party, which may also raise. -/
def remote {A : Type} (answer : Choice → Option A) (ch : Choice) :
    Option (Except Exn A × Bool × World) :=
  match ch with
  | .raise e => some (.error e,false,w)
  | ch => w.asked answer ch

/-- `MitraSessionManager.acquire`, as a call. -/
def acquired (max : ℕ) (c : ConversationId) (auth : Auth) (ch : Choice) :
    Option (Except Exn ChannelId × Bool × World) :=
  match w.acquire max c auth ch with
  | some (r,w') => some (r,true,w')
  | none => none

/-- `MitraRestClient.finalize`. Mitra may have carried out the call that raises. -/
def finalize (story : EndStory) : Choice → Option (Except Exn (String × String) × Bool × World)
  | .story id content =>
    if id = "" then none
    else some (.ok (id,content),true,{ w with stories := w.stories ++ [story.session] })
  | .executedRaise e => some (.error e,true,{ w with stories := w.stories ++ [story.session] })
  | .raise e => some (.error e,false,w)
  | _ => none

/-- Look an agent up in the scope cache, under the version of the registry. -/
def scopeLookup (tenant organization key : String) : ℕ × Option RegisteredAgent :=
  (w.registryVersion,(w.scopeCache.find? fun e =>
    e.1 = (w.registryVersion,tenant,organization,key)).map (·.2))

/-- Keep a resolved agent; a full cache is emptied first. -/
def scopeStore (version : ℕ) (tenant organization : String) (agent : RegisteredAgent) : World :=
  let kept := if 512 ≤ w.scopeCache.length then [] else w.scopeCache
  { w with scopeCache := ((version,tenant,organization,agent.key),agent) :: kept }

/-- Carry out one call of the request on connection `x`. -/
def perform (d : Deployment) (x : Conn) : (o : Op) → Choice → Option (Except Exn o.Ans × Bool × World)
  | .stmt s => w.onDb fun c => w.db.execStmt x d.adapt s c
  | .commit => w.onDb fun c => w.db.execCommit x c
  | .rollback => settled () { w with db := w.db.execRollback x }
  | .snapshot => settled w.registry w
  | .scopeLookup tenant organization key => settled (w.scopeLookup tenant organization key) w
  | .scopeStore version tenant organization agent =>
    settled () (w.scopeStore version tenant organization agent)
  | .acquire c auth => w.acquired d.maxOpenChannels c auth
  | .popChannel c => settled (w.popChannel c).1 (w.popChannel c).2
  | .sendAndAwaitTurn i text timeoutMs idleGapMs _ => w.sendAndAwaitTurn i text timeoutMs idleGapMs
  | .upsertProfile .. => w.remote Choice.asText
  | .generateSession => w.remote Choice.asText
  | .isSessionCompleted _ => w.remote Choice.asFlag
  | .recentChat .. => w.remote Choice.asRows
  | .finalize story => w.finalize story
  | .getReport .. => w.remote Choice.asOptText
  | .getenv _ => w.asked Choice.asOptText
  | .today => w.asked Choice.asText
  | .reloadDue => w.asked Choice.asFlag
  | .routerModel _ => w.remote Choice.asRouted
  | .llmHandle .. => w.remote Choice.asReply
  | .handleBegin c _ => settled () { w with handling := Function.update w.handling x (some c) }
  | .handleEnd _ => settled () { w with handling := Function.update w.handling x none }

/-- Append an event to the record of the request on `x`. -/
def record (x : Conn) (e : Event) : World :=
  { w with events := Function.update w.events x (w.events x ++ [e]) }

def exec (d : Deployment) (x : Conn) (o : Op) (c : Choice) : Option (Except Exn o.Ans × World) :=
  match w.perform d x o c with
  | some (r,done,w') => some (r,w'.record x ⟨o,r,done⟩)
  | none => none

/-- What happens on its own: the registry reloads, the reaper runs, frames arrive on idle
channels, sockets die. -/
inductive EnvAct where
  | reload (r : AgentRegistry)
  | reap (now : ℕ)
  | closeAll
  | reader (i : ChannelId) (a : Channel.Act)

/-- The channel actions of the reader thread and the clock. -/
def readerAct : Channel.Act → Bool
  | .tick _ => true
  | .recv _ => true
  | .readerEnd _ => true
  | _ => false

def env (d : Deployment) : EnvAct → Option World
  | .reload r => some { w with registry := r, registryVersion := w.registryVersion + 1 }
  | .reap now => some (w.reap d.idleCloseS now)
  | .closeAll => some w.closeAll
  | .reader i a => match w.channels[i]? with
    | some r => if readerAct a then match r.chan.step a with
        | some chan => some { w with channels := w.channels.set i { r with chan := chan } }
        | none => none
      else none
    | none => none

end World

/-- A system of programs over this world, its configurations and its actions. -/
abbrev Services (Req α : Type) := Interleaving.Interp World Conn Req Choice World.EnvAct Op Op.Ans Exn α
abbrev Services.Config (α : Type) := Interleaving.Config World Conn Op Op.Ans Exn α
abbrev Services.Action (Req : Type) := Interleaving.Act Conn Req Choice World.EnvAct

end Saarathi
