import Saarathi.Agents
import Saarathi.PyFloat
import Mathlib.Data.List.Sort

/-!
# The database

The tables of the services, the statements that the repositories issue, the
transaction of each pooled connection and the session-scoped advisory locks. A
request keeps one connection for its whole life, so a transaction and a lock
are named by their connection.
-/

namespace Saarathi

open ReadCommitted

/-- A pooled database connection. -/
abbrev Conn := ℕ

/-- One row of `conversations`. -/
structure Conversation where
  id : ConversationId
  tenantCode : String
  organizationId : Option String := none
  externalUserId : String
  title : Option String := none
  active : Bool := true
  pinnedAgentId : Option AgentId := none
  locale : String := "en"
  messageCount : ℕ := 0
  titleIsPlaceholder : Bool := false
  lastMessageAt : Option ℕ := none
  createdAt : ℕ

namespace Conversation

/-- `conv_locale`, `conv_msgcount` and `conv_tenant`. -/
def constraints : Constraints Conversation where
  check c := decide (c.locale ∈ ["en","hi","kn","te"]) && c.tenantCode != ""
  conflict _ _ := false
  conflict_comm _ _ := rfl

/-- `coalesce(last_message_at, created_at)`. -/
def recency (c : Conversation) : ℕ := c.lastMessageAt.getD c.createdAt

def belongsTo (c : Conversation) (u : UserContext) : Bool :=
  c.tenantCode == u.tenantCode && c.externalUserId == u.userId

end Conversation

inductive MessageRole where
  | user
  | assistant
  | system
  | tool
  deriving DecidableEq

/-- The columns that one message insert sets. -/
structure NewMessage where
  conversationId : ConversationId
  seq : ℕ
  role : MessageRole
  content : Json
  agentId : Option AgentId := none
  agentSessionId : Option SessionId := none
  routeReason : Option String := none
  routeConfidence : Option PyFloat := none
  options : Option (List TurnOption) := none
  promptTokens : Option ℤ := none
  completionTokens : Option ℤ := none
  latencyMs : Option ℤ := none

/-- One row of `conversation_messages`. -/
structure Message where
  id : ℕ
  new : NewMessage
  content : String
  createdAt : ℕ

namespace Message

/-- The values fit their columns; the content has been stored as a text. -/
def storable (m : Message) : Bool :=
  fitsInteger m.new.seq && fitsInteger (m.new.promptTokens.getD 0) &&
    fitsInteger (m.new.completionTokens.getD 0) && fitsInteger (m.new.latencyMs.getD 0) &&
    (m.new.options.getD []).all fun o => !(Text.hasNul o.id || Text.hasNul o.label || Text.hasNul o.value)

/-- `msg_seq`, `msg_assistant_attribution`, `msg_options_only_assistant`, `msg_tokens`,
`msg_latency`, `msg_confidence` and `uq_msg_seq`, on values that fit their columns. -/
def constraints : Constraints Message where
  check m := decide (0 < m.new.seq) &&
    (decide (m.new.role ≠ .assistant) || m.new.agentId.isSome) &&
    (m.new.options.isNone || decide (m.new.role = .assistant)) &&
    decide (0 ≤ m.new.promptTokens.getD 0) && decide (0 ≤ m.new.completionTokens.getD 0) &&
    decide (0 ≤ m.new.latencyMs.getD 0) &&
    (m.new.routeConfidence.all fun q => decide (0 ≤ q) && decide (q ≤ 1)) && m.storable
  conflict m m' := decide ((m.new.conversationId,m.new.seq) = (m'.new.conversationId,m'.new.seq))
  conflict_comm _ _ := decide_eq_decide.mpr eq_comm

end Message

/-- The text that the driver stores for a value; `none` where the column or the driver refuses
it. `adapt` is what the driver makes of a value that is neither null nor a string. -/
def storedText (adapt : Json → Option String) : Json → Option String
  | .null => none
  | .str s => if Text.hasNul s then none else some s
  | j => adapt j

/-- A connection's transaction. After a statement fails the server refuses every statement until
the rollback; after a failed flush the `Session` does, its commit included. -/
inductive TxStatus where
  | active
  | aborted
  | deactivated
  deriving DecidableEq

/-- The session-scoped advisory locks, each with its holder and the number of times it is held. -/
abbrev Locks := ℤ → Option (Conn × ℕ)

namespace Locks

/-- `pg_try_advisory_lock`. -/
def acquire (l : Locks) (x : Conn) (key : ℤ) : Bool × Locks :=
  match l key with
  | none => (true,Function.update l key (some (x,1)))
  | some (y,n) =>
    if y = x then (true,Function.update l key (some (x,n + 1))) else (false,l)

/-- `pg_advisory_unlock`. -/
def release (l : Locks) (x : Conn) (key : ℤ) : Bool × Locks :=
  match l key with
  | some (y,n) =>
    if y = x then (true,Function.update l key (if n ≤ 1 then none else some (x,n - 1)))
    else (false,l)
  | none => (false,l)

/-- How many times `x` holds a lock. -/
def held (l : Locks) (x : Conn) (key : ℤ) : ℕ :=
  match l key with
  | some (y,n) => if y = x then n else 0
  | none => 0

variable {l : Locks} {x y : Conn} {key key' : ℤ}

theorem holder_unique (hx : 0 < l.held x key) (hy : 0 < l.held y key) : x = y := by
  rcases hl : l key with _ | ⟨z,n⟩
  · simp [held,hl] at hx
  · by_cases hzx : z = x
    · by_cases hzy : z = y
      · exact hzx.symm.trans hzy
      · simp [held,hl,hzy] at hy
    · simp [held,hl,hzx] at hx

theorem held_acquire_of_ne_key (h : key' ≠ key) :
    ((l.acquire x key).2).held y key' = l.held y key' := by
  unfold acquire
  split
  · simp [held,Function.update_of_ne h]
  · split
    · simp [held,Function.update_of_ne h]
    · rfl

theorem held_acquire_of_ne (hy : y ≠ x) : ((l.acquire x key).2).held y key' = l.held y key' := by
  by_cases hk : key' = key
  · subst hk
    unfold acquire
    split
    · rename_i hl
      simp [held,hl,hy.symm]
    · rename_i z n hl
      split
      · rename_i hz
        subst hz
        simp [held,hl,hy.symm]
      · rfl
  · exact held_acquire_of_ne_key hk

theorem held_acquire (h : (l.acquire x key).1 = true) :
    ((l.acquire x key).2).held x key = l.held x key + 1 := by
  unfold acquire at h ⊢
  split
  · rename_i hl
    simp [held,hl]
  · rename_i z n hl
    split
    · rename_i hz
      subst hz
      simp [held,hl]
    · rename_i hz
      simp [hl,hz] at h

theorem acquire_refused (h : (l.acquire x key).1 = false) : (l.acquire x key).2 = l := by
  unfold acquire at h ⊢
  split
  · rename_i hl
    simp [hl] at h
  · rename_i z n hl
    split
    · rename_i hz
      simp [hl,hz] at h
    · rfl

theorem held_le_acquire : l.held x key' ≤ ((l.acquire x key).2).held x key' := by
  by_cases hk : key' = key
  · subst hk
    rcases h : (l.acquire x key').1 with _ | _
    · rw [acquire_refused h]
    · rw [held_acquire h]
      omega
  · rw [held_acquire_of_ne_key hk]

theorem held_release_of_ne_key (h : key' ≠ key) :
    ((l.release x key).2).held y key' = l.held y key' := by
  unfold release
  split
  · split
    · simp [held,Function.update_of_ne h]
    · rfl
  · rfl

theorem held_release_of_ne (hy : y ≠ x) : ((l.release x key).2).held y key' = l.held y key' := by
  by_cases hk : key' = key
  · subst hk
    unfold release
    split
    · rename_i z n hl
      split
      · rename_i hz
        subst hz
        by_cases hn : n ≤ 1
        · simp [held,hl,hn,hy.symm]
        · simp [held,hl,hn,hy.symm]
      · rfl
    · rfl
  · exact held_release_of_ne_key hk

theorem held_release : ((l.release x key).2).held x key = l.held x key - 1 := by
  unfold release
  split
  · rename_i z n hl
    split
    · rename_i hz
      subst hz
      by_cases hn : n ≤ 1
      · simp [held,hl,hn]
      · simp [held,hl,hn]
    · rename_i hz
      simp [held,hl,hz]
  · rename_i hl
    simp [held,hl]

end Locks

structure Database where
  sessions : Table Conn AgentSession := {}
  conversations : Table Conn Conversation := {}
  messages : Table Conn Message := {}
  tx : Conn → TxStatus := fun _ => .active
  locks : Locks := fun _ => none

/-- The statements of the repositories, under their method's name. -/
inductive Stmt where
  | getSession (id : SessionId)
  | getOpenForConversation (c : ConversationId)
  | createPending (c : ConversationId) (agent : AgentId) (language : String)
  | updateStateAndFields (id : SessionId) (expected : List SessionState) (new : SessionState)
      (fields : FieldUpdates)
  | claimFinalizing (id : SessionId)
  | abandonOpenSession (c : ConversationId) (reason : String)
  | sweepAbandonedOlderThan (cutoff : ℕ) (reason : String)
  | getScoped (id : ConversationId) (user : UserContext)
  | latestActive (user : UserContext)
  | newestListed (user : UserContext)
  | findEmptyForUser (user : UserContext)
  | createConversation (user : UserContext)
  | nextSeqForUpdate (c : ConversationId)
  | touch (c : ConversationId) (titleFrom : Option Json)
  | setPlaceholderTitle (c : ConversationId) (title : String)
  | replacePlaceholderTitle (c : ConversationId) (title : Json)
  | pin (c : ConversationId) (agent : AgentId)
  | unpin (c : ConversationId)
  | insertMessage (m : NewMessage)
  | recent (c : ConversationId) (limit : ℕ)
  | lastUserContent (c : ConversationId)
  | countRecentUser (c : ConversationId)
  | auditInsert (action : String) (entityId : SessionId) (actor note : String)
  | bulkInsert (messageId : ℕ) (agent : AgentId) (traces : List ToolTrace)
  | scopedConfig (agent : AgentId) (tenant organization : String)
  | flowPayload (c : ConversationId)
  | registryQuery
  | tryAdvisoryLock (key : ℤ)
  | advisoryUnlock (key : ℤ)

namespace Stmt

/-- What a statement answers with: the rows that a query or a `RETURNING` clause yields. -/
def Ans : Stmt → Type
  | getSession _ => List AgentSession
  | getOpenForConversation _ => List AgentSession
  | createPending .. => AgentSession
  | updateStateAndFields .. => List AgentSession
  | claimFinalizing _ => List AgentSession
  | abandonOpenSession .. => List AgentSession
  | sweepAbandonedOlderThan .. => List AgentSession
  | getScoped .. => List Conversation
  | latestActive _ => List Conversation
  | newestListed _ => List Conversation
  | findEmptyForUser _ => List Conversation
  | createConversation _ => Conversation
  | nextSeqForUpdate _ => List ℕ
  | insertMessage _ => ℕ
  | recent .. => List Message
  | lastUserContent _ => List String
  | countRecentUser _ => ℕ
  | scopedConfig .. => Option (String × Option AgentSpec)
  | tryAdvisoryLock _ => Bool
  | advisoryUnlock _ => Bool
  | _ => Unit

/-- Statements that the unit of work issues from a flush. -/
def isFlush : Stmt → Bool
  | createPending .. => true
  | createConversation _ => true
  | insertMessage _ => true
  | auditInsert .. => true
  | bulkInsert .. => true
  | _ => false

end Stmt

/-- What the database leaves open about one statement: the uuid that it generates, `now()`, the
row that a limited query returns and the scoped configuration on record, with its specification
where that is valid. -/
structure Pick where
  id : ℕ := 0
  now : ℕ := 0
  config : Option (String × Option AgentSpec) := none

inductive DbChoice where
  | reject
  | go (p : Pick)

namespace Database

variable (db : Database) (x : Conn)

def onSessions {A : Type} : Effect (A × Table Conn AgentSession) → Effect (A × Database)
  | .blocked => .blocked
  | .violates => .violates
  | .ok (a,t) => .ok (a,{ db with sessions := t })

def onConversations {A : Type} : Effect (A × Table Conn Conversation) → Effect (A × Database)
  | .blocked => .blocked
  | .violates => .violates
  | .ok (a,t) => .ok (a,{ db with conversations := t })

def onMessages {A : Type} : Effect (A × Table Conn Message) → Effect (A × Database)
  | .blocked => .blocked
  | .violates => .violates
  | .ok (a,t) => .ok (a,{ db with messages := t })

/-- Insert a row under a key that no row has had. -/
def insertRow {V A : Type} (K : Constraints V) (id : ℕ) (v : V) (a : A) (t : Table Conn V) :
    Effect (A × Table Conn V) :=
  if id ∈ t.keys then .blocked
  else match t.write x K id v with
    | .blocked => .blocked
    | .violates => .violates
    | .ok t' => .ok (a,t')

def updateSessions (p : AgentSession → Bool) (f : AgentSession → AgentSession) :
    Effect (List AgentSession × Database) :=
  db.onSessions (db.sessions.updateWhere x AgentSession.constraints p f)

def updateConversations {A : Type} (g : List Conversation → A) (p : Conversation → Bool)
    (f : Conversation → Conversation) : Effect (A × Database) :=
  match db.onConversations (db.conversations.updateWhere x Conversation.constraints p f) with
  | .blocked => .blocked
  | .violates => .violates
  | .ok (cs,db') => .ok (g cs,db')

/-- `ORDER BY key DESC LIMIT 1`: the row picked must be one that comes first. -/
def first {V : Type} (id key : V → ℕ) (pick : ℕ) (rows : List V) : Effect (List V × Database) :=
  match rows.find? fun r => id r = pick with
  | some r => if rows.all fun r' => key r' ≤ key r then .ok ([r],db) else .blocked
  | none => if rows.isEmpty then .ok ([],db) else .blocked

def newConversation (id now : ℕ) (u : UserContext) : Conversation where
  id := id
  tenantCode := u.tenantCode
  organizationId := u.activeOrgId
  externalUserId := u.userId
  locale := u.locale
  createdAt := now

/-- The rows of a conversation's transcript that `x` reads, in `seq` order. -/
def transcript (c : ConversationId) : List Message :=
  (db.messages.select x fun m => m.new.conversationId = c).insertionSort
    fun m m' => m.new.seq ≤ m'.new.seq

end Database

/-- What a statement does in a transaction that is not aborted. -/
def Stmt.effect (adapt : Json → Option String) (db : Database) (x : Conn) (p : Pick) :
    (s : Stmt) → Effect (s.Ans × Database)
  | .getSession id => .ok (db.sessions.select x (·.id = id),db)
  | .getOpenForConversation c =>
    .ok (db.sessions.select x fun s => s.conversationId = c && s.isOpen,db)
  | .createPending c agent language =>
    let s : AgentSession := { id := p.id, conversationId := c, agentId := agent,
                              language := language, startedAt := p.now, lastActivityAt := p.now }
    db.onSessions (Database.insertRow x AgentSession.constraints p.id s s db.sessions)
  | .updateStateAndFields id expected new fields =>
    db.updateSessions x (fun s => s.id = id && expected.contains s.state) (fields.assign new p.now)
  | .claimFinalizing id =>
    db.updateSessions x (fun s => s.id = id && s.state.claimable)
      fun s => { s with state := .finalizing }
  | .abandonOpenSession c reason =>
    db.updateSessions x (fun s => s.conversationId = c && s.isOpen)
      fun s => { s with state := .abandoned, endedAt := some p.now, error := some reason }
  | .sweepAbandonedOlderThan cutoff reason =>
    db.updateSessions x (fun s => s.isOpen && s.lastActivityAt < cutoff)
      fun s => { s with state := .abandoned, endedAt := some p.now, error := some reason }
  | .getScoped id user =>
    .ok (db.conversations.select x fun c => c.id = id && c.belongsTo user,db)
  | .latestActive user =>
    db.first (·.id) (·.recency) p.id
      (db.conversations.select x fun c => c.belongsTo user && c.active)
  | .newestListed user =>
    db.first (·.id) (·.recency) p.id
      (db.conversations.select x fun c => c.belongsTo user && c.active && 0 < c.messageCount)
  | .findEmptyForUser user =>
    db.first (·.id) (·.createdAt) p.id
      (db.conversations.select x fun c => c.belongsTo user && c.active && c.messageCount = 0)
  | .createConversation user =>
    let c := Database.newConversation p.id p.now user
    db.onConversations (Database.insertRow x Conversation.constraints p.id c c db.conversations)
  | .nextSeqForUpdate c =>
    db.updateConversations x (fun cs => cs.map (·.messageCount)) (·.id = c)
      fun v => { v with messageCount := v.messageCount + 1 }
  | .touch c titleFrom => match titleFrom with
    | none => db.updateConversations x (fun _ => ()) (·.id = c)
        fun v => { v with lastMessageAt := some p.now }
    | some j => match storedText adapt j with
      | none => .violates
      | some title => db.updateConversations x (fun _ => ()) (·.id = c)
          fun v => { v with lastMessageAt := some p.now, title := v.title <|> some title }
  | .setPlaceholderTitle c title =>
    db.updateConversations x (fun _ => ()) (fun v => v.id = c && v.title.isNone)
      fun v => { v with title := some title, titleIsPlaceholder := true }
  | .replacePlaceholderTitle c j => match storedText adapt j with
    | none => .violates
    | some title =>
      db.updateConversations x (fun _ => ()) (fun v => v.id = c && v.titleIsPlaceholder)
        fun v => { v with title := some title, titleIsPlaceholder := false }
  | .pin c agent =>
    db.updateConversations x (fun _ => ()) (·.id = c)
      fun v => { v with pinnedAgentId := some agent }
  | .unpin c =>
    db.updateConversations x (fun _ => ()) (·.id = c) fun v => { v with pinnedAgentId := none }
  | .insertMessage m => match storedText adapt m.content with
    | none => .violates
    | some content =>
      db.onMessages (Database.insertRow x Message.constraints p.id
        { id := p.id, new := m, content := content, createdAt := p.now } p.id db.messages)
  | .recent c limit =>
    let rows := db.transcript x c
    .ok (rows.drop (rows.length - limit),db)
  | .lastUserContent c =>
    .ok ((((db.transcript x c).filter fun m => m.new.role = .user).getLast?.map (·.content)).toList,db)
  | .countRecentUser c =>
    .ok (((db.transcript x c).filter fun m =>
      m.new.role = .user && p.now < m.createdAt + 60).length,db)
  | .auditInsert .. => .ok ((),db)
  | .bulkInsert .. => .ok ((),db)
  | .scopedConfig .. => .ok (p.config,db)
  | .flowPayload _ => .ok ((),db)
  | .registryQuery => .ok ((),db)
  | .tryAdvisoryLock key =>
    .ok ((db.locks.acquire x key).1,{ db with locks := (db.locks.acquire x key).2 })
  | .advisoryUnlock key =>
    .ok ((db.locks.release x key).1,{ db with locks := (db.locks.release x key).2 })

namespace Database

variable (db : Database) (x : Conn)

/-- The transaction's changes are undone. -/
def discard (status : TxStatus) : Database := { db with
  sessions := db.sessions.rollback x
  conversations := db.conversations.rollback x
  messages := db.messages.rollback x
  tx := Function.update db.tx x status }

/-- The transaction's changes are made visible. -/
def commit : Database := { db with
  sessions := db.sessions.commit x
  conversations := db.conversations.commit x
  messages := db.messages.commit x }

/-- A statement fails: the server undoes the transaction and refuses further statements. -/
def fail (s : Stmt) : Database := db.discard x (if s.isFlush then .deactivated else .aborted)

/-- Execute one statement. -/
def execStmt (adapt : Json → Option String) (s : Stmt) :
    DbChoice → Option (Except Exn s.Ans × Database)
  | .reject => match db.tx x with
    | .active => some (.error .rejected,db.fail x s)
    | _ => some (.error .refused,db)
  | .go p => match db.tx x with
    | .active => match s.effect adapt db x p with
      | .blocked => none
      | .violates => some (.error .rejected,db.fail x s)
      | .ok (a,db') => some (.ok a,db')
    | _ => some (.error .refused,db)

/-- `Session.commit()`. A transaction that the server has aborted is rolled back without a word. -/
def execCommit : DbChoice → Option (Except Exn Unit × Database)
  | .reject => match db.tx x with
    | .active => some (.error .rejected,db.discard x .deactivated)
    | .aborted => some (.ok (),db.discard x .active)
    | .deactivated => some (.error .refused,db)
  | .go _ => match db.tx x with
    | .active => some (.ok (),db.commit x)
    | .aborted => some (.ok (),db.discard x .active)
    | .deactivated => some (.error .refused,db)

/-- `Session.rollback()`, `Session.close()` and the pool's reset of a returned connection. -/
def execRollback : Database := db.discard x .active

end Database

end Saarathi
