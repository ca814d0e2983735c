import Saarathi.FrameParser
import Saarathi.Orchestration
import Saarathi.TurnSeparation
import Mathlib.Data.List.Induction

/-!
# Storing a reply

Nothing between Mitra's frames and the database looks at the values that they
carry. This module says which replies the two tables take.
-/

namespace Saarathi

open Channel FrameParser ReadCommitted Machine

/-- The assistant message that `storeReply` inserts. -/
def replyMessage (conv : Conversation) (decision : RouteDecision) (agent : RegisteredAgent)
    (turn : AgentTurn) (session : Option SessionId) (seq : ℕ) : NewMessage where
  conversationId := conv.id
  seq := seq
  role := .assistant
  content := .str turn.text
  agentId := some agent.id
  agentSessionId := session
  routeReason := some decision.reason.value
  routeConfidence := some decision.confidence
  options := if turn.options.isEmpty then none else some turn.options
  promptTokens := turn.promptTokens
  completionTokens := turn.completionTokens
  latencyMs := some turn.latencyMs

/-- Everything but the reply that the session change and the message are made of. The session is a
row of its table. -/
structure ReplyContext where
  sessions : Table Conn AgentSession
  messages : Table Conn Message
  conn : Conn
  now : ℕ
  messageId : ℕ
  seq : ℕ
  adapt : Json → Option String
  session : AgentSession
  session_check : session.check = true
  remote : RemoteSpec
  view : AgentSessionView
  finished : Bool
  conversation : Conversation
  decision : RouteDecision
  agent : RegisteredAgent

namespace ReplyContext

variable (r : ReplyContext) (bot : BotTurn)

/-- The turn that `handle` makes of the reply. -/
def turn : AgentTurn := RemoteFlowAgentHandler.turnOf r.remote r.view bot r.finished

/-- The session row after `apply`. -/
def row : AgentSession :=
  match (r.turn bot).sessionDelta with
  | some delta => delta.fields.assign delta.state r.now r.session
  | none => r.session

def message : NewMessage :=
  replyMessage r.conversation r.decision r.agent (r.turn bot) (some r.session.id) r.seq

def messageRow (content : String) : Message where
  id := r.messageId
  new := r.message bot
  content := content
  createdAt := r.now

/-- The session change and the message violate no constraint of their tables. -/
structure Stores : Prop where
  session : Table.Obeys AgentSession.constraints r.conn r.sessions r.session.id (r.row bot)
  message : ∃ content, storedText r.adapt (r.message bot).content = some content ∧
    Table.Obeys Message.constraints r.conn r.messages r.messageId (r.messageRow bot content)

end ReplyContext

/-- A reply that says nothing: what is left to store is not the frames' doing. -/
def silent : BotTurn := { text := "" }

/-- The option's texts have no NUL. -/
def TurnOption.clean (o : TurnOption) : Bool :=
  !(Text.hasNul o.id || Text.hasNul o.label || Text.hasNul o.value)

/-- The frames that offer options, of which the last one's are kept. -/
def offering (used : List Arrival) : List Arrival := used.filter fun a => !a.frame.options.isEmpty

def fitsStep (n : ℤ) : Prop := 0 ≤ n ∧ n ≤ 2147483647

/-- The last frame's step fits its column, and no text that the turn keeps has a NUL. -/
structure StorableReply (used : List Arrival) : Prop where
  step : ∀ a n, used.getLast? = some a → a.frame.step = some n → fitsStep n
  text : ∀ a ∈ used, Text.hasNul a.frame.msg = false
  options : ∀ a, (offering used).getLast? = some a → ∀ o ∈ a.frame.options, o.clean = true

section Assemble

theorem hasNul_append (s t : String) :
    Text.hasNul (s ++ t) = (Text.hasNul s || Text.hasNul t) := by
  simp [Text.hasNul]

theorem hasNul_join (ss : List String) : Text.hasNul (String.join ss) = ss.any Text.hasNul := by
  induction ss using List.reverseRecOn with
  | nil => rfl
  | append_singleton ss s ih => rw [join_append,hasNul_append,ih,List.any_append,List.any_cons,List.any_nil,Bool.or_false]

theorem assemble_hasNul (used : List Arrival) :
    Text.hasNul (assemble used).text = used.any fun a => Text.hasNul a.frame.msg := by
  have hjoin := hasNul_join (used.map (·.frame.msg))
  rw [List.any_map] at hjoin
  unfold assemble
  by_cases h : String.join (used.map (·.frame.msg)) = "" ∧ used.any (·.frame.controlPayload)
  · simp only [if_pos h]
    rw [h.1] at hjoin
    exact hjoin
  · simp only [if_neg h]
    exact hjoin

theorem assemble_options (used : List Arrival) : (assemble used).options =
    ((offering used).getLast?.map (·.frame.options)).getD [] := by
  induction used using List.reverseRecOn with
  | nil => rfl
  | append_singleton used a ih =>
    simp only [assemble,List.foldl_append,List.foldl_cons,List.foldl_nil] at ih ⊢
    by_cases ha : a.frame.options.isEmpty = true
    · simp [offering,ha] at ih ⊢
      exact ih
    · simp [offering,ha]

/-- Each frame of the parser has a step, so that the last one's is the turn's. -/
theorem assemble_step {used : List Arrival} (h : ∀ a ∈ used, a.frame.step.isSome = true) :
    (assemble used).step = used.getLast?.bind (·.frame.step) := by
  induction used using List.reverseRecOn with
  | nil => rfl
  | append_singleton used a ih =>
    obtain ⟨n,hn⟩ := Option.isSome_iff_exists.mp (h a (by simp))
    simp [assemble,hn]

end Assemble

section Columns

theorem fitsStep_iff {n : ℤ} : fitsStep n ↔ decide (0 ≤ n) = true ∧ fitsInteger n = true := by
  simp only [fitsStep,fitsInteger,Bool.and_eq_true,decide_eq_true_eq]
  omega

theorem fitsStep_of_check {s : AgentSession} (h : s.check = true) : fitsStep s.step := by
  simp only [AgentSession.check,AgentSession.storable,Bool.and_eq_true] at h
  exact fitsStep_iff.mpr ⟨h.1.1.1.1.2,h.2.1.1⟩

/-- The step is checked on its own. -/
theorem check_step {s : AgentSession} {m n : ℤ} (hm : fitsStep m) :
    { s with step := n }.check = true ↔ { s with step := m }.check = true ∧ fitsStep n := by
  rw [fitsStep_iff] at hm ⊢
  simp only [AgentSession.check,AgentSession.storable,Bool.and_eq_true,hm]
  tauto

/-- So are the options of an assistant's message. -/
theorem check_options {m : Message} {os : List TurnOption} (h : m.new.role = .assistant) :
    Message.constraints.check { m with new := { m.new with options := some os } } = true ↔
      Message.constraints.check { m with new := { m.new with options := none } } = true ∧
        ∀ o ∈ os, o.clean = true := by
  have hclean : (os.all fun o => !(Text.hasNul o.id || Text.hasNul o.label || Text.hasNul o.value)) = true ↔
      ∀ o ∈ os, o.clean = true := by
    rw [List.all_eq_true]
    rfl
  simp only [Message.constraints,Message.storable,Bool.and_eq_true,h,Option.getD_some,Option.getD_none,
    Option.isNone_some,Option.isNone_none,List.all_nil,Bool.false_or,Bool.true_or,decide_true,hclean]
  tauto

end Columns

section Rows

variable {x : Conn} {k : ℕ}

theorem obeys_step {t : Table Conn AgentSession} {s : AgentSession} {m n : ℤ} (hm : fitsStep m) :
    Table.Obeys AgentSession.constraints x t k { s with step := n } ↔
      Table.Obeys AgentSession.constraints x t k { s with step := m } ∧ fitsStep n := by
  constructor
  · intro h
    obtain ⟨hc,hn⟩ := (check_step hm).mp h.check
    exact ⟨⟨hc,h.fresh⟩,hn⟩
  · rintro ⟨h,hn⟩
    exact ⟨(check_step hm).mpr ⟨h.check,hn⟩,h.fresh⟩

/-- An assistant's message, as it is stored. -/
def Message.withReply (m : Message) (text : String) (os : List TurnOption) : Message := { m with
  content := text
  new := { m.new with content := .str text, options := if os.isEmpty then none else some os } }

theorem obeys_reply {t : Table Conn Message} {m : Message} {text : String} {os : List TurnOption}
    (h : m.new.role = .assistant) :
    Table.Obeys Message.constraints x t k (m.withReply text os) ↔
      Table.Obeys Message.constraints x t k (m.withReply "" []) ∧ ∀ o ∈ os, o.clean = true := by
  cases os with
  | nil =>
    constructor
    · intro ho
      exact ⟨⟨ho.check,ho.fresh⟩,by simp⟩
    · rintro ⟨ho,-⟩
      exact ⟨ho.check,ho.fresh⟩
  | cons o os =>
    have hcheck : Message.constraints.check (m.withReply text (o :: os)) = true ↔
        Message.constraints.check (m.withReply "" []) = true ∧ ∀ o' ∈ o :: os, o'.clean = true :=
      check_options h
    constructor
    · intro ho
      obtain ⟨hc,hos⟩ := hcheck.mp ho.check
      exact ⟨⟨hc,ho.fresh⟩,hos⟩
    · rintro ⟨ho,hos⟩
      exact ⟨hcheck.mpr ⟨ho.check,hos⟩,ho.fresh⟩

end Rows

namespace ReplyContext

variable {r : ReplyContext} {bot : BotTurn}

theorem obeys_row_iff :
    Table.Obeys AgentSession.constraints r.conn r.sessions r.session.id (r.row bot) ↔
      Table.Obeys AgentSession.constraints r.conn r.sessions r.session.id (r.row silent) ∧
        ∀ n, bot.step = some n → fitsStep n := by
  have hs : fitsStep r.session.step := fitsStep_of_check r.session_check
  have hrow : r.row bot = { r.row silent with step := bot.step.getD r.session.step } := rfl
  have hsilent : r.row silent = { r.row silent with step := r.session.step } := rfl
  have hfits : fitsStep (bot.step.getD r.session.step) ↔ ∀ n, bot.step = some n → fitsStep n := by
    cases hb : bot.step with
    | none => simp [hs]
    | some n => simp
  rw [hrow,obeys_step hs,hfits,← hsilent]

theorem storedText_iff {content : String} :
    storedText r.adapt (r.message bot).content = some content ↔
      Text.hasNul bot.text = false ∧ bot.text = content := by
  have htext : (r.message bot).content = .str bot.text := rfl
  rw [htext,storedText]
  by_cases h : Text.hasNul bot.text = true
  · simp [h]
  · simp [h]

theorem obeys_message_iff :
    (∃ content, storedText r.adapt (r.message bot).content = some content ∧
      Table.Obeys Message.constraints r.conn r.messages r.messageId (r.messageRow bot content)) ↔
    (∃ content, storedText r.adapt (r.message silent).content = some content ∧
      Table.Obeys Message.constraints r.conn r.messages r.messageId (r.messageRow silent content)) ∧
    Text.hasNul bot.text = false ∧ ∀ o ∈ bot.options, o.clean = true := by
  have hrow : ∀ bot', r.messageRow bot' bot'.text =
      (r.messageRow silent "").withReply bot'.text bot'.options := fun _ => rfl
  have hrole : (r.messageRow silent "").new.role = .assistant := rfl
  have hreply : Table.Obeys Message.constraints r.conn r.messages r.messageId
      ((r.messageRow silent "").withReply bot.text bot.options) ↔
        Table.Obeys Message.constraints r.conn r.messages r.messageId
          ((r.messageRow silent "").withReply "" []) ∧ ∀ o ∈ bot.options, o.clean = true :=
    obeys_reply hrole
  have hsilent : (r.messageRow silent "").withReply "" [] = r.messageRow silent silent.text := rfl
  simp only [storedText_iff]
  constructor
  · rintro ⟨content,⟨hn,rfl⟩,ho⟩
    rw [hrow,hreply,hsilent] at ho
    exact ⟨⟨silent.text,⟨rfl,rfl⟩,ho.1⟩,hn,ho.2⟩
  · rintro ⟨⟨content,⟨-,rfl⟩,ho⟩,hn,hos⟩
    refine ⟨bot.text,⟨hn,rfl⟩,?_⟩
    rw [hrow,hreply,hsilent]
    exact ⟨ho,hos⟩

theorem stores_iff : r.Stores bot ↔ r.Stores silent ∧ (∀ n, bot.step = some n → fitsStep n) ∧
    Text.hasNul bot.text = false ∧ ∀ o ∈ bot.options, o.clean = true := by
  constructor
  · intro h
    obtain ⟨hs,hstep⟩ := obeys_row_iff.mp h.session
    obtain ⟨hm,hclean⟩ := obeys_message_iff.mp h.message
    exact ⟨⟨hs,hm⟩,hstep,hclean⟩
  · rintro ⟨h,hstep,hclean⟩
    exact ⟨obeys_row_iff.mpr ⟨h.session,hstep⟩,obeys_message_iff.mpr ⟨h.message,hclean⟩⟩

/-- The database takes the session change of a reply that the tables can store. -/
theorem Stores.update_ne_violates {db : Database} {p : Pick} {delta : SessionDelta} (h : r.Stores bot)
    (hdb : db.sessions = r.sessions) (hp : p.now = r.now) (hd : (r.turn bot).sessionDelta = some delta)
    (hrow : ∀ k s, r.sessions.view r.conn k = some s → s.id = r.session.id →
      k = r.session.id ∧ s = r.session) :
    (Stmt.updateStateAndFields r.session.id [r.session.state] delta.state delta.fields).effect
      r.adapt db r.conn p ≠ .violates := by
  have hobeys : Table.Obeys AgentSession.constraints r.conn db.sessions r.session.id
      (delta.fields.assign delta.state p.now r.session) := by
    have hs := h.session
    rw [row,hd] at hs
    rw [hdb,hp]
    exact hs
  have hupdate := hobeys.updateWhere_ne_violates
    (p := fun s => s.id = r.session.id && [r.session.state].contains s.state)
    (f := delta.fields.assign delta.state p.now) fun k s hv hs => by
      rw [hdb] at hv
      simp only [Bool.and_eq_true,decide_eq_true_eq] at hs
      exact hrow k s hv hs.1
  intro he
  simp only [Stmt.effect,Database.updateSessions] at he
  unfold Database.onSessions at he
  split at he
  · cases he
  · rename_i hu
    exact hupdate hu
  · cases he

/-- So does it take the message. -/
theorem Stores.insert_ne_violates {db : Database} {p : Pick} (h : r.Stores bot)
    (hdb : db.messages = r.messages) (hid : p.id = r.messageId) (hnow : p.now = r.now) :
    (Stmt.insertMessage (r.message bot)).effect r.adapt db r.conn p ≠ .violates := by
  obtain ⟨content,hc,ho⟩ := h.message
  intro he
  simp only [Stmt.effect,hc,hid,hnow,hdb] at he
  unfold Database.onMessages Database.insertRow at he
  split at he
  · cases he
  · rename_i hi
    split at hi
    · cases hi
    split at hi
    · cases hi
    · rename_i hw
      exact ho.write_ne_violates hw
    · cases hi
  · cases he

end ReplyContext

/-- What the turn keeps of frames that the parser made is storable exactly when the frames are. -/
theorem storableReply_iff {used : List Arrival} (h : ∀ a ∈ used, a.frame.step.isSome = true) :
    StorableReply used ↔ (∀ n, (assemble used).step = some n → fitsStep n) ∧
      Text.hasNul (assemble used).text = false ∧ ∀ o ∈ (assemble used).options, o.clean = true := by
  rw [assemble_step h,assemble_hasNul,assemble_options]
  constructor
  · intro hs
    refine ⟨?_,?_,?_⟩
    · intro n hn
      obtain ⟨a,ha,hstep⟩ := Option.bind_eq_some_iff.mp hn
      exact hs.step a n ha hstep
    · simpa using hs.text
    · cases ha : (offering used).getLast? with
      | none => simp
      | some a => simpa using hs.options a ha
  · rintro ⟨hstep,htext,hoptions⟩
    refine ⟨?_,by simpa using htext,?_⟩
    · intro a n ha hn
      exact hstep n (by simp [ha,hn])
    · intro a ha
      simpa [ha] using hoptions

/-- The frame is what the parser makes of some message. -/
def Parsed (b : Builtins) (a : Arrival) : Prop := ∃ m, a.frame = (parse b m).toFrame

/-- Every frame that arrives is what the parser makes of a message. -/
def Wired (b : Builtins) (_ : Chan) : Act → Prop
  | .recv a => Parsed b a
  | _ => True

/-- A channel that has just been opened, with what came during the handshake. -/
structure Opened (b : Builtins) (c : Chan) : Prop where
  pc : c.pc = none
  outcomes : c.outcomes = []
  pending : ∀ a, c.pending = some a → Parsed b a

/-- Whatever messages come, in whatever order the threads take their steps: a returned turn can be
stored exactly when its frames are storable and a reply that says nothing could be stored in its
place. -/
theorem reply_stored_iff {b : Builtins} {c₀ c : Chan} (h₀ : Opened b c₀)
    (hc : Reach Chan.step (Wired b) c₀ c) {n : ℕ} {used : List Arrival} {bot : BotTurn}
    (ho : Outcome.returned n used bot ∈ c.outcomes) (r : ReplyContext) :
    r.Stores bot ↔ r.Stores silent ∧ StorableReply used := by
  have hinv₀ : Inv (fun _ a => Parsed b a) c₀ := by
    refine ⟨fun a ha _ => h₀.pending a ha,?_,?_,?_,?_⟩
    · intro ha
      simp [Chan.awaiting,h₀.pc] at ha
    · intro p hp
      simp [h₀.pc] at hp
    · intro l e hp
      simp [h₀.pc] at hp
    · intro n used bot hb
      simp [h₀.outcomes] at hb
  have hinv : Inv (fun _ a => Parsed b a) c := by
    apply inv_of_reach hinv₀ hc
    intro c a ha
    cases a with
    | recv a => exact fun _ _ => ha
    | _ => trivial
  obtain ⟨rfl,hused⟩ := hinv.outcomes n used bot ho
  have hstep : ∀ a ∈ used, a.frame.step.isSome = true := by
    intro a ha
    obtain ⟨m,hm⟩ := hused a ha
    rw [hm]
    exact parse_step b m
  rw [ReplyContext.stores_iff,storableReply_iff hstep]

namespace Sample

def waitingSession : AgentSession where
  id := 1
  conversationId := 1
  agentId := 2
  state := .awaitingUser
  remoteSessionId := some "remote-session"
  startedAt := 0
  lastActivityAt := 0

/-- A reply to a session that waits for its user. -/
def replyContext : ReplyContext where
  sessions := .empty
  messages := .empty
  conn := 0
  now := 1
  messageId := 1
  seq := 2
  adapt _ := none
  session := waitingSession
  session_check := by decide
  remote := { flowName := "guest-mi-story", botRouteEnv := "BOT_ROUTE" }
  view := waitingSession.toSessionView
  finished := false
  conversation := { id := 1, tenantCode := "default", externalUserId := "user", createdAt := 0 }
  decision := { agent := none, reason := .pinned, confidence := 1 }
  agent := { id := 2, key := "story", name := "Story", spec := { key := "story", kind := .llm "model" } }

theorem replyContext_silent : replyContext.Stores silent := by
  have hview : ∀ k' u, ({} : Table Conn AgentSession).view 0 k' ≠ some u := by simp [Table.view,Row.view]
  have hview' : ∀ k' u, ({} : Table Conn Message).view 0 k' ≠ some u := by simp [Table.view,Row.view]
  refine ⟨⟨by decide,fun k' u _ hu => absurd hu (hview k' u)⟩,"",by decide,by decide,?_⟩
  intro k' u _ hu
  exact absurd hu (hview' k' u)

/-- `{"text": {"msg": "Hello", "source": "bot", "step": n, "finish_reason": "stop"}}`. -/
def stepMessage (n : String) : String :=
  s!"\x7b\"text\": \x7b\"msg\": \"Hello\", \"source\": \"bot\", \"step\": {n}, \"finish_reason\": \"stop\"\x7d\x7d"

def stepBuiltins (n : String) (k : ℤ) : Builtins := knowing (stepMessage n)
  (.obj [("text",.obj [("msg",.str "Hello"),("source",.str "bot"),("step",.num n),
    ("finish_reason",.str "stop")])])
  fun literal => if literal = n then some k else none

/-- The frame of the message. -/
def stepFrame (k : ℤ) : Channel.Frame where
  source := "bot"
  msg := "Hello"
  step := some k
  finishReason := some "stop"

/-- A text is sent, and the message is the reply. -/
def stepRun (k : ℤ) : List Act :=
  [.call (.str "A") 10 5,.go {},.go {},.recv ⟨stepFrame k,some 1⟩,.go {},.go {}]

/-- Only the message arrives. -/
def OnlyStep (k : ℤ) (_ : Chan) : Act → Prop
  | .recv a => a.frame = stepFrame k
  | _ => True

instance (k : ℤ) (c : Chan) : (a : Act) → Decidable (OnlyStep k c a)
  | .recv a => inferInstanceAs (Decidable (a.frame = stepFrame k))
  | .tick _ => isTrue trivial
  | .readerEnd _ => isTrue trivial
  | .close => isTrue trivial
  | .call .. => isTrue trivial
  | .go _ => isTrue trivial

/-- The turn that reads the message alone. -/
def stepTurn (k : ℤ) : BotTurn := { text := "Hello", step := some k }

theorem reach_step {n : String} {k : ℤ}
    (hparse : (parse (stepBuiltins n k) (.str (stepMessage n))).toFrame = stepFrame k)
    (h : ((run Chan.step (OnlyStep k) {} (stepRun k)).any fun c => c.outcomes.any fun
        | .returned _ used bot => decide (used = [⟨stepFrame k,some 1⟩]) && decide (bot = stepTurn k)
        | .raised .. => false) = true) :
    ∃ c m, Reach Chan.step (Wired (stepBuiltins n k)) {} c ∧
      Outcome.returned m [⟨stepFrame k,some 1⟩] (stepTurn k) ∈ c.outcomes := by
  obtain ⟨c,hc,ho⟩ := exists_reach_of_run h
  obtain ⟨o,hmem,ht⟩ := List.any_eq_true.mp ho
  cases o with
  | raised m e => cases ht
  | returned m used bot =>
    obtain ⟨rfl,rfl⟩ : used = [⟨stepFrame k,some 1⟩] ∧ bot = stepTurn k := by simpa using ht
    refine ⟨c,m,hc.mono ?_,hmem⟩
    intro c a ha
    cases a with
    | recv a => exact ⟨_,ha.trans hparse.symm⟩
    | _ => trivial

theorem opened (b : Builtins) : Opened b {} := ⟨rfl,rfl,by simp⟩

end Sample

/-- A reply with step 3 is stored. -/
theorem reply_stored_step : ∃ c m bot, Reach Chan.step (Wired (Sample.stepBuiltins "3" 3)) {} c ∧
    Outcome.returned m [⟨Sample.stepFrame 3,some 1⟩] bot ∈ c.outcomes ∧
      Sample.replyContext.Stores bot := by
  obtain ⟨c,m,hc,ho⟩ := Sample.reach_step (n := "3") (k := 3) (by decide +kernel) (by decide +kernel)
  have hstorable : StorableReply [⟨Sample.stepFrame 3,some 1⟩] := by
    refine ⟨?_,?_,?_⟩
    · intro a k ha hk
      obtain rfl : _ = a := by simpa using ha
      obtain rfl : 3 = k := by simpa [Sample.stepFrame] using hk
      simp [fitsStep]
    · simp [Sample.stepFrame,Text.hasNul]
    · simp [Sample.stepFrame,offering]
  have hiff := reply_stored_iff (Sample.opened _) hc ho Sample.replyContext
  exact ⟨c,m,_,hc,ho,hiff.mpr ⟨Sample.replyContext_silent,hstorable⟩⟩

/-- A reply with step -1 is not. -/
theorem negativeStep_not_stored : ∃ c m used bot,
    Reach Chan.step (Wired (Sample.stepBuiltins "-1" (-1))) {} c ∧
      Outcome.returned m used bot ∈ c.outcomes ∧
      Sample.replyContext.session.state = .awaitingUser ∧ Sample.replyContext.Stores silent ∧
      ¬ Sample.replyContext.Stores bot := by
  obtain ⟨c,m,hc,ho⟩ :=
    Sample.reach_step (n := "-1") (k := -1) (by decide +kernel) (by decide +kernel)
  refine ⟨c,m,_,_,hc,ho,rfl,Sample.replyContext_silent,?_⟩
  intro h
  exact absurd h.session.check (by decide)

end Saarathi
