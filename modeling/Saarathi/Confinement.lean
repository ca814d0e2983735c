import Saarathi.Lasting
import Saarathi.Ownership
import Saarathi.Visibility

/-!
# What a request may name

A request looks conversations up by its caller, and every conversation, session
and channel that it names after that comes from what it has found. So whatever
the others do meanwhile, it names only what is its caller's.
-/

namespace Saarathi

open Machine Program Program.Prog Interleaving ReadCommitted

namespace Op

/-- The conversation that a call names. -/
def names : Op → Option ConversationId
  | .stmt s => s.names
  | .acquire c _ => some c
  | .popChannel c => some c
  | .routerModel c => some c
  | .llmHandle c _ => some c
  | .handleBegin c _ => some c
  | .handleEnd c => some c
  | _ => none

/-- The session that a call changes, tells Mitra the end of or runs a handler on. -/
def ofSession : Op → Option SessionId
  | .stmt s => s.ofSession
  | .finalize story => some story.session
  | .handleBegin _ run => run.session
  | _ => none

def onBehalf : Op → Option UserContext
  | .stmt s => s.onBehalf
  | _ => none

def sweeps : Op → Bool
  | .stmt s => s.sweeps
  | _ => false

def sendsOn : Op → Option ChannelId
  | .sendAndAwaitTurn i .. => some i
  | _ => none

/-- The channel that a call has yielded, and the conversation that it is of. -/
def acquired : (o : Op) → Except Exn o.Ans → Option (ConversationId × ChannelId)
  | .acquire c _,.ok i => some (c,i)
  | _,_ => none

/-- What a call names is of users of `P`: the conversation, the session and the caller that it is made
for. A text is sent on the channel that the request has got for such a conversation. -/
structure Stays (P : Owner → Prop) (x : Conn) (w : World) (o : Op) : Prop where
  conversation : ∀ c, o.names = some c → w.db.Owns P c
  session : ∀ k, o.ofSession = some k → w.db.OwnsSession P k
  user : ∀ u, o.onBehalf = some u → P u.owner
  sweep : o.sweeps = false
  channel : ∀ i, o.sendsOn = some i → ∃ c, w.lastRead x acquired = some (c,i) ∧ w.db.Owns P c

theorem Stays.stmt {P : Owner → Prop} {x : Conn} {w : World} {o : Op} (h : o.Stays P x w) {s : Stmt}
    (hs : o = .stmt s) : s.Stays P w.db := by
  subst hs
  exact ⟨h.conversation,h.session,h.user,h.sweep⟩

end Op

/-- A call that names no conversation but `c` and no session but `k`, and is made for nobody. -/
structure Op.Concerns (c : ConversationId) (k : Option SessionId) (o : Op) : Prop where
  names : o.names = some c ∨ o.names = none
  ofSession : o.ofSession = k ∨ o.ofSession = none
  onBehalf : o.onBehalf = none
  sweeps : o.sweeps = false
  sendsOn : o.sendsOn = none

/-- Every call of the program concerns the conversation and the session only. -/
def Concerns {α : Type} (c : ConversationId) (k : Option SessionId) (p : Proc α) : Prop :=
  All (Op.Concerns c k) p

namespace Concerns

variable {α β : Type} {c : ConversationId} {k : Option SessionId} {p : Proc α} {o : Op}

theorem bind {f : α → Proc β} (hp : Concerns c k p) (hf : ∀ a, Concerns c k (f a)) : Concerns c k (p >>= f) :=
  All.bind hp hf

theorem attempt (hp : Concerns c k p) : Concerns c k p.attempt := All.attempt hp

theorem pure (a : α) : Concerns c k (Pure.pure a : Proc α) := True.intro

theorem throw (e : Exn) : Concerns c k (MonadExcept.throw e : Proc α) := True.intro

theorem named (h : o.names = some c) (hk : o.ofSession = none) (hb : o.onBehalf = none) (hs : o.sweeps = false)
    (hc : o.sendsOn = none) : Concerns c k (perform o) :=
  (all_perform o).mpr ⟨.inl h,.inr hk,hb,hs,hc⟩

theorem nameless (h : o.names = none) (hk : o.ofSession = none) (hb : o.onBehalf = none) (hs : o.sweeps = false)
    (hc : o.sendsOn = none) : Concerns c k (perform o) :=
  (all_perform o).mpr ⟨.inr h,.inr hk,hb,hs,hc⟩

theorem branch {b : Prop} [Decidable b] {q : Proc α} (hp : Concerns c k p) (hq : Concerns c k q) :
    Concerns c k (if b then p else q) := by
  split
  · exact hp
  · exact hq

theorem mono (h : Concerns c none p) : Concerns c k p :=
  All.mono h fun _ ho => ⟨ho.names,.inr (ho.ofSession.elim id id),ho.onBehalf,ho.sweeps,ho.sendsOn⟩

/-- A program that makes no call. -/
theorem silent (h : Within [] p) : Concerns c k p := All.mono h fun _ ho => by cases ho

theorem scalarOneOrNone (l : List α) : Concerns c k (Saarathi.scalarOneOrNone l) :=
  silent (Within.scalarOneOrNone l)

theorem scalarOne (l : List α) : Concerns c k (Saarathi.scalarOne l) := silent (Within.scalarOne l)

end Concerns

section Programs

variable {c : ConversationId} {k : Option SessionId} {d : Deployment}

theorem AgentSessionRepository.getOpenForConversation_concerns :
    Concerns c k (getOpenForConversation c) :=
  Concerns.bind (.named rfl rfl rfl rfl rfl) fun _ => .scalarOneOrNone _

theorem ConversationRepository.nextSeqForUpdate_concerns : Concerns c k (nextSeqForUpdate c) :=
  Concerns.bind (.named rfl rfl rfl rfl rfl) fun _ => .scalarOne _

theorem MessageRepository.recent_concerns (limit : ℕ) : Concerns c k (recent c limit) :=
  Concerns.branch trivial (.named rfl rfl rfl rfl rfl)

theorem ToolExecutionRepository.bulkInsert_concerns (id : ℕ) (agent : AgentId) (ts : List ToolTrace) :
    Concerns c k (bulkInsert id agent ts) := by
  have hcheck : Concerns c k (checkTraces ts) := by
    induction ts with
    | nil => trivial
    | cons t ts ih => exact Concerns.branch trivial ih
  exact Concerns.branch trivial (Concerns.bind hcheck fun _ => .nameless rfl rfl rfl rfl rfl)

theorem snapshot_concerns : Concerns c k snapshot := .nameless rfl rfl rfl rfl rfl

namespace RouterService

variable {conv : Conversation}

theorem pinFor_concerns : Concerns conv.id k (pinFor conv) := by
  refine Concerns.bind ?_ fun pinned => ?_
  · split
    · exact Concerns.bind snapshot_concerns fun _ => trivial
    · trivial
  cases pinned with
  | some agent => trivial
  | none =>
    refine Concerns.bind AgentSessionRepository.getOpenForConversation_concerns ?_
    rintro (_ | session)
    · trivial
    · exact Concerns.bind snapshot_concerns fun _ => trivial

theorem modelRoute_concerns : Concerns c k (modelRoute d c) := by
  refine Concerns.bind (Concerns.attempt (.named rfl rfl rfl rfl rfl)) ?_
  rintro (e | _ | ⟨key,confidence⟩)
  · trivial
  · trivial
  refine Concerns.bind snapshot_concerns fun r => ?_
  split
  · trivial
  · exact Concerns.branch trivial trivial

theorem selectFree_concerns (inp : TurnInput) : Concerns conv.id k (selectFree d conv inp) := by
  refine Concerns.bind snapshot_concerns fun r => ?_
  refine Concerns.bind (Concerns.branch trivial ?_) fun hits => ?_
  · exact Concerns.bind (.silent (textOnly_calls _).within) fun _ => trivial
  split
  · trivial
  refine Concerns.bind modelRoute_concerns ?_
  rintro (_ | decision)
  · exact Concerns.bind snapshot_concerns fun _ => trivial
  · trivial

end RouterService

theorem AgentRegistry.resolveForScope_concerns (agent : RegisteredAgent) (tenant organization : String) :
    Concerns c k (resolveForScope agent tenant organization) := by
  refine Concerns.branch trivial ?_
  refine Concerns.bind (.nameless rfl rfl rfl rfl rfl) ?_
  rintro ⟨version,_ | resolved⟩
  · refine Concerns.bind (Concerns.attempt (Concerns.bind (.nameless rfl rfl rfl rfl rfl) ?_)) ?_
    · rintro (_ | ⟨checksum,_ | spec⟩) <;> trivial
    · rintro (e | resolved)
      · trivial
      · exact Concerns.bind (.nameless rfl rfl rfl rfl rfl) fun _ => trivial
  · trivial

theorem RemoteFlowAgentHandler.remoteSession_concerns (remote : RemoteSpec) (user : UserContext)
    (session : AgentSessionView) : Concerns c k (remoteSession remote user session) := by
  have hresolve : ∀ name, Concerns c k (resolveEnv name) := by
    intro name
    refine Concerns.bind (.nameless rfl rfl rfl rfl rfl) ?_
    rintro (_ | value)
    · trivial
    · exact Concerns.branch trivial trivial
  refine Concerns.bind (hresolve _) fun botRoute => ?_
  split
  · refine Concerns.bind (hresolve _) fun company => ?_
    refine Concerns.bind (.nameless rfl rfl rfl rfl rfl) fun profileId => ?_
    exact Concerns.bind (.nameless rfl rfl rfl rfl rfl) fun remoteSid => trivial
  · trivial

namespace OrchestrationService

variable {conv : Conversation}

theorem conversationTitle_concerns (j : Json) : Concerns c k (conversationTitle j) :=
  .silent (conversationTitle_calls j).within

theorem agentFallbackTitle_concerns (agent : RegisteredAgent) : Concerns c k (agentFallbackTitle agent) := by
  refine Concerns.bind (.nameless rfl rfl rfl rfl rfl) fun today => ?_
  refine Concerns.bind (conversationTitle_concerns _) fun title => ?_
  split <;> trivial

theorem checkRateLimits_concerns (limits : LimitsSpec) : Concerns c k (checkRateLimits c limits) := by
  refine Concerns.bind ?_ fun _ => ?_
  · unfold checkMaxTurns
    split
    · trivial
    refine Concerns.branch trivial (Concerns.bind AgentSessionRepository.getOpenForConversation_concerns ?_)
    rintro (_ | session)
    · trivial
    · exact Concerns.branch trivial trivial
  · refine Concerns.branch trivial (Concerns.bind (.named rfl rfl rfl rfl rfl) fun recent => ?_)
    exact Concerns.branch trivial trivial

theorem tryLockConversation_concerns (c' : ConversationId) : Concerns c k (tryLockConversation d c') :=
  .nameless rfl rfl rfl rfl rfl

theorem unlockConversation_concerns (c' : ConversationId) : Concerns c k (unlockConversation d c') :=
  Concerns.bind (Concerns.attempt (.nameless rfl rfl rfl rfl rfl)) fun _ => trivial

theorem closeRemoteChannel_concerns : Concerns c k (closeRemoteChannel d c) :=
  Concerns.branch (Concerns.bind (.named rfl rfl rfl rfl rfl) fun _ => trivial) trivial

theorem reconcileTurn_concerns (agent : RegisteredAgent) (session : Option AgentSession) (sentText : Json) :
    Concerns c k (reconcileTurn d agent session sentText) := by
  unfold reconcileTurn
  split
  · split
    · refine Concerns.branch trivial ?_
      refine Concerns.bind (.nameless rfl rfl rfl rfl rfl) fun rows => ?_
      exact Concerns.bind (.silent (RouterService.textOr_calls _).within) fun _ => trivial
    · trivial
  · trivial

theorem recoverTimedOutTurn_concerns (agent : RegisteredAgent) (session : Option AgentSession) (sentText : Json) :
    Concerns c k (recoverTimedOutTurn d agent session sentText) := by
  refine Concerns.bind (Concerns.attempt (reconcileTurn_concerns agent session sentText)) ?_
  rintro (e | _ | result)
  · trivial
  · trivial
  dsimp only
  split
  · refine Concerns.bind (Concerns.branch ?_ trivial) fun _ => trivial
    refine Concerns.bind (Concerns.attempt (.nameless rfl rfl rfl rfl rfl)) ?_
    rintro (e | finished) <;> trivial
  · trivial

theorem fetchReport_concerns (claimed : AgentSession) (remote : RemoteSpec) :
    Concerns c k (fetchReport claimed remote) := by
  refine Concerns.bind (Concerns.attempt (.nameless rfl rfl rfl rfl rfl)) ?_
  rintro (e | url)
  · exact Concerns.branch trivial trivial
  · trivial

theorem recordUserMessage_concerns (inp : TurnInput) : Concerns conv.id k (recordUserMessage inp conv) := by
  refine Concerns.bind ConversationRepository.nextSeqForUpdate_concerns fun seq => ?_
  refine Concerns.bind (.named rfl rfl rfl rfl rfl) fun _ => ?_
  refine Concerns.branch (.named rfl rfl rfl rfl rfl) ?_
  refine Concerns.bind (conversationTitle_concerns _) fun title => ?_
  refine Concerns.bind (.named rfl rfl rfl rfl rfl) fun _ => ?_
  exact Concerns.bind (conversationTitle_concerns _) fun title => .named rfl rfl rfl rfl rfl

theorem routerHistory_concerns : Concerns conv.id k (routerHistory conv) := by
  refine Concerns.bind snapshot_concerns fun r => ?_
  split
  · exact MessageRepository.recent_concerns _
  · trivial

/-- The reply is stored with the session of the turn. -/
theorem storeReply_concerns (inp : TurnInput) (decision : RouteDecision) (agent : RegisteredAgent)
    (turn : AgentTurn) (session : Option AgentSession) :
    Concerns conv.id (session.map (·.id)) (storeReply inp conv decision agent turn session) := by
  refine Concerns.bind ConversationRepository.nextSeqForUpdate_concerns fun seq => ?_
  refine Concerns.bind ((all_perform _).mpr ⟨.inl rfl,.inl rfl,rfl,rfl,rfl⟩) fun id => ?_
  refine Concerns.bind (Concerns.branch (ToolExecutionRepository.bulkInsert_concerns ..) trivial) fun _ => ?_
  refine Concerns.branch ?_ ?_
  · refine Concerns.bind (.named rfl rfl rfl rfl rfl) fun _ => ?_
    exact Concerns.bind (agentFallbackTitle_concerns agent) fun title => .named rfl rfl rfl rfl rfl
  · exact Concerns.bind (conversationTitle_concerns _) fun title => .named rfl rfl rfl rfl rfl

end OrchestrationService

end Programs

namespace Confinement

variable {d : Deployment} {P : Owner → Prop} {x y : Conn} {w w' : World} {α β : Type}

/-- What is known about whose a row is stays so, and so do the rows that `x` has written. -/
structure Up (P : Owner → Prop) (x : Conn) (w w' : World) : Prop where
  steady : w.db.Steady P w'.db
  writes : w.db.OwnWrites P x → w'.db.OwnWrites P x

/-- What the others may do. -/
structure Aside (P : Owner → Prop) (x : Conn) (w w' : World) : Prop extends Up P x w w' where
  events : w'.events x = w.events x

/-- What a call of `x` does. -/
structure Answered (d : Deployment) (P : Owner → Prop) (x : Conn) (o : Op) (w : World) (r : Except Exn o.Ans)
    (w' : World) : Prop where
  attributed : w.db.Attributed
  exec : ∃ ch, w.exec d x o ch = some (r,w')
  writes : w'.db.OwnWrites P x

def spec (d : Deployment) (P : Owner → Prop) (x : Conn) : Spec Op Op.Ans Exn World where
  pre o w := o.Stays P x w ∧ w.db.OwnWrites P x
  post := Answered d P x
  rely := Aside P x

theorem Up.of_db (h : w'.db = w.db) : Up P x w w' := by
  refine ⟨?_,?_⟩
  · rw [h]
    exact .refl
  · rw [h]
    exact id

theorem Up.trans {w'' : World} (h₁ : Up P x w w') (h₂ : Up P x w' w'') : Up P x w w'' :=
  ⟨h₁.steady.trans h₂.steady,fun h => h₂.writes (h₁.writes h)⟩

namespace Answered

variable {o : Op} {r : Except Exn o.Ans}

theorem move (h : Answered d P x o w r w') : DbMove d.adapt x w.db o r w'.db := by
  obtain ⟨ch,he⟩ := h.exec
  exact World.dbMove_of_exec he

theorem up (h : Answered d P x o w r w') : Up P x w w' := ⟨h.move.steady,fun _ => h.writes⟩

theorem attributed' (h : Answered d P x o w r w') : w'.db.Attributed := h.move.attributed h.attributed

theorem sure (h : Answered d P x o w r w') (ho : o.sure = true) : ∃ a, r = .ok a := by
  obtain ⟨ch,he⟩ := h.exec
  obtain ⟨done,w₁,hp,-⟩ := World.performed_of_exec he
  exact hp.sure ho

theorem lastRead (h : Answered d P x o w r w') {β : Type} (f : (o : Op) → Except Exn o.Ans → Option β) :
    w'.lastRead x f = (f o r).or (w.lastRead x f) := by
  obtain ⟨ch,he⟩ := h.exec
  obtain ⟨done,w₁,hp,rfl⟩ := World.performed_of_exec he
  rw [World.lastRead_record,World.lastRead,hp.events,World.lastRead]

theorem effect {s : Stmt} {a : s.Ans} (h : Answered d P x (.stmt s) w (.ok a) w') :
    ∃ p, s.effect d.adapt w.db x p = .ok (a,w'.db) := by
  obtain ⟨ch,he⟩ := h.exec
  obtain ⟨p,-,-,heffect⟩ := World.effect_of_exec he
  exact ⟨p,heffect⟩

end Answered

theorem rises : (spec d P x).Rises (Up P x) := ⟨fun _ _ h => h.toUp,fun _ _ _ _ _ h => h.up⟩

/-- The request has written only rows of users of `P`. -/
abbrev Own (P : Owner → Prop) (x : Conn) (w : World) : Prop := w.db.OwnWrites P x

/-- The request has found a conversation of such a user. -/
abbrev Found (P : Owner → Prop) (x : Conn) (c : ConversationId) (w : World) : Prop := Own P x w ∧ w.db.Owns P c

/-- It holds a session of the conversation. -/
abbrev Holding (P : Owner → Prop) (x : Conn) (s : AgentSession) (w : World) : Prop :=
  Found P x s.conversationId w ∧ w.db.InConversation s.conversationId s.id

theorem lasting_own : Lasting (Up P x) (Own P x) := fun _ _ h hu => hu.writes h

theorem lasting_owns {c : ConversationId} : Lasting (Up P x) fun w => w.db.Owns P c :=
  fun _ _ h hu => hu.steady.owns c h

theorem lasting_inConversation {c : ConversationId} {k : SessionId} :
    Lasting (Up P x) fun w => w.db.InConversation c k := fun _ _ h hu => hu.steady.inConversation c k h

theorem lasting_found {c : ConversationId} : Lasting (Up P x) (Found P x c) := lasting_own.and lasting_owns

theorem lasting_holding {s : AgentSession} : Lasting (Up P x) (Holding P x s) :=
  lasting_found.and lasting_inConversation

end Confinement

end Saarathi
