import Saarathi.Attributes
import Saarathi.Lifecycle
import Saarathi.MessageNumbers

/-!
# Whose rows they are

A conversation belongs to one user of one tenant, a session and a message to one
conversation, and no statement changes that. A statement that names only
conversations and sessions of some users writes only their rows.
-/

namespace Saarathi

open ReadCommitted

/-- A tenant and a user in it. -/
abbrev Owner := String × String

def Conversation.owner (c : Conversation) : Owner := (c.tenantCode,c.externalUserId)

def UserContext.owner (u : UserContext) : Owner := (u.tenantCode,u.userId)

theorem Conversation.belongsTo_iff {c : Conversation} {u : UserContext} :
    c.belongsTo u = true ↔ c.owner = u.owner := by
  simp [belongsTo,owner,UserContext.owner]

namespace Stmt

variable {p : Pick} {s : Stmt} {k : ℕ}

theorem ConversationStep.owner {u v : Conversation} (h : s.ConversationStep p k (some u) v) :
    v.owner = u.owner := by
  rcases h with ⟨user,-,hn,-⟩ | ⟨u',hu,-,-,ht,he,-⟩
  · cases hn
  · obtain rfl := Option.some.inj hu
    rw [Conversation.owner,ht,he]
    rfl

theorem SessionStep.conversation {u v : AgentSession} (h : s.SessionStep p k (some u) v) :
    v.conversationId = u.conversationId ∧ v.id = u.id := by
  cases s with
  | createPending c agent language => cases h.1
  | updateStateAndFields id expected new fields =>
    obtain ⟨u',hu,-,-,rfl⟩ := h
    obtain rfl := Option.some.inj hu
    exact ⟨rfl,rfl⟩
  | claimFinalizing id =>
    obtain ⟨u',hu,-,-,rfl⟩ := h
    obtain rfl := Option.some.inj hu
    exact ⟨rfl,rfl⟩
  | abandonOpenSession c reason =>
    obtain ⟨u',hu,-,-,rfl⟩ := h
    obtain rfl := Option.some.inj hu
    exact ⟨rfl,rfl⟩
  | sweepAbandonedOlderThan cutoff reason =>
    obtain ⟨u',hu,-,-,rfl⟩ := h
    obtain rfl := Option.some.inj hu
    exact ⟨rfl,rfl⟩
  | _ => exact h.elim

theorem SessionStep.id_of_create {v : AgentSession} (h : s.SessionStep p k none v) : v.id = k := by
  cases s with
  | createPending c agent language => exact congrArg AgentSession.id h.2
  | updateStateAndFields id expected new fields => obtain ⟨u,hu,-⟩ := h; cases hu
  | claimFinalizing id => obtain ⟨u,hu,-⟩ := h; cases hu
  | abandonOpenSession c reason => obtain ⟨u,hu,-⟩ := h; cases hu
  | sweepAbandonedOlderThan cutoff reason => obtain ⟨u,hu,-⟩ := h; cases hu
  | _ => exact h.elim

theorem not_sessionStep_none (hs : ∀ c agent language, s ≠ .createPending c agent language)
    (v : AgentSession) : ¬ s.SessionStep p k none v := by
  cases s with
  | createPending c agent language => exact absurd rfl (hs c agent language)
  | updateStateAndFields id expected new fields => rintro ⟨u,hu,-⟩; cases hu
  | claimFinalizing id => rintro ⟨u,hu,-⟩; cases hu
  | abandonOpenSession c reason => rintro ⟨u,hu,-⟩; cases hu
  | sweepAbandonedOlderThan cutoff reason => rintro ⟨u,hu,-⟩; cases hu
  | _ => exact fun h => h

theorem not_conversationStep_none (hs : ∀ user, s ≠ .createConversation user) (v : Conversation) :
    ¬ s.ConversationStep p k none v := by
  rintro (⟨user,rfl,-⟩ | ⟨u,hu,-⟩)
  · exact hs user rfl
  · cases hu

end Stmt

section Moves

variable {adapt : Json → Option String} {db db' : Database} {x : Conn} {o : Op} {r : Except Exn o.Ans}

/-- The session rows that a call writes. -/
def Op.SessionStep (o : Op) (k : ℕ) (u : Option AgentSession) (v : AgentSession) : Prop :=
  ∃ s p, o = .stmt s ∧ s.SessionStep p k u v

/-- The conversation rows that a call writes. -/
def Op.ConversationStep (o : Op) (k : ℕ) (u : Option Conversation) (v : Conversation) : Prop :=
  ∃ s p, o = .stmt s ∧ s.ConversationStep p k u v

/-- The message rows that a call writes. -/
def Op.MessageStep (o : Op) (k : ℕ) (u : Option Message) (v : Message) : Prop :=
  ∃ s, o = .stmt s ∧ s.MessageStep k u v

namespace DbMove

theorem sessions_alter (h : DbMove adapt x db o r db') :
    Table.Alters o.SessionStep x db.sessions db'.sessions := by
  cases h with
  | @stmt s p a db' htx he =>
    by_cases hc : ∃ c agent language, s = .createPending c agent language
    · obtain ⟨c,agent,language,rfl⟩ := hc
      obtain ⟨t,ht,rfl⟩ := Database.onSessions_ok he
      obtain ⟨-,hid,hw⟩ := Database.insertRow_ok ht
      obtain ⟨rfl,hwritable⟩ := Table.write_ok hw
      exact .of_insert hid hwritable ⟨_,p,rfl,rfl,rfl⟩
    · have honce := (Stmt.frame_of_effect s he).sessions
      refine .of_once (honce.mono fun k u v hv => ⟨s,p,rfl,hv⟩) ?_
      rintro k v ⟨s',p',hs,hv⟩
      obtain rfl := Op.stmt.inj hs
      exact Stmt.not_sessionStep_none (fun c agent language hcreate => hc ⟨c,agent,language,hcreate⟩) v hv
  | commit htx => exact .commit
  | refused htx => exact .refl
  | commitRefused htx => exact .refl
  | other hs hc hr => exact .refl
  | _ => exact .rollback

theorem conversations_alter (h : DbMove adapt x db o r db') :
    Table.Alters o.ConversationStep x db.conversations db'.conversations := by
  cases h with
  | @stmt s p a db' htx he =>
    by_cases hc : ∃ user, s = .createConversation user
    · obtain ⟨user,rfl⟩ := hc
      obtain ⟨t,ht,rfl⟩ := Database.onConversations_ok he
      obtain ⟨-,hid,hw⟩ := Database.insertRow_ok ht
      obtain ⟨rfl,hwritable⟩ := Table.write_ok hw
      exact .of_insert hid hwritable ⟨_,p,rfl,.inl ⟨user,rfl,rfl,rfl⟩⟩
    · have honce := (Stmt.frame_of_effect s he).conversations
      refine .of_once (honce.mono fun k u v hv => ⟨s,p,rfl,hv⟩) ?_
      rintro k v ⟨s',p',hs,hv⟩
      obtain rfl := Op.stmt.inj hs
      exact Stmt.not_conversationStep_none (fun user hcreate => hc ⟨user,hcreate⟩) v hv
  | commit htx => exact .commit
  | refused htx => exact .refl
  | commitRefused htx => exact .refl
  | other hs hc hr => exact .refl
  | _ => exact .rollback

theorem messages_alter (h : DbMove adapt x db o r db') :
    Table.Alters o.MessageStep x db.messages db'.messages := by
  cases h with
  | @stmt s p a db' htx he =>
    by_cases hc : ∃ m, s = .insertMessage m
    · obtain ⟨m,rfl⟩ := hc
      simp only [Stmt.effect] at he
      split at he
      · cases he
      · obtain ⟨t,ht,rfl⟩ := Database.onMessages_ok he
        obtain ⟨-,hid,hw⟩ := Database.insertRow_ok ht
        obtain ⟨rfl,hwritable⟩ := Table.write_ok hw
        exact .of_insert hid hwritable ⟨_,rfl,rfl,rfl,rfl⟩
    · have honce := (Stmt.frame_of_effect s he).messages
      refine .of_once (honce.mono fun k u v hv => ⟨s,rfl,hv⟩) ?_
      rintro k v ⟨s',hs,hv⟩
      obtain rfl := Op.stmt.inj hs
      exact hc ⟨_,hv.1⟩
  | commit htx => exact .commit
  | refused htx => exact .refl
  | commitRefused htx => exact .refl
  | other hs hc hr => exact .refl
  | _ => exact .rollback

end DbMove

end Moves

/-- Rows are stored under their id, and the versions of a row agree on whose it is. -/
structure Database.Attributed (db : Database) : Prop where
  conversationKey : db.conversations.Under (·.id)
  conversationOwner : db.conversations.Fixed Conversation.owner
  sessionKey : db.sessions.Under (·.id)
  sessionConversation : db.sessions.Fixed (·.conversationId)
  messageConversation : db.messages.Fixed (·.new.conversationId)

namespace Database

variable (P : Owner → Prop) (db : Database) (x : Conn)

/-- The conversation exists, and its user is one of `P`. -/
def Owns (c : ConversationId) : Prop := db.conversations.Every (fun v => P v.owner) c

/-- The session exists, and it is one of the conversation. -/
def InConversation (c : ConversationId) (k : SessionId) : Prop :=
  db.sessions.Every (fun v => v.conversationId = c) k

/-- The session exists, in a conversation of a user of `P`. -/
def OwnsSession (k : SessionId) : Prop := ∃ c, db.InConversation c k ∧ db.Owns P c

/-- What `x` has written and not committed are rows of users of `P`. -/
structure OwnWrites : Prop where
  conversation : ∀ k v, (db.conversations.row k).dirty = some (x,v) → db.Owns P k
  session : ∀ k v, (db.sessions.row k).dirty = some (x,v) → db.OwnsSession P k
  message : ∀ k v, (db.messages.row k).dirty = some (x,v) → db.Owns P v.new.conversationId

/-- What is known about whose a row is stays so. -/
structure Steady (db db' : Database) : Prop where
  owns : ∀ c, db.Owns P c → db'.Owns P c
  inConversation : ∀ c k, db.InConversation c k → db'.InConversation c k

variable {P db x} {db' db'' : Database}

theorem Steady.session (h : Steady P db db') {k : SessionId} (hk : db.OwnsSession P k) : db'.OwnsSession P k := by
  obtain ⟨c,hin,hc⟩ := hk
  exact ⟨c,h.inConversation c k hin,h.owns c hc⟩

theorem Steady.refl : Steady P db db := ⟨fun _ h => h,fun _ _ h => h⟩

theorem Steady.trans (h₁ : Steady P db db') (h₂ : Steady P db' db'') : Steady P db db'' :=
  ⟨fun c h => h₂.owns c (h₁.owns c h),fun c k h => h₂.inConversation c k (h₁.inConversation c k h)⟩

/-- A table in which no transaction is open. -/
theorem fixed_of_clean {V A : Type} {f : V → A} {t : Table Conn V} (h : ∀ k, (t.row k).dirty = none) :
    t.Fixed f := by
  have hcommitted : ∀ k v, t.Version k v → t.committed k = some v := by
    rintro k v (hv | ⟨y,hv⟩)
    · exact hv
    · rw [h k] at hv
      cases hv
  intro k u v hu hv
  rw [Option.some.inj ((hcommitted k u hu).symm.trans (hcommitted k v hv))]

theorem under_of_settled {V : Type} {K : Constraints V} {f : V → ℕ} {t : Table Conn V}
    (h : t.Settled K fun k v => f v = k) : t.Under f := by
  rintro k v (hv | ⟨y,hv⟩)
  · exact (h.row k v hv).2
  · rw [h.clean k] at hv
    cases hv

theorem attributed_of_settled (hconv : db.conversations.Settled Conversation.constraints Conversation.Keyed)
    (hs : db.sessions.Settled AgentSession.constraints AgentSession.Keyed)
    (hm : ∀ k, (db.messages.row k).dirty = none) : db.Attributed where
  conversationKey := under_of_settled hconv
  conversationOwner := fixed_of_clean hconv.clean
  sessionKey := under_of_settled hs
  sessionConversation := fixed_of_clean hs.clean
  messageConversation := fixed_of_clean hm

theorem Attributed.owns (h : db.Attributed) {k : ConversationId} {v : Conversation}
    (hv : db.conversations.Version k v) (hP : P v.owner) : db.Owns P k :=
  (h.conversationOwner.every hv).mono fun _ hu => hu.symm ▸ hP

theorem Attributed.inConversation (h : db.Attributed) {k : SessionId} {v : AgentSession}
    (hv : db.sessions.Version k v) : db.InConversation v.conversationId k :=
  h.sessionConversation.every hv

end Database

namespace Stmt

/-- The conversation that a statement names. -/
def names : Stmt → Option ConversationId
  | .getOpenForConversation c => some c
  | .createPending c .. => some c
  | .abandonOpenSession c _ => some c
  | .nextSeqForUpdate c => some c
  | .touch c _ => some c
  | .setPlaceholderTitle c _ => some c
  | .replacePlaceholderTitle c _ => some c
  | .pin c _ => some c
  | .unpin c => some c
  | .insertMessage m => some m.conversationId
  | .recent c _ => some c
  | .lastUserContent c => some c
  | .countRecentUser c => some c
  | .flowPayload c => some c
  | _ => none

/-- The session that a statement changes, or that the row it inserts is about. -/
def ofSession : Stmt → Option SessionId
  | .updateStateAndFields id .. => some id
  | .claimFinalizing id => some id
  | .auditInsert _ id _ _ => some id
  | .insertMessage m => m.agentSessionId
  | _ => none

/-- The user whose conversations a statement looks for, or for whom it creates one. -/
def onBehalf : Stmt → Option UserContext
  | .getScoped _ user => some user
  | .latestActive user => some user
  | .newestListed user => some user
  | .findEmptyForUser user => some user
  | .createConversation user => some user
  | _ => none

/-- A statement about everybody's sessions. -/
def sweeps : Stmt → Bool
  | .sweepAbandonedOlderThan .. => true
  | _ => false

/-- What a statement names is of users of `P`. -/
structure Stays (P : Owner → Prop) (db : Database) (s : Stmt) : Prop where
  conversation : ∀ c, s.names = some c → db.Owns P c
  session : ∀ k, s.ofSession = some k → db.OwnsSession P k
  user : ∀ u, s.onBehalf = some u → P u.owner
  sweep : s.sweeps = false

theorem names_of_conversation {s : Stmt} {c : ConversationId} (h : s.conversation = some c) : s.names = some c := by
  cases s with
  | nextSeqForUpdate c' => exact h
  | touch c' titleFrom => exact h
  | setPlaceholderTitle c' title => exact h
  | replacePlaceholderTitle c' title => exact h
  | pin c' agent => exact h
  | unpin c' => exact h
  | _ => cases h

end Stmt

namespace DbMove

variable {P : Owner → Prop} {adapt : Json → Option String} {db db' : Database} {x y : Conn} {o : Op}
  {r : Except Exn o.Ans}

theorem steady (h : DbMove adapt x db o r db') : db.Steady P db' where
  owns c hc := by
    refine h.conversations_alter.every ?_ hc
    rintro u v ⟨s,p,-,hstep⟩ hu
    rwa [hstep.owner]
  inConversation c k hk := by
    refine h.sessions_alter.every ?_ hk
    rintro u v ⟨s,p,-,hstep⟩ hu
    exact hstep.conversation.1.trans hu

theorem attributed (h : DbMove adapt x db o r db') (ha : db.Attributed) : db'.Attributed where
  conversationKey := by
    refine h.conversations_alter.under ?_ ?_ ha.conversationKey
    · rintro k v ⟨s,p,-,hstep⟩
      exact hstep.keepsId
    · rintro k u v ⟨s,p,-,hstep⟩
      exact hstep.keepsId
  conversationOwner := by
    refine h.conversations_alter.fixed ?_ ha.conversationOwner
    rintro k u v ⟨s,p,-,hstep⟩
    exact hstep.owner
  sessionKey := by
    refine h.sessions_alter.under ?_ ?_ ha.sessionKey
    · rintro k v ⟨s,p,-,hstep⟩
      exact hstep.id_of_create
    · rintro k u v ⟨s,p,-,hstep⟩
      exact hstep.conversation.2
  sessionConversation := by
    refine h.sessions_alter.fixed ?_ ha.sessionConversation
    rintro k u v ⟨s,p,-,hstep⟩
    exact hstep.conversation.1
  messageConversation := by
    refine h.messages_alter.fixed ?_ ha.messageConversation
    rintro k u v ⟨s,-,-,hnone,-⟩
    cases hnone

/-- The calls of others leave the rows that `x` has written. -/
theorem ownWrites_of_ne (h : DbMove adapt y db o r db') (hy : y ≠ x) (hw : db.OwnWrites P x) :
    db'.OwnWrites P x where
  conversation k v hd :=
    h.steady.owns k (hw.conversation k v (((h.conversations_alter.row k).dirty_of_ne hy.symm).mp hd))
  session k v hd :=
    h.steady.session (hw.session k v (((h.sessions_alter.row k).dirty_of_ne hy.symm).mp hd))
  message k v hd :=
    h.steady.owns _ (hw.message k v (((h.messages_alter.row k).dirty_of_ne hy.symm).mp hd))

section Own

variable (h : DbMove adapt x db o r db') (ha : db.Attributed) (hs : ∀ s, o = .stmt s → s.Stays P db)
  (hw : db.OwnWrites P x)

include h ha hs hw

/-- A conversation that a call changes is one of a user of `P`. -/
theorem conversation_changed {k : ConversationId} (hne : db'.conversations.row k ≠ db.conversations.row k) :
    ∀ v, db.conversations.Version k v ∨ db'.conversations.Version k v → P v.owner := by
  refine h.conversations_alter.changed (f := Conversation.owner) ?_ ha.conversationOwner hne ?_ ?_
  · rintro k u v ⟨s,p,-,hstep⟩
    exact hstep.owner
  · exact fun v hd => (hw.conversation k v hd).2 v (.inr ⟨x,hd⟩)
  · rintro v ⟨s,p,ho,hstep⟩
    rcases hstep with ⟨user,rfl,-,rfl⟩ | ⟨u,hu,hc,-,ht,he,-⟩
    · exact (hs _ ho).user user rfl
    · have hold : db.conversations.Version k u := Table.version_of_view hu
      have hkey : u.id = k := ha.conversationKey k u hold
      have howns := (hs s ho).conversation u.id (Stmt.names_of_conversation hc)
      rw [hkey] at howns
      have howner : v.owner = u.owner := by rw [Conversation.owner,ht,he]; rfl
      rw [howner]
      exact howns.2 u hold

/-- A session that a call changes is in a conversation of a user of `P`. -/
theorem session_changed {k : SessionId} (hne : db'.sessions.row k ≠ db.sessions.row k) :
    ∀ v, db.sessions.Version k v ∨ db'.sessions.Version k v → db'.Owns P v.conversationId := by
  have hin : ∀ {v}, db.sessions.Version k v → db.OwnsSession P k → db.Owns P v.conversationId := by
    rintro v hv ⟨c,hc,howns⟩
    rwa [hc.2 v hv]
  refine h.sessions_alter.changed (f := AgentSession.conversationId) ?_ ha.sessionConversation hne ?_ ?_
  · rintro k u v ⟨s,p,-,hstep⟩
    exact hstep.conversation.1
  · exact fun v hd => h.steady.owns _ (hin (.inr ⟨x,hd⟩) (hw.session k v hd))
  · rintro v ⟨s,p,ho,hstep⟩
    apply h.steady.owns
    have hstays := hs s ho
    cases hview : db.sessions.view x k with
    | none =>
      rw [hview] at hstep
      cases s with
      | createPending c agent language =>
        obtain ⟨-,rfl⟩ := hstep
        exact hstays.conversation c rfl
      | _ => exact absurd hstep (Stmt.not_sessionStep_none (by rintro _ _ _ ⟨⟩) v)
    | some u =>
      have hold : db.sessions.Version k u := Table.version_of_view hview
      have hkey : u.id = k := ha.sessionKey k u hold
      rw [hview] at hstep
      rw [hstep.conversation.1]
      cases s with
      | createPending c agent language => cases hstep.1
      | updateStateAndFields id expected new fields =>
        obtain ⟨u',hu,rfl,-⟩ := hstep
        obtain rfl := Option.some.inj hu
        exact hin hold (hkey ▸ hstays.session _ rfl)
      | claimFinalizing id =>
        obtain ⟨u',hu,rfl,-⟩ := hstep
        obtain rfl := Option.some.inj hu
        exact hin hold (hkey ▸ hstays.session _ rfl)
      | abandonOpenSession c reason =>
        obtain ⟨u',hu,rfl,-⟩ := hstep
        obtain rfl := Option.some.inj hu
        exact hstays.conversation _ rfl
      | sweepAbandonedOlderThan cutoff reason => cases hstays.sweep
      | _ => exact hstep.elim

/-- A message that a call changes is in a conversation of a user of `P`. -/
theorem message_changed {k : ℕ} (hne : db'.messages.row k ≠ db.messages.row k) :
    ∀ v, db.messages.Version k v ∨ db'.messages.Version k v → db'.Owns P v.new.conversationId := by
  refine h.messages_alter.changed (f := fun v : Message => v.new.conversationId) ?_ ha.messageConversation hne ?_ ?_
  · rintro k u v ⟨s,-,-,hnone,-⟩
    cases hnone
  · exact fun v hd => h.steady.owns _ (hw.message k v hd)
  · rintro v ⟨s,ho,rfl,-⟩
    exact h.steady.owns _ ((hs _ ho).conversation _ rfl)

/-- What `x` has written after a call that names only what is of users of `P`. -/
theorem ownWrites : db'.OwnWrites P x where
  conversation k v hd := by
    by_cases hsame : db'.conversations.row k = db.conversations.row k
    · exact h.steady.owns k (hw.conversation k v (hsame ▸ hd))
    · have hnew : db'.conversations.Version k v := .inr ⟨x,hd⟩
      exact (h.attributed ha).owns hnew (h.conversation_changed ha hs hw hsame v (.inr hnew))
  session k v hd := by
    by_cases hsame : db'.sessions.row k = db.sessions.row k
    · exact h.steady.session (hw.session k v (hsame ▸ hd))
    · have hnew : db'.sessions.Version k v := .inr ⟨x,hd⟩
      exact ⟨_,(h.attributed ha).inConversation hnew,h.session_changed ha hs hw hsame v (.inr hnew)⟩
  message k v hd := by
    by_cases hsame : db'.messages.row k = db.messages.row k
    · exact h.steady.owns _ (hw.message k v (hsame ▸ hd))
    · exact h.message_changed ha hs hw hsame v (.inr (.inr ⟨x,hd⟩))

end Own

end DbMove

end Saarathi
