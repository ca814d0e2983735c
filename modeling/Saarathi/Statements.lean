import Saarathi.Footprints

/-!
# What a statement changes

One lemma says which rows each statement may write and how; the transaction
and the other connections are left alone.
-/

namespace Saarathi

open ReadCommitted

namespace Stmt

/-- The session rows that a statement writes: key, version read, version written. -/
def SessionStep (p : Pick) : Stmt → ℕ → Option AgentSession → AgentSession → Prop
  | .createPending c agent language,k,o,v => o = none ∧ v =
      { id := k, conversationId := c, agentId := agent, language := language,
        startedAt := p.now, lastActivityAt := p.now }
  | .updateStateAndFields id expected new fields,_,o,v =>
      ∃ u, o = some u ∧ u.id = id ∧ u.state ∈ expected ∧ v = fields.assign new p.now u
  | .claimFinalizing id,_,o,v =>
      ∃ u, o = some u ∧ u.id = id ∧ u.state.claimable = true ∧ v = { u with state := .finalizing }
  | .abandonOpenSession c reason,_,o,v => ∃ u, o = some u ∧ u.conversationId = c ∧
      u.isOpen = true ∧ v = { u with state := .abandoned, endedAt := some p.now, error := some reason }
  | .sweepAbandonedOlderThan cutoff reason,_,o,v => ∃ u, o = some u ∧ u.isOpen = true ∧
      u.lastActivityAt < cutoff ∧
      v = { u with state := .abandoned, endedAt := some p.now, error := some reason }
  | _,_,_,_ => False

/-- The pin that a statement leaves on the conversation rows it updates. -/
def pinAfter : Stmt → Option AgentId → Option AgentId
  | .pin _ agent,_ => some agent
  | .unpin _,_ => none
  | _,o => o

/-- The conversation that a statement updates. -/
def conversation : Stmt → Option ConversationId
  | .nextSeqForUpdate c => some c
  | .touch c _ => some c
  | .setPlaceholderTitle c _ => some c
  | .replacePlaceholderTitle c _ => some c
  | .pin c _ => some c
  | .unpin c => some c
  | _ => none

/-- The conversation rows that a statement writes. -/
def ConversationStep (p : Pick) (s : Stmt) (k : ℕ) (o : Option Conversation) (v : Conversation) :
    Prop :=
  (∃ user, s = .createConversation user ∧ o = none ∧ v = Database.newConversation k p.now user) ∨
    ∃ u, o = some u ∧ s.conversation = some u.id ∧ v.id = u.id ∧ v.tenantCode = u.tenantCode ∧
      v.externalUserId = u.externalUserId ∧ v.pinnedAgentId = s.pinAfter u.pinnedAgentId

/-- The message rows that a statement writes. -/
def MessageStep (s : Stmt) (k : ℕ) (o : Option Message) (v : Message) : Prop :=
  s = .insertMessage v.new ∧ o = none ∧ v.id = k

/-- The advisory locks after a statement of `x`. -/
def locksAfter (x : Conn) (l : Locks) : Stmt → Locks
  | .tryAdvisoryLock key => (l.acquire x key).2
  | .advisoryUnlock key => (l.release x key).2
  | _ => l

/-- Everything that a statement which goes through may have changed. -/
structure Frame (p : Pick) (s : Stmt) (x : Conn) (db db' : Database) : Prop where
  sessions : Table.Once AgentSession.constraints (s.SessionStep p) x db.sessions db'.sessions
  conversations :
    Table.Once Conversation.constraints (s.ConversationStep p) x db.conversations db'.conversations
  messages : Table.Once Message.constraints s.MessageStep x db.messages db'.messages
  tx : db'.tx = db.tx
  locks : db'.locks = s.locksAfter x db.locks

theorem Frame.refl (p : Pick) (s : Stmt) (x : Conn) (db : Database)
    (hl : s.locksAfter x db.locks = db.locks) : Frame p s x db db :=
  ⟨.refl,.refl,.refl,rfl,hl.symm⟩

theorem Frame.of_ok {A : Type} {a a' : A} {p : Pick} {s : Stmt} {x : Conn} {db db' : Database}
    (hl : s.locksAfter x db.locks = db.locks) (h : Effect.ok (a,db) = .ok (a',db')) :
    Frame p s x db db' := by
  obtain rfl : db = db' := (Prod.mk.inj (Effect.ok.inj h)).2
  exact Frame.refl p s x db hl

end Stmt

namespace Database

variable {x : Conn} {db db' : Database}

theorem updateSessions_ok {p : AgentSession → Bool} {f : AgentSession → AgentSession}
    {a : List AgentSession} (h : db.updateSessions x p f = .ok (a,db')) :
    ∃ t, db.sessions.updateWhere x AgentSession.constraints p f = .ok (a,t) ∧
      db' = { db with sessions := t } := by
  unfold updateSessions onSessions at h
  split at h
  · cases h
  · cases h
  · rename_i a' t ht
    obtain ⟨rfl,rfl⟩ := Prod.mk.inj (Effect.ok.inj h)
    exact ⟨t,ht,rfl⟩

theorem updateConversations_ok {A : Type} {g : List Conversation → A} {p : Conversation → Bool}
    {f : Conversation → Conversation} {a : A} (h : db.updateConversations x g p f = .ok (a,db')) :
    ∃ cs t, db.conversations.updateWhere x Conversation.constraints p f = .ok (cs,t) ∧ a = g cs ∧
      db' = { db with conversations := t } := by
  unfold updateConversations onConversations at h
  split at h
  · cases h
  · cases h
  · rename_i cs db₁ h₁
    obtain ⟨rfl,rfl⟩ := Prod.mk.inj (Effect.ok.inj h)
    split at h₁
    · cases h₁
    · cases h₁
    · rename_i cs' t ht
      obtain ⟨rfl,rfl⟩ := Prod.mk.inj (Effect.ok.inj h₁)
      exact ⟨cs',t,ht,rfl,rfl⟩

theorem insertRow_ok {V A : Type} {K : Constraints V} {id : ℕ} {v : V} {a a' : A}
    {t t' : Table Conn V} (h : insertRow x K id v a t = .ok (a',t')) :
    a' = a ∧ id ∉ t.keys ∧ t.write x K id v = .ok t' := by
  unfold insertRow at h
  split at h
  · cases h
  rename_i hid
  split at h
  · cases h
  · cases h
  · rename_i t₁ ht
    obtain ⟨rfl,rfl⟩ := Prod.mk.inj (Effect.ok.inj h)
    exact ⟨rfl,hid,ht⟩

theorem view_of_not_mem {V : Type} {t : Table Conn V} {k : ℕ} (h : k ∉ t.keys) :
    t.view x k = none := by
  rcases hv : t.view x k with _ | v
  · rfl
  · exact absurd (Table.mem_keys_of_view hv) h

theorem onSessions_ok {A : Type} {e : Effect (A × Table Conn AgentSession)} {a : A}
    (h : db.onSessions e = .ok (a,db')) : ∃ t, e = .ok (a,t) ∧ db' = { db with sessions := t } := by
  unfold onSessions at h
  split at h
  · cases h
  · cases h
  · obtain ⟨rfl,rfl⟩ := Prod.mk.inj (Effect.ok.inj h)
    exact ⟨_,rfl,rfl⟩

theorem onConversations_ok {A : Type} {e : Effect (A × Table Conn Conversation)} {a : A}
    (h : db.onConversations e = .ok (a,db')) :
    ∃ t, e = .ok (a,t) ∧ db' = { db with conversations := t } := by
  unfold onConversations at h
  split at h
  · cases h
  · cases h
  · obtain ⟨rfl,rfl⟩ := Prod.mk.inj (Effect.ok.inj h)
    exact ⟨_,rfl,rfl⟩

theorem onMessages_ok {A : Type} {e : Effect (A × Table Conn Message)} {a : A}
    (h : db.onMessages e = .ok (a,db')) : ∃ t, e = .ok (a,t) ∧ db' = { db with messages := t } := by
  unfold onMessages at h
  split at h
  · cases h
  · cases h
  · obtain ⟨rfl,rfl⟩ := Prod.mk.inj (Effect.ok.inj h)
    exact ⟨_,rfl,rfl⟩

theorem first_ok {V : Type} {id key : V → ℕ} {pick : ℕ} {rows a : List V}
    (h : db.first id key pick rows = .ok (a,db')) : db' = db := by
  unfold first at h
  split at h
  · split at h
    · exact (Prod.mk.inj (Effect.ok.inj h)).2.symm
    · cases h
  · split at h
    · exact (Prod.mk.inj (Effect.ok.inj h)).2.symm
    · cases h

end Database

namespace Stmt

variable {adapt : Json → Option String} {db db' : Database} {x : Conn} {p : Pick}

theorem frame_sessions {s : Stmt} {q : AgentSession → Bool} {f : AgentSession → AgentSession}
    {a : List AgentSession} (hl : s.locksAfter x db.locks = db.locks)
    (h : db.updateSessions x q f = .ok (a,db'))
    (hs : ∀ k u, q u = true → s.SessionStep p k (some u) (f u)) : Frame p s x db db' := by
  obtain ⟨t,ht,rfl⟩ := Database.updateSessions_ok h
  have hw := Table.once_of_updateWhere ht
  refine ⟨hw.mono ?_,.refl,.refl,rfl,hl.symm⟩
  rintro k o v ⟨u,rfl,hq,rfl⟩
  exact hs k u hq

theorem frame_conversations {A : Type} {s : Stmt} {g : List Conversation → A}
    {q : Conversation → Bool} {f : Conversation → Conversation} {a : A}
    (hl : s.locksAfter x db.locks = db.locks) (h : db.updateConversations x g q f = .ok (a,db'))
    (hs : ∀ k u, q u = true → s.ConversationStep p k (some u) (f u)) : Frame p s x db db' := by
  obtain ⟨cs,t,ht,-,rfl⟩ := Database.updateConversations_ok h
  have hw := Table.once_of_updateWhere ht
  refine ⟨.refl,hw.mono ?_,.refl,rfl,hl.symm⟩
  rintro k o v ⟨u,rfl,hq,rfl⟩
  exact hs k u hq

/-- An update of one conversation that keeps its identity. -/
theorem conversationStep_of_update {s : Stmt} {k : ℕ} {u v : Conversation} {c : ConversationId}
    (hs : s.conversation = some c) (hu : u.id = c) (hid : v.id = u.id)
    (ht : v.tenantCode = u.tenantCode) (he : v.externalUserId = u.externalUserId)
    (hpin : v.pinnedAgentId = s.pinAfter u.pinnedAgentId) : s.ConversationStep p k (some u) v :=
  .inr ⟨u,rfl,by rw [hs,hu],hid,ht,he,hpin⟩

/-- A statement that goes through changes what its `SessionStep`, `ConversationStep` and
`MessageStep` allow, and nothing else but the advisory locks. -/
theorem frame_of_effect (s : Stmt) {a : s.Ans} (h : s.effect adapt db x p = .ok (a,db')) :
    Frame p s x db db' := by
  cases s with
  | getSession id => exact .of_ok rfl h
  | getOpenForConversation c => exact .of_ok rfl h
  | createPending c agent language =>
    obtain ⟨t,ht,rfl⟩ := Database.onSessions_ok h
    obtain ⟨-,hid,hw⟩ := Database.insertRow_ok ht
    exact ⟨Table.once_of_write hw ⟨Database.view_of_not_mem hid,rfl⟩,.refl,.refl,rfl,rfl⟩
  | updateStateAndFields id expected new fields =>
    exact frame_sessions rfl h fun k u hu => ⟨u,rfl,by simpa using hu⟩
  | claimFinalizing id => exact frame_sessions rfl h fun k u hu => ⟨u,rfl,by simpa using hu⟩
  | abandonOpenSession c reason => exact frame_sessions rfl h fun k u hu => ⟨u,rfl,by simpa using hu⟩
  | sweepAbandonedOlderThan cutoff reason =>
    exact frame_sessions rfl h fun k u hu => ⟨u,rfl,by simpa using hu⟩
  | getScoped id user => exact .of_ok rfl h
  | latestActive user =>
    obtain rfl := Database.first_ok h
    exact .refl _ _ _ _ rfl
  | newestListed user =>
    obtain rfl := Database.first_ok h
    exact .refl _ _ _ _ rfl
  | findEmptyForUser user =>
    obtain rfl := Database.first_ok h
    exact .refl _ _ _ _ rfl
  | createConversation user =>
    obtain ⟨t,ht,rfl⟩ := Database.onConversations_ok h
    obtain ⟨-,hid,hw⟩ := Database.insertRow_ok ht
    exact ⟨.refl,Table.once_of_write hw (.inl ⟨user,rfl,Database.view_of_not_mem hid,rfl⟩),.refl,rfl,rfl⟩
  | nextSeqForUpdate c =>
    exact frame_conversations rfl h fun k u hu =>
      conversationStep_of_update rfl (of_decide_eq_true hu) rfl rfl rfl rfl
  | touch c titleFrom =>
    cases titleFrom with
    | none =>
      exact frame_conversations rfl h fun k u hu =>
        conversationStep_of_update rfl (of_decide_eq_true hu) rfl rfl rfl rfl
    | some j =>
      simp only [effect] at h
      split at h
      · cases h
      · exact frame_conversations rfl h fun k u hu =>
          conversationStep_of_update rfl (of_decide_eq_true hu) rfl rfl rfl rfl
  | setPlaceholderTitle c title =>
    exact frame_conversations rfl h fun k u hu =>
      conversationStep_of_update (c := c) rfl (by simpa using (Bool.and_eq_true_iff.mp hu).1) rfl rfl
        rfl rfl
  | replacePlaceholderTitle c j =>
    simp only [effect] at h
    split at h
    · cases h
    · exact frame_conversations rfl h fun k u hu =>
        conversationStep_of_update (c := c) rfl (by simpa using (Bool.and_eq_true_iff.mp hu).1) rfl rfl
          rfl rfl
  | pin c agent =>
    exact frame_conversations rfl h fun k u hu =>
      conversationStep_of_update rfl (of_decide_eq_true hu) rfl rfl rfl rfl
  | unpin c =>
    exact frame_conversations rfl h fun k u hu =>
      conversationStep_of_update rfl (of_decide_eq_true hu) rfl rfl rfl rfl
  | insertMessage m =>
    simp only [effect] at h
    split at h
    · cases h
    · obtain ⟨t,ht,rfl⟩ := Database.onMessages_ok h
      obtain ⟨-,hid,hw⟩ := Database.insertRow_ok ht
      exact ⟨.refl,.refl,Table.once_of_write hw ⟨rfl,Database.view_of_not_mem hid,rfl⟩,rfl,rfl⟩
  | recent c limit => exact .of_ok rfl h
  | lastUserContent c => exact .of_ok rfl h
  | countRecentUser c => exact .of_ok rfl h
  | auditInsert action entityId actor note => exact .of_ok rfl h
  | bulkInsert messageId agent traces => exact .of_ok rfl h
  | scopedConfig agent tenant organization => exact .of_ok rfl h
  | flowPayload c => exact .of_ok rfl h
  | registryQuery => exact .of_ok rfl h
  | tryAdvisoryLock key =>
    obtain ⟨-,rfl⟩ := Prod.mk.inj (Effect.ok.inj h)
    exact ⟨.refl,.refl,.refl,rfl,rfl⟩
  | advisoryUnlock key =>
    obtain ⟨-,rfl⟩ := Prod.mk.inj (Effect.ok.inj h)
    exact ⟨.refl,.refl,.refl,rfl,rfl⟩

/-- The conversation rows that an update matches. -/
def selects : Stmt → Conversation → Bool
  | .setPlaceholderTitle c _,v => v.id = c && v.title.isNone
  | .replacePlaceholderTitle c _,v => v.id = c && v.titleIsPlaceholder
  | s,v => s.conversation = some v.id

/-- What an update makes of a conversation row that it matches. -/
def renew (adapt : Json → Option String) (p : Pick) : Stmt → Conversation → Conversation
  | .nextSeqForUpdate _,v => { v with messageCount := v.messageCount + 1 }
  | .touch _ none,v => { v with lastMessageAt := some p.now }
  | .touch _ (some j),v => { v with lastMessageAt := some p.now, title := v.title <|> storedText adapt j }
  | .setPlaceholderTitle _ title,v => { v with title := some title, titleIsPlaceholder := true }
  | .replacePlaceholderTitle _ j,v => { v with title := storedText adapt j, titleIsPlaceholder := false }
  | .pin _ agent,v => { v with pinnedAgentId := some agent }
  | .unpin _,v => { v with pinnedAgentId := none }
  | _,v => v

theorem id_of_selects {s : Stmt} {c : ConversationId} {u : Conversation} (hs : s.conversation = some c)
    (h : s.selects u = true) : u.id = c := by
  have hid : ∀ {s : Stmt}, s.conversation = some c → decide (s.conversation = some u.id) = true → u.id = c :=
    fun hs h => by
      have he := of_decide_eq_true h
      rw [hs] at he
      exact (Option.some.inj he).symm
  cases s with
  | setPlaceholderTitle c' title =>
    obtain rfl : c' = c := Option.some.inj hs
    simpa using (Bool.and_eq_true_iff.mp h).1
  | replacePlaceholderTitle c' j =>
    obtain rfl : c' = c := Option.some.inj hs
    simpa using (Bool.and_eq_true_iff.mp h).1
  | nextSeqForUpdate c' => exact hid hs h
  | touch c' titleFrom => exact hid hs h
  | pin c' agent => exact hid hs h
  | unpin c' => exact hid hs h
  | _ => cases hs

/-- An update of a conversation that goes through is the update of the rows it matches. -/
theorem updateWhere_of_effect {s : Stmt} {c : ConversationId} {a : s.Ans} (hs : s.conversation = some c)
    (h : s.effect adapt db x p = .ok (a,db')) : ∃ cs,
      db.conversations.updateWhere x Conversation.constraints s.selects (s.renew adapt p) =
        .ok (cs,db'.conversations) := by
  have hid : ∀ {s : Stmt}, s.conversation = some c → (fun v : Conversation => decide (v.id = c)) =
      fun v => decide (s.conversation = some v.id) := fun h => by
    funext v
    rw [h]
    simp [eq_comm]
  cases s with
  | nextSeqForUpdate c' =>
    obtain rfl : c' = c := Option.some.inj hs
    obtain ⟨cs,t,ht,-,rfl⟩ := Database.updateConversations_ok h
    exact ⟨cs,by rw [← ht]; exact congrArg (fun q => Table.updateWhere x _ _ q _) (hid hs).symm⟩
  | touch c' titleFrom =>
    obtain rfl : c' = c := Option.some.inj hs
    cases titleFrom with
    | none =>
      obtain ⟨cs,t,ht,-,rfl⟩ := Database.updateConversations_ok h
      exact ⟨cs,by rw [← ht]; exact congrArg (fun q => Table.updateWhere x _ _ q _) (hid hs).symm⟩
    | some j =>
      simp only [effect] at h
      split at h
      · cases h
      · rename_i title htitle
        obtain ⟨cs,t,ht,-,rfl⟩ := Database.updateConversations_ok h
        refine ⟨cs,?_⟩
        rw [← ht]
        have hrenew : renew adapt p (.touch c' (some j)) =
            fun v => { v with lastMessageAt := some p.now, title := v.title <|> some title } := by
          funext v
          rw [renew,htitle]
        rw [hrenew]
        exact congrArg (fun q => Table.updateWhere x _ _ q _) (hid hs).symm
  | setPlaceholderTitle c' title =>
    obtain rfl : c' = c := Option.some.inj hs
    obtain ⟨cs,t,ht,-,rfl⟩ := Database.updateConversations_ok h
    exact ⟨cs,ht⟩
  | replacePlaceholderTitle c' j =>
    obtain rfl : c' = c := Option.some.inj hs
    simp only [effect] at h
    split at h
    · cases h
    · rename_i title htitle
      obtain ⟨cs,t,ht,-,rfl⟩ := Database.updateConversations_ok h
      refine ⟨cs,?_⟩
      rw [← ht]
      have hrenew : renew adapt p (.replacePlaceholderTitle c' j) =
          fun v => { v with title := some title, titleIsPlaceholder := false } := by
        funext v
        rw [renew,htitle]
      rw [hrenew]
      rfl
  | pin c' agent =>
    obtain rfl : c' = c := Option.some.inj hs
    obtain ⟨cs,t,ht,-,rfl⟩ := Database.updateConversations_ok h
    exact ⟨cs,by rw [← ht]; exact congrArg (fun q => Table.updateWhere x _ _ q _) (hid hs).symm⟩
  | unpin c' =>
    obtain rfl : c' = c := Option.some.inj hs
    obtain ⟨cs,t,ht,-,rfl⟩ := Database.updateConversations_ok h
    exact ⟨cs,by rw [← ht]; exact congrArg (fun q => Table.updateWhere x _ _ q _) (hid hs).symm⟩
  | _ => cases hs

end Stmt

namespace Stmt

variable {p : Pick} {s : Stmt} {k : ℕ}

/-- The roles whose statements write session rows. -/
theorem SessionStep.role {o : Option AgentSession} {v : AgentSession} (h : s.SessionStep p k o v) :
    s.role ∈ [Role.create,.apply,.forced,.claim,.abandon] := by
  cases s with
  | updateStateAndFields id expected new fields =>
    rcases role_updateStateAndFields id expected new fields with hr | hr <;> simp [hr]
  | createPending c agent language => exact .head _
  | claimFinalizing id => simp [Stmt.role]
  | abandonOpenSession c reason => simp [Stmt.role]
  | sweepAbandonedOlderThan cutoff reason => simp [Stmt.role]
  | _ => exact h.elim

theorem role_of_conversation {c : ConversationId} (h : s.conversation = some c) :
    s.role ∈ [Role.record,.pin,.unpin] := by
  cases s with
  | nextSeqForUpdate c => simp [Stmt.role]
  | touch c titleFrom => simp [Stmt.role]
  | setPlaceholderTitle c title => simp [Stmt.role]
  | replacePlaceholderTitle c title => simp [Stmt.role]
  | pin c agent => simp [Stmt.role]
  | unpin c => simp [Stmt.role]
  | _ => cases h

theorem MessageStep.role {o : Option Message} {v : Message} (h : s.MessageStep k o v) :
    s.role = .record := by
  rw [h.1]
  rfl

end Stmt

/-- What one call does to the database, by the operation and its answer. -/
inductive DbMove (adapt : Json → Option String) (x : Conn) (db : Database) :
    (o : Op) → Except Exn o.Ans → Database → Prop
  | stmt {s : Stmt} {p : Pick} {a : s.Ans} {db' : Database} (htx : db.tx x = .active)
      (h : s.effect adapt db x p = .ok (a,db')) : DbMove adapt x db (.stmt s) (.ok a) db'
  | rejected {s : Stmt} (htx : db.tx x = .active) :
      DbMove adapt x db (.stmt s) (.error .rejected) (db.fail x s)
  | refused {s : Stmt} (htx : db.tx x ≠ .active) : DbMove adapt x db (.stmt s) (.error .refused) db
  | commit (htx : db.tx x = .active) : DbMove adapt x db .commit (.ok ()) (db.commit x)
  | commitRejected (htx : db.tx x = .active) :
      DbMove adapt x db .commit (.error .rejected) (db.discard x .deactivated)
  | commitAborted (htx : db.tx x = .aborted) :
      DbMove adapt x db .commit (.ok ()) (db.discard x .active)
  | commitRefused (htx : db.tx x = .deactivated) : DbMove adapt x db .commit (.error .refused) db
  | rollback : DbMove adapt x db .rollback (.ok ()) (db.discard x .active)
  | other {o : Op} {r : Except Exn o.Ans} (hs : ∀ s, o ≠ .stmt s) (hc : o ≠ .commit)
      (hr : o ≠ .rollback) : DbMove adapt x db o r db

namespace Database

variable {d : Deployment} {x : Conn} {db db' : Database} {adapt : Json → Option String}

theorem dbMove_of_execStmt {s : Stmt} {ch : DbChoice} {r : Except Exn s.Ans}
    (h : db.execStmt x adapt s ch = some (r,db')) : DbMove adapt x db (.stmt s) r db' := by
  cases ch with
  | reject =>
    rw [execStmt] at h
    split at h
    · rename_i htx
      obtain ⟨rfl,rfl⟩ := Prod.mk.inj (Option.some.inj h)
      exact .rejected htx
    · rename_i htx
      obtain ⟨rfl,rfl⟩ := Prod.mk.inj (Option.some.inj h)
      exact .refused htx
  | go p =>
    rw [execStmt] at h
    split at h
    · rename_i htx
      split at h
      · cases h
      · obtain ⟨rfl,rfl⟩ := Prod.mk.inj (Option.some.inj h)
        exact .rejected htx
      · rename_i a db₁ he
        obtain ⟨rfl,rfl⟩ := Prod.mk.inj (Option.some.inj h)
        exact .stmt htx he
    · rename_i htx
      obtain ⟨rfl,rfl⟩ := Prod.mk.inj (Option.some.inj h)
      exact .refused htx

theorem dbMove_of_execCommit {ch : DbChoice} {r : Except Exn Unit}
    (h : db.execCommit x ch = some (r,db')) : DbMove adapt x db .commit r db' := by
  cases ch with
  | reject =>
    rw [execCommit] at h
    split at h
    all_goals
      rename_i htx
      obtain ⟨rfl,rfl⟩ := Prod.mk.inj (Option.some.inj h)
    · exact .commitRejected htx
    · exact .commitAborted htx
    · exact .commitRefused htx
  | go p =>
    rw [execCommit] at h
    split at h
    all_goals
      rename_i htx
      obtain ⟨rfl,rfl⟩ := Prod.mk.inj (Option.some.inj h)
    · exact .commit htx
    · exact .commitAborted htx
    · exact .commitRefused htx

end Database

namespace World

variable {d : Deployment} {x : Conn} {w w' : World}

/-- What the calls on channels leave alone. -/
def rest (w : World) := (w.db,w.handling,w.stories,w.events,w.serving,w.registry)

@[simp] theorem popChannel_rest (c : ConversationId) : (w.popChannel c).2.rest = w.rest := by
  unfold popChannel
  split <;> rfl

@[simp] theorem evict_rest (max n : ℕ) (w : World) : (evict max n w).rest = w.rest := by
  induction n generalizing w with
  | zero => rfl
  | succ n ih =>
    rw [evict]
    split
    · rfl
    · split
      · exact ih _
      · rfl

theorem foldl_closeChannel_rest (es : List PoolEntry) (w : World) :
    (es.foldl (fun w e => w.closeChannel e.channel) w).rest = w.rest := by
  induction es generalizing w with
  | nil => rfl
  | cons e es ih => exact ih _

theorem connect_rest {max : ℕ} {c : ConversationId} {auth : Auth} {ch : Choice}
    {r : Except Exn ChannelId} (h : w.connect max c auth ch = some (r,w')) : w'.rest = w.rest := by
  unfold connect at h
  split at h
  · split at h
    · obtain ⟨-,rfl⟩ := Prod.mk.inj (Option.some.inj h)
      exact evict_rest ..
    · obtain ⟨-,rfl⟩ := Prod.mk.inj (Option.some.inj h)
      exact evict_rest ..
  · obtain ⟨-,rfl⟩ := Prod.mk.inj (Option.some.inj h)
    exact evict_rest ..
  · cases h

theorem acquire_rest {max : ℕ} {c : ConversationId} {auth : Auth} {ch : Choice}
    {r : Except Exn ChannelId} (h : w.acquire max c auth ch = some (r,w')) : w'.rest = w.rest := by
  unfold acquire at h
  split at h
  · split at h
    · unfold reuse at h
      split at h
      · obtain ⟨-,rfl⟩ := Prod.mk.inj (Option.some.inj h)
        rfl
      · cases h
    · exact (connect_rest h).trans (popChannel_rest c)
  · exact connect_rest h

theorem sendAndAwaitTurn_rest {i : ChannelId} {text : Json} {t g : ℕ} {ch : Choice} {done : Bool}
    {r : Except Exn Channel.BotTurn} (h : w.sendAndAwaitTurn i text t g ch = some (r,done,w')) :
    w'.rest = w.rest := by
  unfold sendAndAwaitTurn at h
  split at h
  · split at h
    · cases h
    · split at h
      · cases h
      · split at h
        · obtain ⟨-,h⟩ := Prod.mk.inj (Option.some.inj h)
          obtain ⟨-,rfl⟩ := Prod.mk.inj h
          rfl
        · obtain ⟨-,h⟩ := Prod.mk.inj (Option.some.inj h)
          obtain ⟨-,rfl⟩ := Prod.mk.inj h
          rfl
  · cases h

section Calls

variable {A : Type} {ch : Choice} {r : Except Exn A} {done : Bool}

theorem acquired_eq {max : ℕ} {c : ConversationId} {auth : Auth} {r : Except Exn ChannelId}
    (h : w.acquired max c auth ch = some (r,done,w')) :
    done = true ∧ w.acquire max c auth ch = some (r,w') := by
  unfold acquired at h
  split at h
  · rename_i ha
    simp only [Option.some.injEq,Prod.mk.injEq] at h
    obtain ⟨rfl,rfl,rfl⟩ := h
    exact ⟨rfl,ha⟩
  · cases h

theorem onDb_eq {f : DbChoice → Option (Except Exn A × Database)}
    (h : w.onDb f ch = some (r,done,w')) :
    ∃ c db, f c = some (r,db) ∧ done = true ∧ w' = { w with db := db } := by
  unfold onDb at h
  split at h
  · rename_i c
    split at h
    · rename_i r' db hf
      simp only [Option.some.injEq,Prod.mk.injEq] at h
      obtain ⟨rfl,rfl,rfl⟩ := h
      exact ⟨c,db,hf,rfl,rfl⟩
    · cases h
  · cases h

theorem settled_eq {a : A} {w₁ : World} (h : settled a w₁ ch = some (r,done,w')) :
    r = .ok a ∧ done = true ∧ w' = w₁ := by
  unfold settled at h
  split at h
  · simp only [Option.some.injEq,Prod.mk.injEq] at h
    obtain ⟨rfl,rfl,rfl⟩ := h
    exact ⟨rfl,rfl,rfl⟩
  · cases h

theorem asked_eq {f : Choice → Option A} (h : w.asked f ch = some (r,done,w')) :
    (∃ a, r = .ok a) ∧ w' = w := by
  unfold asked at h
  split at h
  · simp only [Option.some.injEq,Prod.mk.injEq] at h
    obtain ⟨rfl,-,rfl⟩ := h
    exact ⟨⟨_,rfl⟩,rfl⟩
  · cases h

theorem remote_eq {f : Choice → Option A} (h : w.remote f ch = some (r,done,w')) : w' = w := by
  unfold remote at h
  split at h
  · simp only [Option.some.injEq,Prod.mk.injEq] at h
    exact h.2.2.symm
  · exact (asked_eq h).2

theorem finalize_eq {story : EndStory} {r : Except Exn (String × String)}
    (h : w.finalize story ch = some (r,done,w')) :
    (done = true ∧ w' = { w with stories := w.stories ++ [story.session] }) ∨
      (done = false ∧ (∃ e, r = .error e) ∧ w' = w) := by
  unfold finalize at h
  split at h
  · split at h
    · cases h
    · simp only [Option.some.injEq,Prod.mk.injEq] at h
      exact .inl ⟨h.2.1.symm,h.2.2.symm⟩
  · simp only [Option.some.injEq,Prod.mk.injEq] at h
    exact .inl ⟨h.2.1.symm,h.2.2.symm⟩
  · simp only [Option.some.injEq,Prod.mk.injEq] at h
    exact .inr ⟨h.2.1.symm,⟨_,h.1.symm⟩,h.2.2.symm⟩
  · cases h

end Calls

end World

namespace Op

/-- The session whose end-story call Mitra carries out. -/
def told : Op → List SessionId
  | .finalize story => [story.session]
  | _ => []

/-- The conversation whose handler runs, after a call. -/
def marks (h : Option ConversationId) : Op → Option ConversationId
  | .handleBegin c _ => some c
  | .handleEnd _ => none
  | _ => h

/-- The calls that leave the database, the handlers and Mitra's stories alone. -/
def plain : Op → Bool
  | .stmt _ => false
  | .commit => false
  | .rollback => false
  | .finalize _ => false
  | .handleBegin .. => false
  | .handleEnd _ => false
  | _ => true

theorem marks_of_plain {o : Op} (ho : o.plain = true) (h : Option ConversationId) : o.marks h = h := by
  cases o with
  | handleBegin c run => cases ho
  | handleEnd c => cases ho
  | _ => rfl

theorem told_of_plain {o : Op} (ho : o.plain = true) : o.told = [] := by
  cases o with
  | finalize story => cases ho
  | _ => rfl

end Op

/-- What a call does to the world, by the operation; the pool is left open here. -/
structure Performed (d : Deployment) (x : Conn) (w : World) (o : Op) (r : Except Exn o.Ans)
    (done : Bool) (w' : World) : Prop where
  db : DbMove d.adapt x w.db o r w'.db
  handling : w'.handling = Function.update w.handling x (o.marks (w.handling x))
  stories : w'.stories = w.stories ++ if done then o.told else []
  events : w'.events = w.events
  serving : w'.serving = w.serving
  registry : w'.registry = w.registry
  sure : o.sure = true → ∃ a, r = .ok a

namespace Performed

variable {d : Deployment} {x : Conn} {w w' : World} {o : Op} {r : Except Exn o.Ans} {done : Bool}

/-- A call that leaves everything but the pool alone. -/
theorem quiet (ho : o.plain = true) (h : w'.rest = w.rest) (hr : o.sure = true → ∃ a, r = .ok a) :
    Performed d x w o r done w' := by
  simp only [World.rest,Prod.mk.injEq] at h
  obtain ⟨h₁,h₂,h₃,h₄,h₅,h₆⟩ := h
  refine ⟨h₁ ▸ .other ?_ ?_ ?_,?_,?_,h₄,h₅,h₆,hr⟩
  · rintro s rfl
    cases ho
  · rintro rfl
    cases ho
  · rintro rfl
    cases ho
  · simp [h₂,Op.marks_of_plain ho]
  · simp [h₃,Op.told_of_plain ho]

theorem onDb {db : Database} (hh : o.marks (w.handling x) = w.handling x) (ht : o.told = [])
    (h : DbMove d.adapt x w.db o r db) (hr : o.sure = true → ∃ a, r = .ok a) :
    Performed d x w o r true { w with db := db } :=
  ⟨h,by simp [hh],by simp [ht],rfl,rfl,rfl,hr⟩

end Performed

namespace World

variable {d : Deployment} {x : Conn} {w w' : World}

theorem performed {o : Op} {ch : Choice} {r : Except Exn o.Ans} {done : Bool}
    (h : w.perform d x o ch = some (r,done,w')) : Performed d x w o r done w' := by
  cases o with
  | stmt s =>
    obtain ⟨c,db,hf,rfl,rfl⟩ := onDb_eq h
    exact .onDb rfl rfl (Database.dbMove_of_execStmt hf) nofun
  | commit =>
    obtain ⟨c,db,hf,rfl,rfl⟩ := onDb_eq h
    exact .onDb rfl rfl (Database.dbMove_of_execCommit hf) nofun
  | rollback =>
    obtain ⟨rfl,rfl,rfl⟩ := settled_eq h
    exact .onDb rfl rfl .rollback fun _ => ⟨_,rfl⟩
  | handleBegin c run =>
    obtain ⟨rfl,rfl,rfl⟩ := settled_eq h
    exact ⟨.other (by simp) (by simp) (by simp),rfl,by simp [Op.told],rfl,rfl,rfl,fun _ => ⟨_,rfl⟩⟩
  | handleEnd c =>
    obtain ⟨rfl,rfl,rfl⟩ := settled_eq h
    exact ⟨.other (by simp) (by simp) (by simp),rfl,by simp [Op.told],rfl,rfl,rfl,fun _ => ⟨_,rfl⟩⟩
  | finalize story =>
    rcases finalize_eq h with ⟨rfl,rfl⟩ | ⟨rfl,-,rfl⟩
    · exact ⟨.other (by simp) (by simp) (by simp),by simp [Op.marks],rfl,rfl,rfl,rfl,nofun⟩
    · exact ⟨.other (by simp) (by simp) (by simp),by simp [Op.marks],by simp,rfl,rfl,rfl,nofun⟩
  | acquire c auth => exact .quiet rfl (acquire_rest (acquired_eq h).2) nofun
  | popChannel c =>
    obtain ⟨rfl,-,rfl⟩ := settled_eq h
    exact .quiet rfl (popChannel_rest c) fun _ => ⟨_,rfl⟩
  | sendAndAwaitTurn i text t g sess => exact .quiet rfl (sendAndAwaitTurn_rest h) nofun
  | scopeStore version tenant organization agent =>
    obtain ⟨rfl,-,rfl⟩ := settled_eq h
    exact .quiet rfl rfl fun _ => ⟨_,rfl⟩
  | snapshot =>
    obtain ⟨rfl,-,rfl⟩ := settled_eq h
    exact .quiet rfl rfl fun _ => ⟨_,rfl⟩
  | scopeLookup tenant organization key =>
    obtain ⟨rfl,-,rfl⟩ := settled_eq h
    exact .quiet rfl rfl fun _ => ⟨_,rfl⟩
  | getenv name =>
    obtain ⟨hr,rfl⟩ := asked_eq h
    exact .quiet rfl rfl fun _ => hr
  | today =>
    obtain ⟨hr,rfl⟩ := asked_eq h
    exact .quiet rfl rfl fun _ => hr
  | reloadDue =>
    obtain ⟨hr,rfl⟩ := asked_eq h
    exact .quiet rfl rfl fun _ => hr
  | upsertProfile email flow company => exact .quiet rfl (congrArg rest (remote_eq h)) nofun
  | generateSession => exact .quiet rfl (congrArg rest (remote_eq h)) nofun
  | isSessionCompleted sid => exact .quiet rfl (congrArg rest (remote_eq h)) nofun
  | recentChat sid pid => exact .quiet rfl (congrArg rest (remote_eq h)) nofun
  | getReport sid mediaType => exact .quiet rfl (congrArg rest (remote_eq h)) nofun
  | routerModel c => exact .quiet rfl (congrArg rest (remote_eq h)) nofun
  | llmHandle c agent => exact .quiet rfl (congrArg rest (remote_eq h)) nofun

end World

namespace DbMove

variable {adapt : Json → Option String} {x : Conn} {db db' : Database} {o : Op}
  {r : Except Exn o.Ans}

theorem sessions {T : ℕ → Option AgentSession → AgentSession → Prop} (h : DbMove adapt x db o r db')
    (hT : ∀ s p, o = .stmt s → ∀ k u v, s.SessionStep p k u v → T k u v) :
    Table.Move AgentSession.constraints T x db.sessions db'.sessions := by
  cases h with
  | stmt htx h => exact .wrote ((Stmt.frame_of_effect _ h).sessions.wrote.mono (hT _ _ rfl))
  | commit htx => exact .commit
  | refused htx => exact .wrote .refl
  | commitRefused htx => exact .wrote .refl
  | other hs hc hr => exact .wrote .refl
  | _ => exact .rollback

theorem conversations {T : ℕ → Option Conversation → Conversation → Prop}
    (h : DbMove adapt x db o r db')
    (hT : ∀ s p, o = .stmt s → ∀ k u v, s.ConversationStep p k u v → T k u v) :
    Table.Move Conversation.constraints T x db.conversations db'.conversations := by
  cases h with
  | stmt htx h => exact .wrote ((Stmt.frame_of_effect _ h).conversations.wrote.mono (hT _ _ rfl))
  | commit htx => exact .commit
  | refused htx => exact .wrote .refl
  | commitRefused htx => exact .wrote .refl
  | other hs hc hr => exact .wrote .refl
  | _ => exact .rollback

theorem messages {T : ℕ → Option Message → Message → Prop} (h : DbMove adapt x db o r db')
    (hT : ∀ s, o = .stmt s → ∀ k u v, s.MessageStep k u v → T k u v) :
    Table.Move Message.constraints T x db.messages db'.messages := by
  cases h with
  | stmt htx h => exact .wrote ((Stmt.frame_of_effect _ h).messages.wrote.mono (hT _ rfl))
  | commit htx => exact .commit
  | refused htx => exact .wrote .refl
  | commitRefused htx => exact .wrote .refl
  | other hs hc hr => exact .wrote .refl
  | _ => exact .rollback

theorem rollback_eq {r : Except Exn Unit} (h : DbMove adapt x db .rollback r db') :
    db' = db.discard x .active := by
  cases h with
  | rollback => rfl
  | other hs hc hr => exact absurd rfl hr

theorem locks (h : DbMove adapt x db o r db') :
    db'.locks = db.locks ∨ ∃ s, o = .stmt s ∧ db'.locks = s.locksAfter x db.locks := by
  cases h with
  | stmt htx h => exact .inr ⟨_,rfl,(Stmt.frame_of_effect _ h).locks⟩
  | _ => exact .inl rfl

theorem held_of_ne {y : Conn} {key : ℤ} (h : DbMove adapt x db o r db') (hy : y ≠ x) :
    db'.locks.held y key = db.locks.held y key := by
  rcases h.locks with h | ⟨s,-,h⟩
  · rw [h]
  · rw [h]
    unfold Stmt.locksAfter
    split
    · exact Locks.held_acquire_of_ne hy
    · exact Locks.held_release_of_ne hy
    · rfl

theorem held_le {key : ℤ} (h : DbMove adapt x db o r db')
    (ho : ∀ key, o ≠ .stmt (.advisoryUnlock key)) : db.locks.held x key ≤ db'.locks.held x key := by
  rcases h.locks with hl | ⟨s,hs,hl⟩
  · rw [hl]
  · rw [hl]
    unfold Stmt.locksAfter
    split
    · exact Locks.held_le_acquire
    · exact absurd hs (ho _)
    · exact le_rfl

theorem held_of_granted {key : ℤ} (h : DbMove adapt x db (.stmt (.tryAdvisoryLock key)) (.ok true) db') :
    db'.locks.held x key = db.locks.held x key + 1 := by
  generalize hr : (Except.ok true : Except Exn (Op.Ans (.stmt (.tryAdvisoryLock key)))) = r at h
  cases h with
  | stmt htx h =>
    obtain ⟨ha,rfl⟩ := Prod.mk.inj (Effect.ok.inj h)
    exact Locks.held_acquire (ha.trans (Except.ok.inj hr).symm)
  | rejected htx => cases hr
  | refused htx => cases hr
  | other hs hc hr => exact absurd rfl (hs _)

/-- A granted try changes only the lock that it tries, in a transaction that goes on. -/
theorem of_granted {key : ℤ} (h : DbMove adapt x db (.stmt (.tryAdvisoryLock key)) (.ok true) db') :
    db.tx x = .active ∧ db'.tx x = .active ∧
      db'.locks.held x = Function.update (db.locks.held x) key (db.locks.held x key + 1) := by
  have hkey := h.held_of_granted
  generalize hr : (Except.ok true : Except Exn (Op.Ans (.stmt (.tryAdvisoryLock key)))) = r at h
  cases h with
  | stmt htx h =>
    obtain ⟨ha,rfl⟩ := Prod.mk.inj (Effect.ok.inj h)
    refine ⟨htx,htx,?_⟩
    funext k
    by_cases hk : k = key
    · subst hk
      simpa using hkey
    · rw [Function.update_of_ne hk]
      exact Locks.held_acquire_of_ne_key hk
  | rejected htx => cases hr
  | refused htx => cases hr
  | other hs hc hr => exact absurd rfl (hs _)

theorem locks_of_not_granted {key : ℤ} {r : Except Exn (Op.Ans (.stmt (.tryAdvisoryLock key)))}
    (h : DbMove adapt x db (.stmt (.tryAdvisoryLock key)) r db') (hr : r ≠ .ok true) :
    db'.locks = db.locks := by
  cases h with
  | stmt htx h =>
    obtain ⟨ha,rfl⟩ := Prod.mk.inj (Effect.ok.inj h)
    have hfalse : (db.locks.acquire x key).1 = false := by
      rw [← Bool.not_eq_true]
      intro htrue
      exact hr (congrArg Except.ok (ha.symm.trans htrue))
    exact Locks.acquire_refused hfalse
  | rejected htx => rfl
  | refused htx => rfl
  | other hs hc hr => rfl

theorem held_of_released {key : ℤ} {b : Bool}
    (h : DbMove adapt x db (.stmt (.advisoryUnlock key)) (.ok b) db') :
    db'.locks.held x = Function.update (db.locks.held x) key (db.locks.held x key - 1) := by
  generalize hr : (Except.ok b : Except Exn (Op.Ans (.stmt (.advisoryUnlock key)))) = r at h
  cases h with
  | stmt htx h =>
    obtain ⟨-,rfl⟩ := Prod.mk.inj (Effect.ok.inj h)
    funext k
    by_cases hk : k = key
    · subst hk
      rw [Function.update_self]
      exact Locks.held_release
    · rw [Function.update_of_ne hk]
      exact Locks.held_release_of_ne_key hk
  | rejected htx => cases hr
  | refused htx => cases hr
  | other hs hc hr => exact absurd rfl (hs _)

theorem eq_of_role (h : DbMove adapt x db o r db') (ho : o.role.isDb = false) : db' = db := by
  cases h with
  | other hs hc hr => rfl
  | stmt htx h => exact absurd ho (by simp [Op.role,Stmt.isDb_role])
  | rejected htx => exact absurd ho (by simp [Op.role,Stmt.isDb_role])
  | refused htx => rfl
  | _ => cases ho

theorem locks_of_role (h : DbMove adapt x db o r db') (hl : o.role ≠ .lock) (hu : o.role ≠ .unlock) :
    db'.locks = db.locks := by
  rcases h.locks with heq | ⟨s,rfl,heq⟩
  · exact heq
  · rw [heq]
    cases s with
    | tryAdvisoryLock key => exact absurd rfl hl
    | advisoryUnlock key => exact absurd rfl hu
    | _ => rfl

/-- In a transaction that is not aborted a call goes through or aborts it. -/
theorem of_active (h : DbMove adapt x db o r db') (htx : db.tx x = .active) :
    (db'.tx x = .active ∧ o.rejects r = false) ∨
      (o.rejects r = true ∧ db'.tx x ≠ .active ∧ db'.locks = db.locks) := by
  cases h with
  | stmt h₁ h =>
    have htx' := (Stmt.frame_of_effect _ h).tx
    exact .inl ⟨by rw [htx',htx],by simp [Op.rejects]⟩
  | @rejected s h₁ =>
    refine .inr ⟨by simp [Op.rejects,Op.role,Stmt.isDb_role],?_,rfl⟩
    simp only [Database.fail,Database.discard,Function.update_self]
    split <;> simp
  | refused h₁ => exact absurd htx h₁
  | commit h₁ => exact .inl ⟨htx,by simp [Op.rejects]⟩
  | commitRejected h₁ => exact .inr ⟨rfl,by simp [Database.discard],rfl⟩
  | commitAborted h₁ => simp [htx] at h₁
  | commitRefused h₁ => simp [htx] at h₁
  | rollback => exact .inl ⟨by simp [Database.discard],by simp [Op.rejects]⟩
  | other hs hc hr =>
    have hdb : o.role.isDb = false := Op.isDb_role_eq_false hs hc hr
    exact .inl ⟨htx,by simp only [Op.rejects,hdb]; split <;> rfl⟩

theorem ok_of_active {s : Stmt} {r : Except Exn s.Ans} (h : DbMove adapt x db (.stmt s) r db')
    (htx : db.tx x = .active) (hr : Op.rejects (.stmt s) r = false) : ∃ a, r = .ok a := by
  cases h with
  | stmt h₁ h => exact ⟨_,rfl⟩
  | rejected h₁ => simp [Op.rejects,Op.role,Stmt.isDb_role] at hr
  | refused h₁ => exact absurd htx h₁
  | other hs hc hr => exact absurd rfl (hs _)

theorem tx_of_ne {y : Conn} (h : DbMove adapt x db o r db') (hy : y ≠ x) :
    db'.tx y = db.tx y := by
  cases h with
  | stmt h₁ h => rw [(Stmt.frame_of_effect _ h).tx]
  | refused h₁ => rfl
  | commit h₁ => rfl
  | commitRefused h₁ => rfl
  | other hs hc hr => rfl
  | _ => exact Function.update_of_ne hy ..

theorem of_inactive {s : Stmt} {r : Except Exn s.Ans} (h : DbMove adapt x db (.stmt s) r db')
    (htx : db.tx x ≠ .active) : r = .error .refused ∧ db' = db := by
  cases h with
  | stmt h₁ h => exact absurd h₁ htx
  | rejected h₁ => exact absurd h₁ htx
  | refused h₁ => exact ⟨rfl,rfl⟩
  | other hs hc hr => exact absurd rfl (hs _)

end DbMove

namespace World

variable {d : Deployment} {x : Conn} {w w' : World}

theorem exec_eq {o : Op} {ch : Choice} {r : Except Exn o.Ans} (h : w.exec d x o ch = some (r,w')) :
    ∃ done w₁, w.perform d x o ch = some (r,done,w₁) ∧ w' = w₁.record x ⟨o,r,done⟩ := by
  unfold exec at h
  split at h
  · rename_i r' done w₁ hp
    simp only [Option.some.injEq,Prod.mk.injEq] at h
    obtain ⟨rfl,rfl⟩ := h
    exact ⟨done,w₁,hp,rfl⟩
  · cases h

theorem performed_of_exec {o : Op} {ch : Choice} {r : Except Exn o.Ans}
    (h : w.exec d x o ch = some (r,w')) :
    ∃ done w₁, Performed d x w o r done w₁ ∧ w' = w₁.record x ⟨o,r,done⟩ := by
  obtain ⟨done,w₁,hp,hw⟩ := exec_eq h
  exact ⟨done,w₁,performed hp,hw⟩

theorem dbMove_of_exec {o : Op} {ch : Choice} {r : Except Exn o.Ans}
    (h : w.exec d x o ch = some (r,w')) : DbMove d.adapt x w.db o r w'.db := by
  obtain ⟨done,w₁,hp,rfl⟩ := performed_of_exec h
  exact hp.db

/-- A statement that goes through, with what the database left open about it. -/
theorem effect_of_exec {s : Stmt} {ch : Choice} {a : s.Ans} (h : w.exec d x (.stmt s) ch = some (.ok a,w')) :
    ∃ pick, ch = .db (.go pick) ∧ w.db.tx x = .active ∧ s.effect d.adapt w.db x pick = .ok (a,w'.db) := by
  obtain ⟨done,w₁,hp,rfl⟩ := exec_eq h
  change w.onDb _ ch = _ at hp
  cases ch with
  | db c =>
    simp only [onDb] at hp
    split at hp
    · rename_i r db hdb
      obtain ⟨hr,hrest⟩ := Prod.mk.inj (Option.some.inj hp)
      obtain rfl : r = .ok a := hr
      obtain rfl : { w with db := db } = w₁ := (Prod.mk.inj hrest).2
      cases c with
      | reject =>
        simp only [Database.execStmt] at hdb
        split at hdb
        · cases hdb
        · cases hdb
      | go pick =>
        simp only [Database.execStmt] at hdb
        split at hdb
        · rename_i htx
          split at hdb
          · cases hdb
          · cases hdb
          · rename_i a' db' he
            obtain ⟨ha,rfl⟩ := Prod.mk.inj (Option.some.inj hdb)
            obtain rfl := Except.ok.inj ha
            exact ⟨pick,rfl,htx,he⟩
        · cases hdb
    · cases hp
  | _ => cases hp

/-- The environment moves only the channels and the registry. -/
theorem env_rest {e : EnvAct} (h : w.env d e = some w') :
    w'.rest = w.rest ∨ ∃ r, w'.rest = { w with registry := r }.rest := by
  cases e with
  | reload r =>
    obtain rfl := Option.some.inj h
    exact .inr ⟨r,rfl⟩
  | reap now =>
    obtain rfl := Option.some.inj h
    exact .inl (foldl_closeChannel_rest ..)
  | closeAll =>
    obtain rfl := Option.some.inj h
    exact .inl (foldl_closeChannel_rest ..)
  | reader i a =>
    simp only [env] at h
    split at h
    · split at h
      · split at h
        · obtain rfl := Option.some.inj h
          exact .inl rfl
        · cases h
      · cases h
    · cases h

/-- What the environment leaves alone. -/
structure EnvFrame (w w' : World) : Prop where
  db : w'.db = w.db
  handling : w'.handling = w.handling
  stories : w'.stories = w.stories
  events : w'.events = w.events
  serving : w'.serving = w.serving

theorem envFrame {e : EnvAct} (h : w.env d e = some w') : EnvFrame w w' := by
  rcases env_rest h with h | ⟨r,h⟩
  all_goals
    simp only [rest,Prod.mk.injEq] at h
    obtain ⟨h₁,h₂,h₃,h₄,h₅,-⟩ := h
    exact ⟨h₁,h₂,h₃,h₄,h₅⟩

end World

end Saarathi
