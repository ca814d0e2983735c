import Saarathi.Interviews
import Saarathi.Pool
import Saarathi.TurnLock

/-!
# Requests that name a session

`POST` finalize, resume and abandon name a session, but the session that is
abandoned, the text that is reconciled and the channel that is closed are looked
up by conversation.
-/

namespace Saarathi

open Machine Program Program.Prog Interleaving ReadCommitted

/-- The session that a request names. -/
def Req.addresses : Req → Option SessionId
  | finalize (.id sid) _ => some sid
  | resume (.id sid) _ => some sid
  | abandon (.id sid) _ => some sid
  | _ => none

/-- The session that a query by its key has yielded. -/
def Op.session : (o : Op) → Except Exn o.Ans → Option AgentSession
  | .stmt (.getSession _),.ok rows => (rows : List AgentSession).head?
  | _,_ => none

/-- The user's text that a query has yielded. -/
def Op.lastText : (o : Op) → Except Exn o.Ans → Option String
  | .stmt (.lastUserContent _),.ok texts => (texts : List String).head?
  | _,_ => none

/-- No other session is open in the conversation, so that its channel serves no other. -/
def OnlyOpen (w : World) (c : ConversationId) (id : SessionId) : Prop :=
  ∀ k s, w.db.sessions.committed k = some s → s.isOpen = true → s.conversationId = c → k = id

/-- A handler of the session was given the text. -/
def SentIn (d : Deployment) (h : Interviews) (id : SessionId) (text : String) : Prop :=
  ∃ e ∈ h.given, e.1 = id ∧ storedText d.adapt e.2 = some text

theorem SentIn.mono {d : Deployment} {h h' : Interviews} {id : SessionId} {text : String}
    (hs : SentIn d h id text) (hh : h.given ⊆ h'.given) : SentIn d h' id text := by
  obtain ⟨e,he,hid,htext⟩ := hs
  exact ⟨e,hh he,hid,htext⟩

instance (d : Deployment) (h : Interviews) (id : SessionId) (text : String) :
    Decidable (SentIn d h id text) :=
  inferInstanceAs (Decidable (∃ e ∈ h.given, _))

/-- Mitra is asked about the session that the request has read. -/
def Recoverable (d : Deployment) (w : World) (x : Conn) : Prop :=
  d.mitraEnabled = true ∧ ∃ s ∈ w.lastRead x Op.session, ∃ registry ∈ w.lastRead x Op.registry,
    ((registry.getById s.agentId).bind (·.spec.remote)).isSome = true ∧
      (s.remoteSessionId.any (· ≠ "")) = true ∧ (s.remoteProfileId.any (· ≠ "")) = true

instance (d : Deployment) (w : World) (x : Conn) : Decidable (Recoverable d w x) :=
  inferInstanceAs (Decidable (_ ∧ _))

/-- The conversation whose open session a call abandons. -/
def Op.abandons : Op → Option ConversationId
  | .stmt (.abandonOpenSession c _) => some c
  | _ => none

/-- The conversation whose newest user message a call reads. -/
def Op.recovers : Op → Option ConversationId
  | .stmt (.lastUserContent c) => some c
  | _ => none

/-- The open session that an abandon meets is the one named, and so is the session in which the
newest user message was sent that a recovery meets. -/
def Meets (d : Deployment) (x : Conn) (id : SessionId) (w : World × Interviews) (o : Op) : Prop :=
  (∀ c ∈ o.abandons, ∀ s ∈ w.1.db.sessions.select x (fun s => s.conversationId = c && s.isOpen),
    s.id = id) ∧
  ∀ c ∈ o.recovers, Recoverable d w.1 x →
    ∀ m ∈ ((w.1.db.transcript x c).filter fun m => m.new.role = .user).getLast?,
      m.content ≠ "" → SentIn d w.2 id m.content

instance (d : Deployment) (x : Conn) (id : SessionId) (w : World × Interviews) (o : Op) :
    Decidable (Meets d x id w o) :=
  inferInstanceAs (Decidable (_ ∧ _))

/-- Every call of `x` meets the session named. -/
def MeetsNamed (d : Deployment) (x : Conn) (id : SessionId) (c : Noted) : Action → Prop
  | .call y _ => y = x → ∀ o ∈ c.nextCall x, Meets d x id c.world o
  | _ => True

instance (d : Deployment) (x : Conn) (id : SessionId) (c : Noted) :
    (a : Action) → Decidable (MeetsNamed d x id c a)
  | .call y _ => inferInstanceAs (Decidable (y = x → ∀ o ∈ c.nextCall x, Meets d x id c.world o))
  | .start .. => isTrue trivial
  | .finish _ => isTrue trivial
  | .env _ => isTrue trivial

namespace Addressed

variable {d : Deployment} {x : Conn} {id : SessionId} {w w' : World × Interviews} {α : Type}

/-- Every row that `x` has written is the one named. -/
def Only (x : Conn) (id : SessionId) (w : World × Interviews) : Prop :=
  ∀ k v, (w.1.db.sessions.row k).dirty = some (x,v) → k = id

/-- `x` has written no row. -/
def Clean (x : Conn) (w : World × Interviews) : Prop :=
  ∀ k v, (w.1.db.sessions.row k).dirty ≠ some (x,v)

/-- `x` has written the row named, whose session is the conversation's open one. -/
structure Holds (x : Conn) (id : SessionId) (c : ConversationId) (w : World × Interviews) : Prop where
  only : Only x id w
  own : ∃ v, (w.1.db.sessions.row id).dirty = some (x,v)
  isOpen : ∃ u, w.1.db.sessions.committed id = some u ∧ u.isOpen = true ∧ u.conversationId = c

/-- A call of a request that names `id` stays with it. -/
structure Stays (d : Deployment) (x : Conn) (id : SessionId) (o : Op) (w : World × Interviews) :
    Prop where
  lawful : o.Lawful
  rows : Meets d x id w o → ∀ r w', Called d x o w.1 r w' → ∀ k, k ≠ id →
    w'.db.sessions.row k = w.1.db.sessions.row k
  role : o.role ≠ .channel
  channel : ∀ c, o = .popChannel c → AgentSession.Consistent w.1.db.sessions → OnlyOpen w.1 c id
  text : ∀ sid pid, o = .recentChat sid pid →
    ∃ text ∈ w.1.lastRead x Op.lastText, SentIn d w.2 id text

def spec (d : Deployment) (x : Conn) (id : SessionId) : Spec Op Op.Ans Exn (World × Interviews) where
  pre := Stays d x id
  post o w r w' := Called d x o w.1 r w'.1 ∧ w.2.given ⊆ w'.2.given ∧ Meets d x id w o
  rely w w' := Unmoved x w.1 w'.1 ∧ w.2.given ⊆ w'.2.given

theorem Clean.only (h : Clean x w) : Only x id w := fun k v hd => absurd hd (h k v)

theorem Only.not_dirty (h : Only x id w) {k : ℕ} (hk : k ≠ id) (v : AgentSession) :
    (w.1.db.sessions.row k).dirty ≠ some (x,v) := fun hd => hk (h k v hd)

theorem Only.unmoved (h : Only x id w) (hr : Unmoved x w.1 w'.1) : Only x id w' :=
  fun k v hd => h k v (hr.dirty k v hd)

theorem Clean.unmoved (h : Clean x w) (hr : Unmoved x w.1 w'.1) : Clean x w' :=
  fun k v hd => h k v (hr.dirty k v hd)

theorem Only.of_rows (h : Only x id w)
    (hr : ∀ k, k ≠ id → w'.1.db.sessions.row k = w.1.db.sessions.row k) : Only x id w' := by
  intro k v hd
  by_contra hk
  rw [hr k hk] at hd
  exact hk (h k v hd)

theorem Holds.of_row {c : ConversationId} (h : Holds x id c w)
    (ho : Only x id w') (hr : w'.1.db.sessions.row id = w.1.db.sessions.row id) : Holds x id c w' := by
  refine ⟨ho,?_,?_⟩
  · rw [hr]
    exact h.own
  · rw [Table.committed,hr]
    exact h.isOpen

theorem Holds.unmoved {c : ConversationId} (h : Holds x id c w) (hr : Unmoved x w.1 w'.1) :
    Holds x id c w' := by
  obtain ⟨v,hv⟩ := h.own
  exact h.of_row (h.only.unmoved hr) (hr.own id v hv)

/-- A conversation has at most one open session. -/
theorem Holds.onlyOpen {c : ConversationId} (h : Holds x id c w)
    (hc : AgentSession.Consistent w.1.db.sessions) : OnlyOpen w.1 c id := by
  obtain ⟨u,hu,hopen,rfl⟩ := h.isOpen
  intro k s hs hsopen hconv
  exact hc.sound_committed.oneOpen k id s u hs hu hsopen hopen hconv

/-- The roles of the calls that need no proof. -/
def freeRoles : List Role :=
  [.query,.count,.record,.newConversation,.pin,.unpin,.lock,.unlock,.commit,.rollback,.story,.report,.mark]

/-- A call that writes no session, closes no channel and asks Mitra about no text. -/
theorem stays {o : Op} (ho : o.role ∉ [Role.create,.apply,.forced,.claim,.abandon]) (hr : o.role ≠ .channel)
    (hp : ∀ c, o ≠ .popChannel c) (ht : ∀ sid pid, o ≠ .recentChat sid pid) (hw : Only x id w) :
    Stays d x id o w where
  lawful := fun e => ho (by simp [e])
  rows _ r w' hc k hk := hc.row_of_role ho (hw.not_dirty hk)
  role := hr
  channel c hpop := absurd hpop (hp c)
  text sid pid hchat := absurd hchat (ht sid pid)

theorem not_writes_of_free {r : Role} (h : r ∈ freeRoles) : r ∉ [Role.create,.apply,.forced,.claim,.abandon] := by
  cases r <;> first | decide | exact absurd h (by decide)

theorem stays_of_free {o : Op} (ho : o.role ∈ freeRoles) (hw : Only x id w) : Stays d x id o w := by
  apply stays (not_writes_of_free ho) ?_ ?_ ?_ hw
  · exact fun e => absurd (e ▸ ho) (by decide)
  · rintro c rfl
    exact absurd ho (show Role.pop ∉ freeRoles by decide)
  · rintro sid pid rfl
    exact absurd ho (show Role.read ∉ freeRoles by decide)

theorem keeps_only {rs : List Role} {p : Proc α} (h : Within rs p) (hs : rs ⊆ freeRoles) :
    Keeps (spec d x id) (Only x id) p := by
  apply Keeps.of_all h
  intro o ho w hw w₁ hr
  have hfree : o.role ∈ freeRoles := hs ho
  have hstays : Stays d x id o w₁ := stays_of_free hfree (hw.unmoved hr.1)
  exact ⟨hstays,fun r w₂ h₂ => (hw.unmoved hr.1).of_rows (hstays.rows h₂.2.2 r w₂.1 h₂.1)⟩

theorem Clean.called {o : Op} {r : Except Exn o.Ans} (hw : Clean x w) (hc : Called d x o w.1 r w'.1)
    (ho : o.role ∉ [Role.create,.apply,.forced,.claim,.abandon]) : Clean x w' := by
  intro k v hd
  rw [hc.row_of_role ho (hw k)] at hd
  exact hw k v hd

/-- Calls that write no session leave no row written. -/
theorem keeps_clean {rs : List Role} {p : Proc α} (h : Within rs p) (hs : rs ⊆ freeRoles) :
    Keeps (spec d x id) (Clean x) p := by
  apply Keeps.of_all h
  intro o ho w hw w₁ hr
  have hfree : o.role ∈ freeRoles := hs ho
  have hclean : Clean x w₁ := hw.unmoved hr.1
  exact ⟨stays_of_free hfree hclean.only,fun r w₂ h₂ => hclean.called h₂.1 (not_writes_of_free hfree)⟩

/-- A statement that writes no session leaves the named one as it is, or fails. -/
theorem wp_stmt {s : Stmt} {c : ConversationId} (hs : freeRoles.contains s.role = true)
    (hw : Holds x id c w) :
    wp (spec d x id) (stmt s) (fun r w' => Only x id w' ∧ ∀ a, r = .ok a → Holds x id c w') w := by
  apply wp_perform.mpr
  intro w₁ hr
  have hw₁ := hw.unmoved hr.1
  have hfree : s.role ∈ freeRoles := List.contains_iff_mem.mp hs
  have hstays : Stays d x id (.stmt s) w₁ := stays_of_free hfree hw₁.only
  refine ⟨hstays,fun r w₂ h₂ => ?_⟩
  have honly : Only x id w₂ := hw₁.only.of_rows (hstays.rows h₂.2.2 r w₂.1 h₂.1)
  refine ⟨honly,?_⟩
  rintro a rfl
  exact hw₁.of_row honly (congrFun (h₂.1.row_of_stmt (not_writes_of_free hfree)) id)

/-- An update of the named session. -/
theorem keeps_apply {session : AgentSession} {delta : SessionDelta} (hid : session.id = id) :
    Keeps (spec d x id) (Only x id) (SessionService.apply session delta) := by
  unfold SessionService.apply SessionService.checkTransition
  split
  · rename_i hallowed
    refine Keeps.bind (Keeps.pure _) fun _ => ?_
    refine Keeps.bind ?_ fun updated => ?_
    · have hone : ∀ rows : List AgentSession, Within [] (scalarOneOrNone rows) := Within.scalarOneOrNone
      refine Keeps.bind (Keeps.perform ?_) fun rows => keeps_only (hone rows) (by decide)
      intro w hw w₁ hr
      have hw₁ := hw.unmoved hr.1
      have hrows : ∀ r w', Called d x (.stmt (.updateStateAndFields session.id [session.state] delta.state
          delta.fields)) w₁.1 r w' → ∀ k, k ≠ id → w'.db.sessions.row k = w₁.1.db.sessions.row k := by
        intro r w' hc k hk
        rcases r with e | rows
        · exact hc.row_of_error (hw₁.not_dirty hk)
        · rcases hc.of_update with ⟨-,-,hsame⟩ | ⟨u,now,-,-,hchange⟩
          · rw [hsame]
          · exact hchange.others k (hid ▸ hk)
      have hrole : (Op.stmt (.updateStateAndFields session.id [session.state] delta.state delta.fields)).role =
          .apply := by simp [Op.role,Stmt.role,hallowed]
      refine ⟨⟨?_,fun _ => hrows,?_,?_,?_⟩,fun r w₂ h₂ => hw₁.of_rows (hrows r w₂.1 h₂.1)⟩
      · simp [Op.Lawful,hrole]
      · simp [hrole]
      · rintro _ ⟨⟩
      · rintro _ _ ⟨⟩
    · cases updated with
      | none => exact Keeps.throw _
      | some updated => exact Keeps.pure _
  · exact fun w hw => hw

open OrchestrationService

/-- The channel of the conversation whose open session is the one named. -/
theorem wp_closeRemoteChannel {c : ConversationId} (hw : Holds x id c w) :
    wp (spec d x id) (closeRemoteChannel d c) (fun _ w' => Only x id w') w := by
  unfold closeRemoteChannel
  split
  · apply wp_bind.mpr
    apply wp_perform.mpr
    intro w₁ hr
    have hw₁ := hw.unmoved hr.1
    have hrows : ∀ r w', Called d x (.popChannel c) w₁.1 r w' → ∀ k, k ≠ id →
        w'.db.sessions.row k = w₁.1.db.sessions.row k := fun r w' hc k _ => by rw [hc.db_of_role rfl]
    refine ⟨⟨nofun,fun _ => hrows,nofun,?_,nofun⟩,fun r w₂ h₂ => ?_⟩
    · rintro c' hc' hconsistent
      obtain rfl := Op.popChannel.inj hc'
      exact hw₁.onlyOpen hconsistent
    · have honly : Only x id w₂ := hw₁.only.of_rows (hrows r w₂.1 h₂.1)
      rcases r with e | u <;> exact honly
  · exact hw.only

theorem keeps_endStory (claimed : AgentSession) (agent : Option RegisteredAgent) (user : UserContext) :
    Keeps (spec d x id) (Only x id) (endStory d claimed agent user) :=
  keeps_only (endStory_calls d claimed agent user).within (by decide)

theorem wp_finalizeClaimed {claimed : AgentSession} {agent : Option RegisteredAgent} {user : UserContext}
    (hid : claimed.id = id) (hw : Holds x id claimed.conversationId w) :
    wp (spec d x id) (finalizeClaimed d claimed agent user) (fun _ w' => Only x id w') w := by
  apply wp_bind.mpr
  apply wp_mono (wp_closeRemoteChannel hw)
  rintro (e | u) w₁ h₁
  · exact h₁
  apply wp_bind.mpr
  apply wp_attempt.mpr
  apply wp_mono (keeps_endStory claimed agent user w₁ h₁)
  rintro (e | ⟨remote,storyId,content⟩) w₂ h₂
  · exact Keeps.bind (keeps_apply hid) (fun _ => Keeps.throw _) w₂ h₂
  · have hreport := (fetchReport_calls claimed remote).within
    have hunpin : Within [.unpin] (ConversationRepository.unpin claimed.conversationId) := Within.stmt rfl
    refine Keeps.bind (keeps_only hreport (by decide)) (fun url => ?_) w₂ h₂
    refine Keeps.bind (keeps_apply hid) fun completed => ?_
    exact Keeps.bind (keeps_only hunpin (by decide)) fun _ => Keeps.pure _

/-- The row that `x` changes first was the committed one. -/
theorem holds_of_changes {u v : AgentSession} (hw : Clean x w) (hopen : u.isOpen = true)
    (hc : Database.Changes x id u v w.1.db w'.1.db) : Holds x id u.conversationId w' := by
  have hcommitted : w.1.db.sessions.committed id = some u := by
    rw [← hc.view]
    exact (Row.view_of_not_dirty (hw id)).symm
  refine ⟨hw.only.of_rows hc.others,⟨v,by rw [hc.row]; rfl⟩,u,?_,hopen,rfl⟩
  rw [Table.committed,hc.row]
  exact hcommitted

theorem wp_finalize {session : AgentSession} {agent : Option RegisteredAgent} {user : UserContext}
    (hid : session.id = id) (hw : Clean x w) :
    wp (spec d x id) (finalize d session agent user) (fun _ w' => Only x id w') w := by
  apply wp_bind.mpr
  apply wp_bind.mpr
  apply wp_perform.mpr
  intro w₁ hr
  have hw₁ := hw.unmoved hr.1
  have hrows : ∀ r w', Called d x (.stmt (.claimFinalizing session.id)) w₁.1 r w' → ∀ k, k ≠ id →
      w'.db.sessions.row k = w₁.1.db.sessions.row k := by
    intro r w' hc k hk
    rcases r with e | rows
    · exact hc.row_of_error (hw₁ k)
    · rcases hc.of_claim with ⟨-,-,hsame⟩ | ⟨u,-,-,hchange⟩
      · rw [hsame]
      · exact hchange.others k (hid ▸ hk)
  refine ⟨⟨nofun,fun _ => hrows,nofun,nofun,nofun⟩,fun r w₂ h₂ => ?_⟩
  have honly : Only x id w₂ := hw₁.only.of_rows (hrows r w₂.1 h₂.1)
  rcases r with e | rows
  · exact honly
  rcases h₂.1.of_claim with ⟨rfl,-,-⟩ | ⟨u,hu,rfl,hchange⟩
  · have hget := (SessionService.get_calls session.id).within
    exact Keeps.bind (keeps_only hget (by decide)) (fun _ => Keeps.pure _) w₂ honly
  · have hopen : u.isOpen = true := by
      simp [AgentSession.isOpen,SessionState.not_terminal_of_claimable hu]
    have hholds : Holds x id u.conversationId w₂ := holds_of_changes hw₁ hopen (hid ▸ hchange)
    apply wp_bind.mpr
    apply wp_mono (wp_stmt rfl hholds)
    rintro (e | a) w₃ ⟨h₃,hok⟩
    · exact h₃
    · exact wp_finalizeClaimed (hchange.key.trans hid) (hok a rfl)

/-- The session that is abandoned is the one named, or there is none. -/
theorem wp_abandon {c : ConversationId} {reason actor : String} (hw : Clean x w) :
    wp (spec d x id) (SessionService.abandon c reason actor) (fun r w' => Only x id w' ∧
      ∀ s, r = .ok (some s) → Holds x id c w') w := by
  have hget : Within [.query] (AgentSessionRepository.getOpenForConversation c) := (Straight.one rfl).within
  apply wp_bind.mpr
  apply wp_mono (keeps_clean hget (by decide) w hw)
  rintro (e | _ | session) w₁ h₁
  · exact ⟨h₁.only,fun s hs => by simp at hs⟩
  · exact ⟨h₁.only,fun s hs => by simp at hs⟩
  apply wp_bind.mpr
  apply wp_bind.mpr
  apply wp_perform.mpr
  intro w₂ hr
  have hw₂ := h₁.unmoved hr.1
  have hrows : Meets d x id w₂ (.stmt (.abandonOpenSession c reason)) → ∀ r w',
      Called d x (.stmt (.abandonOpenSession c reason)) w₂.1 r w' → ∀ k, k ≠ id →
        w'.db.sessions.row k = w₂.1.db.sessions.row k := by
    intro hmeets r w' hc k hk
    rcases r with e | rows
    · exact hc.row_of_error (hw₂ k)
    · rcases hc.of_abandon (hmeets.1 c rfl) with ⟨-,hsame⟩ | ⟨u,v,-,-,-,hchange⟩
      · rw [hsame]
      · exact hchange.others k hk
  refine ⟨⟨nofun,hrows,nofun,nofun,nofun⟩,fun r w₃ h₃ => ?_⟩
  have honly : Only x id w₃ := hw₂.only.of_rows (hrows h₃.2.2 r w₃.1 h₃.1)
  rcases r with e | rows
  · exact ⟨honly,fun s hs => by simp at hs⟩
  rcases h₃.1.of_abandon (h₃.2.2.1 c rfl) with ⟨rfl,-⟩ | ⟨u,v,rfl,hopen,rfl,hchange⟩
  · exact ⟨honly,fun s hs => by simp at hs⟩
  have hholds : Holds x id u.conversationId w₃ := holds_of_changes hw₂ hopen hchange
  apply wp_bind.mpr
  apply wp_mono (wp_stmt rfl hholds)
  rintro (e | a) w₄ ⟨h₄,hok₄⟩
  · exact ⟨h₄,fun s hs => by simp at hs⟩
  apply wp_bind.mpr
  apply wp_mono (wp_stmt rfl (hok₄ a rfl))
  rintro (e | b) w₅ ⟨h₅,hok₅⟩
  · exact ⟨h₅,fun s hs => by simp at hs⟩
  · exact ⟨h₅,fun _ _ => hok₅ b rfl⟩

/-- A query of the named session yields it, or nothing. -/
theorem wp_get {Q : Except Exn (Option AgentSession) → World × Interviews → Prop} (hw : Clean x w)
    (hraise : ∀ e w', Clean x w' → Q (.error e) w') (hnone : ∀ w', Clean x w' → Q (.ok none) w')
    (hsome : ∀ w' s, Clean x w' → s.id = id → w'.1.lastRead x Op.session = some s → Q (.ok (some s)) w') :
    wp (spec d x id) (SessionService.get id) Q w := by
  apply wp_bind.mpr
  apply wp_perform.mpr
  intro w₁ hr
  have hw₁ := hw.unmoved hr.1
  have hfree : (Op.stmt (.getSession id)).role ∈ freeRoles := show Role.query ∈ freeRoles by decide
  refine ⟨stays_of_free hfree hw₁.only,fun r w₂ h₂ => ?_⟩
  have hclean : Clean x w₂ := hw₁.called h₂.1 (not_writes_of_free hfree)
  rcases r with e | rows
  · exact hraise e w₂ hclean
  · rcases rows with _ | ⟨s,_ | ⟨s',ss⟩⟩
    · exact hnone w₂ hclean
    · refine hsome w₂ s hclean (h₂.1.of_getSession List.mem_cons_self).1 ?_
      rw [h₂.1.lastRead]
      rfl
    · exact hraise _ w₂ hclean

/-- A snapshot of the registry. -/
theorem wp_snapshot {f : AgentRegistry → Proc α} {Q : Except Exn α → World × Interviews → Prop}
    (hw : Clean x w)
    (h : ∀ w' registry, Clean x w' → w'.1.lastRead x Op.session = w.1.lastRead x Op.session →
      w'.1.lastRead x Op.registry = some registry → wp (spec d x id) (f registry) Q w') :
    wp (spec d x id) (snapshot >>= f) Q w := by
  apply wp_bind.mpr
  apply wp_perform.mpr
  intro w₁ hr
  have hw₁ := hw.unmoved hr.1
  have hstays : Stays d x id .snapshot w₁ := stays (by decide) nofun nofun nofun hw₁.only
  refine ⟨hstays,fun r w₂ h₂ => ?_⟩
  obtain ⟨registry,rfl⟩ := h₂.1.sure rfl
  refine h w₂ registry (hw₁.called h₂.1 (by decide)) ?_ ?_
  · rw [h₂.1.lastRead,hr.1.lastRead]
    rfl
  · rw [h₂.1.lastRead]
    rfl

theorem wp_finalizeNow {user : UserContext} (hw : Clean x w) :
    wp (spec d x id) (finalizeNow d id user) (fun _ w' => Only x id w') w := by
  apply wp_bind.mpr
  apply wp_get hw
  · exact fun _ _ h => h.only
  · exact fun _ h => h.only
  intro w₁ session h₁ hid _
  apply wp_snapshot h₁
  intro w₂ registry h₂ _ _
  apply wp_bind.mpr
  apply wp_mono (wp_finalize hid h₂)
  rintro (e | s) w₃ h₃ <;> exact h₃

theorem keeps_storeRecovered {session : AgentSession} {agent : RegisteredAgent}
    {result : Reconciliation} (hid : session.id = id) :
    Keeps (spec d x id) (Only x id) (storeRecovered session agent result) := by
  have hseq := (ConversationRepository.nextSeqForUpdate_calls session.conversationId).within
  have hinsert : ∀ m, Within [.record] (MessageRepository.insert m) := fun m => Within.stmt rfl
  have htouch : Within [.record] (ConversationRepository.touch session.conversationId none) :=
    Within.stmt rfl
  have hcommit : Within [.commit] (perform Op.commit : Proc Unit) := Within.perform rfl
  refine Keeps.bind (keeps_only hseq (by decide)) fun seq => ?_
  refine Keeps.bind (keeps_only (hinsert _) (by decide)) fun id => ?_
  refine Keeps.bind (keeps_apply hid) fun updated => ?_
  refine Keeps.bind (keeps_only htouch (by decide)) fun _ => ?_
  exact Keeps.bind (keeps_only hcommit (by decide)) fun _ => Keeps.pure _

/-- What the newest user message of a conversation says. -/
theorem lastText_of_called {c : ConversationId} {texts : List String} {w w' : World}
    (h : Called d x (.stmt (.lastUserContent c)) w (.ok texts) w') :
    texts = (((w.db.transcript x c).filter fun m => m.new.role = .user).getLast?.map (·.content)).toList := by
  obtain ⟨p,he⟩ := h.effect
  exact (Prod.mk.inj (Effect.ok.inj he)).1.symm

/-- Mitra is asked about the text that was read. -/
theorem wp_reconcileTurn {agent : RegisteredAgent} {registry : AgentRegistry} {session : AgentSession}
    {text : String} (hw : Clean x w) (hs : w.1.lastRead x Op.session = some session)
    (hr : w.1.lastRead x Op.registry = some registry) (ha : registry.getById session.agentId = some agent)
    (ht : w.1.lastRead x Op.lastText = some text)
    (hsent : Recoverable d w.1 x → SentIn d w.2 id text) :
    wp (spec d x id) (reconcileTurn d agent (some session) (.str text)) (fun _ w' => Only x id w') w := by
  unfold reconcileTurn
  split
  · rename_i own remote henabled hown hremote
    obtain rfl := Option.some.inj hown
    split
    · rename_i sid pid hsid hpid
      split
      · exact hw.only
      · rename_i hids
        push Not at hids
        have hrecover : Recoverable d w.1 x := by
          refine ⟨henabled,session,hs,registry,hr,?_,?_,?_⟩
          · simp [ha,hremote]
          · simp [hsid,hids.1]
          · simp [hpid,hids.2]
        apply wp_bind.mpr
        apply wp_perform.mpr
        intro w₁ h₁
        have hw₁ := hw.unmoved h₁.1
        have hrows : ∀ r w', Called d x (.recentChat sid pid) w₁.1 r w' → ∀ k, k ≠ id →
            w'.db.sessions.row k = w₁.1.db.sessions.row k := fun r w' hc k _ => by rw [hc.db_of_role rfl]
        refine ⟨⟨nofun,fun _ => hrows,nofun,nofun,?_⟩,fun r w₂ h₂ => ?_⟩
        · intro sid' pid' _
          refine ⟨text,?_,(hsent hrecover).mono h₁.2⟩
          rw [h₁.1.lastRead]
          exact ht
        · have honly : Only x id w₂ := hw₁.only.of_rows (hrows r w₂.1 h₂.1)
          rcases r with e | chats <;> exact honly
    · exact hw.only
  · exact hw.only

theorem wp_resumeTurn (hw : Clean x w) :
    wp (spec d x id) (resumeTurn d id) (fun _ w' => Only x id w') w := by
  apply wp_bind.mpr
  apply wp_get hw
  · exact fun _ _ h => h.only
  · exact fun _ h => h.only
  intro w₁ session h₁ hid hsession
  apply wp_snapshot h₁
  intro w₂ registry h₂ hsession₂ hregistry
  apply wp_bind.mpr
  apply wp_bind.mpr
  apply wp_perform.mpr
  intro w₃ h₃
  have hw₃ := h₂.unmoved h₃.1
  have hfree : (Op.stmt (.lastUserContent session.conversationId)).role ∈ freeRoles :=
    show Role.query ∈ freeRoles by decide
  refine ⟨stays_of_free hfree hw₃.only,fun r w₄ h₄ => ?_⟩
  have hw₄ : Clean x w₄ := hw₃.called h₄.1 (not_writes_of_free hfree)
  rcases r with e | texts
  · exact hw₄.only
  have htexts := lastText_of_called h₄.1
  have hread : ∀ {β : Type} (f : (o : Op) → Except Exn o.Ans → Option β),
      f (.stmt (.lastUserContent session.conversationId)) (.ok texts) = none →
      w₄.1.lastRead x f = w₂.1.lastRead x f := by
    intro β f hf
    rw [h₄.1.lastRead,hf,h₃.1.lastRead]
    rfl
  have hsession₄ : w₄.1.lastRead x Op.session = some session := by rw [hread _ rfl,hsession₂,hsession]
  have hregistry₄ : w₄.1.lastRead x Op.registry = some registry := by rw [hread _ rfl,hregistry]
  rcases hnewest : ((w₃.1.db.transcript x session.conversationId).filter
      fun m => m.new.role = .user).getLast? with _ | m
  · rw [hnewest] at htexts
    subst htexts
    cases registry.getById session.agentId with
    | none => exact hw₄.only
    | some agent => exact hw₄.only
  · rw [hnewest] at htexts
    subst htexts
    have hlast : w₄.1.lastRead x Op.lastText = some m.content := by
      rw [h₄.1.lastRead]
      rfl
    have hrecover : Recoverable d w₄.1 x → Recoverable d w₃.1 x := by
      rintro ⟨henabled,hids⟩
      refine ⟨henabled,?_⟩
      rw [hsession₄,hregistry₄] at hids
      rwa [h₃.1.lastRead,h₃.1.lastRead,hsession₂,hsession,hregistry]
    cases hagent : registry.getById session.agentId with
    | none => exact hw₄.only
    | some agent =>
      change wp (spec d x id) (if m.content = "" then _ else _) (fun _ w' => Only x id w') w₄
      split
      · exact hw₄.only
      · rename_i hne
        have hsent : Recoverable d w₄.1 x → SentIn d w₄.2 id m.content := fun hr =>
          (h₄.2.2.2 _ rfl (hrecover hr) m hnewest hne).mono h₄.2.1
        apply wp_bind.mpr
        apply wp_mono (wp_reconcileTurn hw₄ hsession₄ hregistry₄ hagent hlast hsent)
        rintro (e | _ | result) w₅ h₅
        · exact h₅
        · exact h₅
        · simp only
          split
          · exact Keeps.bind (keeps_storeRecovered hid) (fun _ => Keeps.pure _) w₅ h₅
          · exact h₅

/-- The session that the path names, if the caller may see it. -/
theorem wp_resolve {user : UserContext} {f : Option (SessionId × AgentSession) → Proc Response}
    (hw : Clean x w) (hf : ∀ w' r, Clean x w' → (∀ s, r = some s → s.1 = id) →
      wp (spec d x id) (f r) (fun _ w' => Only x id w') w') :
    wp (spec d x id) (Routes.resolve (.id id) user >>= f) (fun _ w' => Only x id w') w := by
  apply wp_bind.mpr
  apply wp_bind.mpr
  apply wp_get hw
  · exact fun _ _ h => h.only
  · intro w₁ h₁
    exact hf w₁ none h₁ fun s hs => by cases hs
  intro w₁ dto h₁ hid _
  have hscoped : Within [.query] (ConversationRepository.getScoped dto.conversationId user) :=
    (Straight.one rfl).within
  apply wp_bind.mpr
  apply wp_mono (keeps_clean hscoped (by decide) w₁ h₁)
  rintro (e | _ | conv) w₂ h₂
  · exact h₂.only
  · exact hf w₂ none h₂ fun s hs => by cases hs
  · exact hf w₂ (some (id,dto)) h₂ fun s hs => by cases hs; rfl

theorem wp_returningMitraErrors {p : Proc Response}
    (h : wp (spec d x id) p (fun _ w' => Only x id w') w) :
    wp (spec d x id) (Routes.returningMitraErrors p) (fun _ w' => Only x id w') w := by
  apply wp_catching.mpr
  apply wp_mono h
  rintro (e | r) w' h'
  · cases e <;> exact h'
  · exact h'

theorem wp_withDb {route : Proc Response}
    (h : ∀ w, Clean x w → wp (spec d x id) route (fun _ w' => Only x id w') w) (hw : Clean x w) :
    wp (spec d x id) (Routes.withDb route) (fun _ w' => Only x id w') w := by
  have honly : ∀ o : Op, freeRoles.contains o.role = true → Keeps.Call (spec d x id) (Only x id) o :=
    fun o ho w hw => wp_perform.mp (keeps_only (Within.perform ho) (List.Subset.refl _) w hw)
  refine Routes.wp_withDb (A := Clean x) (B := Only x id) ?_ h ?_ (honly _ rfl) (honly _ rfl) ?_ hw
  · exact fun o w r w' ho hp => hp.1.sure ho
  · rintro o (rfl | rfl) w hw w₁ h₁
    · have hw₁ := hw.unmoved h₁.1
      exact ⟨stays (by decide) nofun nofun nofun hw₁.only,fun r w₂ h₂ => hw₁.called h₂.1 (by decide)⟩
    · have hw₁ := hw.unmoved h₁.1
      have hfree : (Op.stmt .registryQuery).role ∈ freeRoles := by decide
      exact ⟨stays_of_free hfree hw₁.only,fun r w₂ h₂ => hw₁.called h₂.1 (not_writes_of_free hfree)⟩
  · exact fun w hw => Keeps.perform (honly _ rfl) w hw

theorem wp_finalizeSession {user : UserContext} (hw : Clean x w) :
    wp (spec d x id) (Routes.finalizeSession d (.id id) user) (fun _ w' => Only x id w') w := by
  apply wp_resolve hw
  rintro w₁ (_ | ⟨sid,dto⟩) h₁ hid
  · exact h₁.only
  obtain rfl : sid = id := hid _ rfl
  apply wp_returningMitraErrors
  apply wp_bind.mpr
  apply wp_mono (wp_finalizeNow h₁)
  rintro (e | _ | s) w₂ h₂ <;> exact h₂

theorem wp_resumeSession {user : UserContext} (hw : Clean x w) :
    wp (spec d x id) (Routes.resumeSession d (.id id) user) (fun _ w' => Only x id w') w := by
  apply wp_resolve hw
  rintro w₁ (_ | ⟨sid,dto⟩) h₁ hid
  · exact h₁.only
  obtain rfl : sid = id := hid _ rfl
  apply wp_returningMitraErrors
  apply wp_bind.mpr
  apply wp_mono (wp_resumeTurn h₁)
  rintro (e | _ | s) w₂ h₂ <;> exact h₂

theorem wp_abandonSession {user : UserContext} (hw : Clean x w) :
    wp (spec d x id) (Routes.abandonSession d (.id id) user) (fun _ w' => Only x id w') w := by
  apply wp_resolve hw
  rintro w₁ (_ | ⟨sid,dto⟩) h₁ hid
  · exact h₁.only
  apply wp_bind.mpr
  apply wp_mono (wp_abandon h₁)
  rintro (e | _ | updated) w₂ ⟨h₂,hholds⟩
  · exact h₂
  · exact h₂
  · apply wp_bind.mpr
    apply wp_mono (wp_closeRemoteChannel (hholds updated rfl))
    rintro (e | u) w₃ h₃ <;> exact h₃

theorem wp_prog {req : Req} (ha : req.addresses = some id) (hw : Clean x w) :
    wp (spec d x id) (req.prog d) (fun _ w' => Only x id w') w := by
  cases req with
  | finalize sid user =>
    obtain rfl : sid = .id id := by
      cases sid with
      | id n => exact congrArg _ (Option.some.inj ha)
      | _ => cases ha
    exact wp_withDb (fun w hw => wp_finalizeSession hw) hw
  | resume sid user =>
    obtain rfl : sid = .id id := by
      cases sid with
      | id n => exact congrArg _ (Option.some.inj ha)
      | _ => cases ha
    exact wp_withDb (fun w hw => wp_resumeSession hw) hw
  | abandon sid user =>
    obtain rfl : sid = .id id := by
      cases sid with
      | id n => exact congrArg _ (Option.some.inj ha)
      | _ => cases ha
    exact wp_withDb (fun w hw => wp_abandonSession hw) hw
  | _ => cases ha

/-- One request that names a session, whatever the others do. -/
def solo (d : Deployment) (x : Conn) (id : SessionId) :
    Solo (interviews d) (MeetsNamed d x id) x (World × Interviews) where
  loc w := w
  spec := spec d x id
  G c := Guarded Op.Lawful c ∧ AgentSession.Consistent c.world.1.db.sessions
  rely_refl w := ⟨.refl w.1,List.Subset.refl _⟩
  rely_trans _ _ _ h₁ h₂ := ⟨h₁.1.trans h₂.1,List.Subset.trans h₁.2 h₂.2⟩
  G_step c a c' hG _ hs := by
    refine guarded_step (I := interviews d) (G := fun w => AgentSession.Consistent w.1.db.sessions)
      (system_lawful d).prog (fun _ _ _ hw => hw) ?_ ?_ hs hG.1 hG.2
    · intro w x o ch r w' ho hw he
      exact (called_of_exec hw ho (exec_noting he).1).after
    · intro w e w' hw he
      rwa [(World.envFrame (env_noting he).1).db]
  call_ok c o k ch r w hG hx hok hpre he := by
    have hex := exec_noting he
    refine ⟨called_of_exec hG.2 hpre.lawful hex.1,?_,hok rfl o (Config.nextCall_eq hx)⟩
    rw [hex.2]
    exact fun e => Interviews.given_after c.world.1
  start_ok c y req hy hG _ := ⟨Unmoved.of_begin (d := d) hy,List.Subset.refl _⟩
  other_ok c y o k ch r w hy hG hx _ he := by
    have hex := exec_noting he
    refine ⟨Unmoved.of_exec hy hG.2 hex.1,?_⟩
    rw [hex.2]
    exact fun e => Interviews.given_after c.world.1
  env_ok c e w hG _ he := by
    have hex := env_noting he
    refine ⟨Unmoved.of_env hex.1,?_⟩
    rw [hex.2]
    exact List.Subset.refl _

end Addressed

/-- A request starts without rows that it has written. -/
theorem clean_of_start {d : Deployment} {w : World × Interviews} {c₀ c₁ : Noted} {x : Conn} {req : Req}
    (hw : w.1.AtRest) (h₀ : Reach (step (interviews d)) anyAct (idle w) c₀)
    (h₁ : step (interviews d) c₀ (.start x req) = some c₁) : Addressed.Clean x c₁.world := by
  have hr := reach_forget (h₀.next trivial h₁)
  have hstart : ∀ x, (CallView.of w.1 x).Settled := fun x =>
    ⟨fun _ => hw.addsNothing x,fun ⟨e,he,_⟩ => by simp [CallView.of,hw.events x] at he⟩
  have hsettled := ((CallView.outline d).inv_of_reach hr hstart hw.addsNothing).1 x
  have hevents : c₁.world.1.events x = [] := by
    cases stepped_of_step h₁ with
    | start hx => simp [interviews,Interp.noting,system]
  have hadds : AddsNothing c₁.world.1.db x := hsettled.1 (by simp [CallView.of,Config.forget,hevents])
  exact hadds.sessions

namespace Addressed

/-- Every call goes through. -/
def answer (w : World × Interviews) (o : Op) : Choice := Sample.smooth w.1 o

/-- An interview is opened. -/
def opened : List (Cue (World × Interviews) Conn Req Choice World.EnvAct Op) :=
  [.act (.start 0 (Sample.turn "hello" "story" .absent)),.serve 0 answer 60,.act (.finish 0)]

/-- It is abandoned, and a second one is opened in the conversation. -/
def reopened : List (Cue (World × Interviews) Conn Req Choice World.EnvAct Op) :=
  opened ++ [.act (.start 1 (.abandon (.id 2) Sample.caller)),.serve 1 answer 60,.act (.finish 1),
    .act (.start 0 (Sample.turn "hello" "story" (.id 0))),.serve 0 answer 60]

/-- The next call of the abandon of session 2 on connection 1, after `n` calls, leads to such a state. -/
def afterAbandon (ok : Noted → Action → Prop) [∀ c a, Decidable (ok c a)] (n : ℕ)
    (P : Noted → Noted → Bool) (c₀ : Noted) : Bool :=
  ((step (interviews Sample.deployment) c₀ (.start 1 (.abandon (.id 2) Sample.caller))).bind
    (serve (interviews Sample.deployment) (Serving ok 1) 1 answer n)).any fun c =>
      decide (ok c (.call 1 (.db (.go {})))) &&
        (step (interviews Sample.deployment) c (.call 1 (.db (.go {})))).any fun c' => P c c'

theorem exists_afterAbandon {ok : Noted → Action → Prop} [∀ c a, Decidable (ok c a)] {n : ℕ}
    {P : Noted → Noted → Bool} {cues : List (Cue (World × Interviews) Conn Req Choice World.EnvAct Op)}
    (h : ((play (interviews Sample.deployment) anyAct cues (idle (Sample.world,{}))).any
      (afterAbandon ok n P)) = true) :
    ∃ c₀ c₁ c c' : Noted, Reach (step (interviews Sample.deployment)) anyAct (idle (Sample.world,{})) c₀ ∧
      step (interviews Sample.deployment) c₀ (.start 1 (.abandon (.id 2) Sample.caller)) = some c₁ ∧
      Reach (step (interviews Sample.deployment)) (Serving ok 1) c₁ c ∧ ok c (.call 1 (.db (.go {}))) ∧
      step (interviews Sample.deployment) c (.call 1 (.db (.go {}))) = some c' ∧ P c c' = true := by
  obtain ⟨c₀,h₀,hP⟩ := exists_reach_of_play h
  obtain ⟨c₁,c,h₁,hr,hP⟩ := exists_served hP
  simp only [Bool.and_eq_true,decide_eq_true_eq,Option.any_eq_true] at hP
  obtain ⟨hok,c',hs,hP⟩ := hP
  exact ⟨c₀,c₁,c,c',h₀,h₁,hr,hok,hs,hP⟩

end Addressed

/-- A request that names a session, as long as the conversation's open session and its newest user
message are that session's where it meets them: each of its calls leaves every other session's row
as it is and the channel of every conversation in which another session is open, and it asks Mitra
only about a text that was sent in the session. -/
theorem named_session_only {d : Deployment} {w : World × Interviews} {c₀ c₁ c c' : Noted} {x : Conn}
    {req : Req} {id : SessionId} {ch : Choice} (hw : w.1.AtRest) (hp : w.1.Pooled)
    (hs : w.1.db.sessions.Settled AgentSession.constraints AgentSession.Keyed)
    (h₀ : Reach (step (interviews d)) anyAct (idle w) c₀) (ha : req.addresses = some id)
    (h₁ : step (interviews d) c₀ (.start x req) = some c₁)
    (h : Reach (step (interviews d)) (Serving (MeetsNamed d x id) x) c₁ c)
    (hok : MeetsNamed d x id c (.call x ch)) (hstep : step (interviews d) c (.call x ch) = some c') :
    (∀ k, k ≠ id → c'.world.1.db.sessions.row k = c.world.1.db.sessions.row k) ∧
    (∀ k s, k ≠ id → c.world.1.db.sessions.committed k = some s → s.isOpen = true →
      c'.world.1.channelOf s.conversationId = c.world.1.channelOf s.conversationId) ∧
    ∀ sid pid, c.nextCall x = some (.recentChat sid pid) →
      ∃ text ∈ c.world.1.lastRead x Op.lastText, SentIn d c.world.2 id text := by
  have hclean := clean_of_start hw h₀ h₁
  have hG := (system_lawful d).consistent hs (reach_forget (h₀.next trivial h₁))
  have hwp := Addressed.wp_prog (d := d) ha hclean
  have hinv := (Addressed.solo d x id).inv_of_reach h ((Addressed.solo d x id).inv_of_start h₁ hG hwp)
  have hpooled : c.world.1.Pooled :=
    hp.reach ((reach_forget (h₀.next trivial h₁)).trans (reach_forget h))
  cases stepped_of_step hstep with
  | call hx he =>
    rename_i o k r w'
    have hcall := Config.nextCall_eq hx
    have hpre : Addressed.Stays d x id o c.world := (Addressed.solo d x id).pre_of_call hinv hx
    have hcalled := called_of_exec hinv.1.2 hpre.lawful (exec_noting he).1
    refine ⟨hpre.rows (hok rfl o hcall) r w'.1 hcalled,?_,?_⟩
    · intro k' s hk hcommitted hopen
      apply World.channelOf_exec hpooled (exec_noting he).1 hpre.role
      rintro conv rfl rfl
      exact hk (hpre.channel s.conversationId rfl hinv.1.2 k' s hcommitted hopen rfl)
    · intro sid pid hchat
      exact hpre.text sid pid (Option.some.inj (hcall.symm.trans hchat))

/-- The abandon of the open interview. -/
theorem named_session_only_open : ∃ c c' : Noted,
    (∃ s, c'.world.1.db.sessions.view 1 2 = some s ∧ s.state = .abandoned) ∧
      ∀ k, k ≠ 2 → c'.world.1.db.sessions.row k = c.world.1.db.sessions.row k := by
  have hrun : ((play (interviews Sample.deployment) anyAct Addressed.opened (idle (Sample.world,{}))).any
      (Addressed.afterAbandon (MeetsNamed Sample.deployment 1 2) 4 fun _ c' =>
        (c'.world.1.db.sessions.view 1 2).any fun s => s.state = .abandoned)) = true := by
    decide +kernel
  obtain ⟨c₀,c₁,c,c',h₀,h₁,h,hok,hs,hP⟩ := Addressed.exists_afterAbandon hrun
  have hrest : Sample.world.AtRest := by constructor <;> intro <;> rfl
  refine ⟨c,c',by simpa [Option.any_eq_true] using hP,?_⟩
  exact (named_session_only hrest (World.pooled_empty rfl) Table.settled_empty h₀ rfl h₁ h hok hs).1

/-- The abandon of the interview that has ended abandons the one that is open. -/
theorem abandon_meets_other : ∃ c₀ c₁ c c' : Noted,
    Reach (step (interviews Sample.deployment)) anyAct (idle (Sample.world,{})) c₀ ∧
      step (interviews Sample.deployment) c₀ (.start 1 (.abandon (.id 2) Sample.caller)) = some c₁ ∧
      Reach (step (interviews Sample.deployment)) (Serving anyAct 1) c₁ c ∧
      step (interviews Sample.deployment) c (.call 1 (.db (.go {}))) = some c' ∧
      c'.world.1.db.sessions.row 5 ≠ c.world.1.db.sessions.row 5 := by
  have hrun : ((play (interviews Sample.deployment) anyAct Addressed.reopened (idle (Sample.world,{}))).any
      (Addressed.afterAbandon anyAct 4 fun c c' =>
        ((c'.world.1.db.sessions.view 1 5).any fun s => s.state = .abandoned) &&
          !((c.world.1.db.sessions.view 1 5).any fun s => s.state = .abandoned))) = true := by
    decide +kernel
  obtain ⟨c₀,c₁,c,c',h₀,h₁,h,-,hs,hP⟩ := Addressed.exists_afterAbandon hrun
  refine ⟨c₀,c₁,c,c',h₀,h₁,h,hs,?_⟩
  intro hrow
  simp [Table.view,hrow] at hP

end Saarathi
