import Saarathi.Visibility

/-!
# The sessions of the routed agent

A turn takes the open session of its conversation only where that is the session
of the agent it is routed to; another agent's is abandoned, and stays as it is.
-/

namespace Saarathi

open Machine Program Program.Prog Interleaving ReadCommitted

/-- The session that a call updates or claims. -/
def Op.updates : Op → Option SessionId
  | .stmt (.updateStateAndFields id ..) => some id
  | .stmt (.claimFinalizing id) => some id
  | _ => none

/-- `x` sees the session, and it is this agent's. -/
def Belongs (x : Conn) (id : SessionId) (agent : AgentId) (w : World) : Prop :=
  ∃ v, w.db.sessions.view x id = some v ∧ v.agentId = agent

/-- A turn acts on the session that its handler was run on, which is the agent's. -/
def ActsOn (x : Conn) (id : SessionId) (w : World) : Prop :=
  w.serving x = some .chat →
    ∃ run, w.run x = some run ∧ run.session = some id ∧ Belongs x id run.agent.id w

/-- A handler is run on a session of the agent that the turn is routed to, and the turn updates
and claims no other. -/
structure HandsOwn (x : Conn) (o : Op) (w : World) : Prop where
  handler : ∀ run, o.run = some run → ∀ id, run.session = some id → Belongs x id run.agent.id w
  updates : ∀ id, o.updates = some id → ActsOn x id w

namespace OwnSessions

variable {d : Deployment} {x : Conn} {w w' : World} {α : Type} {id : SessionId} {agent : AgentId}

theorem updates_of_role {o : Op} (h : o.role ∉ [Role.apply,.forced,.claim]) : o.updates = none := by
  cases o with
  | stmt s =>
    cases s with
    | updateStateAndFields id expected new fields =>
      rcases Stmt.role_updateStateAndFields id expected new fields with hr | hr
      all_goals exact absurd (by simp [Op.role,hr]) h
    | claimFinalizing id => exact absurd (by simp [Op.role,Stmt.role]) h
    | _ => rfl
  | _ => rfl

theorem belongs_unmoved (h : Belongs x id agent w) (hu : Unmoved x w w') : Belongs x id agent w' := by
  obtain ⟨v,hv,ha⟩ := h
  obtain ⟨v',hv',hs⟩ := hu.same id v hv
  exact ⟨v',hv',hs.agentId.trans ha⟩

/-- A statement of `x` that goes through. -/
theorem belongs_stmt {s : Stmt} {a : s.Ans} (h : Belongs x id agent w)
    (hc : Called d x (.stmt s) w (.ok a) w') (hl : (Op.stmt s).Lawful) : Belongs x id agent w' := by
  obtain ⟨v,hv,ha⟩ := h
  obtain ⟨p,he⟩ := hc.effect
  rcases (Stmt.frame_of_effect s he).sessions.view id with hr | ⟨v',hv',hstep⟩
  · exact ⟨v,hr.trans hv,ha⟩
  · have hown := hstep.step hl
    rw [hv] at hown
    exact ⟨v',hv',hown.2.2.2.trans ha⟩

theorem belongs_of_role {o : Op} {r : Except Exn o.Ans} (h : Belongs x id agent w)
    (hc : Called d x o w r w') (ho : o.role.isDb = false) : Belongs x id agent w' := by
  rw [Belongs,hc.db_of_role ho]
  exact h

theorem belongs_commit (h : Belongs x id agent w) (hc : Called d x .commit w (.ok ()) w')
    (htx : w.db.tx x = .active) : Belongs x id agent w' := by
  have hm := hc.db
  generalize hr : (Except.ok () : Except Exn (Op.Ans .commit)) = r at hm
  obtain ⟨v,hv,ha⟩ := h
  generalize hdb : w'.db = db' at hm
  cases hm with
  | commit _ =>
    refine ⟨v,?_,ha⟩
    rw [hdb]
    exact Row.view_commit.trans hv
  | commitRejected _ => cases hr
  | commitAborted hn =>
    rw [htx] at hn
    cases hn
  | commitRefused _ => cases hr
  | other hs hc hr => exact absurd rfl hc

/-- A new session is the agent's. -/
theorem belongs_of_createPending {c : ConversationId} {language : String} {s : AgentSession}
    (h : Called d x (.stmt (.createPending c agent language)) w (.ok s) w') :
    Belongs x s.id agent w' := by
  obtain ⟨p,he⟩ := h.effect
  obtain ⟨t,ht,hdb⟩ := Database.onSessions_ok he
  obtain ⟨rfl,-,hwrite⟩ := Database.insertRow_ok ht
  obtain rfl := (Table.write_ok hwrite).1
  rw [Belongs,hdb]
  exact ⟨_,Table.view_put_self ..,rfl⟩

/-- The open session of a conversation is the agent's that its row names. -/
theorem belongs_of_getOpen {c : ConversationId} {rows : List AgentSession} {s : AgentSession}
    (h : Called d x (.stmt (.getOpenForConversation c)) w (.ok rows) w') (hs : s ∈ rows) :
    Belongs x s.id s.agentId w' := by
  obtain ⟨p,he⟩ := h.effect
  obtain ⟨rfl,hdb⟩ := Prod.mk.inj (Effect.ok.inj he)
  obtain ⟨k,hk,-⟩ := Table.mem_select.mp hs
  obtain rfl : s.id = k := (h.before.written x k s hk).2
  rw [Belongs,← hdb]
  exact ⟨s,hk,rfl⟩

/-- The calls hand on sessions of the routed agent only. -/
def spec (d : Deployment) (x : Conn) : Spec Op Op.Ans Exn World where
  pre o w := o.Lawful ∧ HandsOwn x o w
  post := Called d x
  rely := Unmoved x

/-- The roles of the calls that hand on no session. -/
def freeRoles : List Role :=
  [.read,.query,.count,.record,.newConversation,.create,.abandon,.pin,.unpin,.lock,.unlock,.commit,.rollback,
    .pop,.channel,.story,.report]

theorem pre_of_role {o : Op} (h : o.role ∈ freeRoles) : (spec d x).pre o w := by
  have hrun : o.run = none := World.run_of_role fun e => absurd (e ▸ h) (by decide)
  have hupdates : o.updates = none := by
    apply updates_of_role
    revert h
    generalize o.role = role
    revert role
    decide
  refine ⟨fun e => absurd (e ▸ h) (by decide),⟨fun run hr => ?_,fun id hid => ?_⟩⟩
  · rw [hrun] at hr
    cases hr
  · rw [hupdates] at hid
    cases hid

theorem pre_of_handleEnd (c : ConversationId) : (spec d x).pre (.handleEnd c) w := by
  refine ⟨fun he => ?_,⟨fun run he => ?_,fun id he => ?_⟩⟩ <;> cases he

theorem keeps_of_within {rs : List Role} {p : Proc α} {A : World → Prop} (h : Within rs p)
    (hs : rs ⊆ freeRoles) (hA : ∀ w w', A w → Unmoved x w w' → A w')
    (hcall : ∀ o w r w', o.role ∈ rs → A w → Called d x o w r w' → A w') : Keeps (spec d x) A p :=
  Keeps.of_all h fun o ho _ hw w₁ hr =>
    ⟨pre_of_role (hs ho),fun r w₂ h₂ => hcall o w₁ r w₂ ho (hA _ w₁ hw hr) h₂⟩

/-- Nothing is asserted. -/
theorem keeps_true {rs : List Role} {p : Proc α} (h : Within rs p) (hs : rs ⊆ freeRoles) :
    Keeps (spec d x) (fun _ => True) p :=
  keeps_of_within h hs (fun _ _ _ _ => trivial) fun _ _ _ _ _ _ _ => trivial

/-- No handler runs. -/
theorem keeps_run {rs : List Role} {p : Proc α} (h : Within rs p) (hs : rs ⊆ freeRoles) :
    Keeps (spec d x) (fun w => w.run x = none) p := by
  apply keeps_of_within h hs
  · intro w w' hw hr
    rw [hr.run,hw]
  · intro o w r w' ho hw hc
    have hrun : o.run = none := World.run_of_role fun e => absurd (hs (e ▸ ho)) (by decide)
    rw [hc.run,hw,hrun]
    rfl

/-- What the request is does not change. -/
theorem keeps_serving {rs : List Role} {p : Proc α} {route : Route} (h : Within rs p)
    (hs : rs ⊆ freeRoles) : Keeps (spec d x) (fun w => w.serving x = some route) p := by
  apply keeps_of_within h hs
  · intro w w' hw hr
    rw [hr.serving,hw]
  · intro o w r w' ho hw hc
    rw [hc.serving,hw]

/-- The turn's session, where it has one, is the agent's; its transaction is still open. -/
structure Opened (x : Conn) (agent : AgentId) (session : Option AgentSession) (w : World) : Prop where
  run : w.run x = none
  tx : session.isSome = true → w.db.tx x = .active
  own : ∀ s, session = some s → Belongs x s.id agent w

/-- The turn's session, where it has one, is the agent's that runs on it. -/
structure Ready (x : Conn) (agent : AgentId) (session : Option AgentSession) (w : World) : Prop where
  run : w.run x = none
  own : ∀ s, session = some s → Belongs x s.id agent w

variable {session : Option AgentSession}

theorem Opened.unmoved (h : Opened x agent session w) (hu : Unmoved x w w') : Opened x agent session w' where
  run := by rw [hu.run,h.run]
  tx hs := by rw [hu.tx,h.tx hs]
  own s hs := belongs_unmoved (h.own s hs) hu

theorem Opened.stmt {s : Stmt} {a : s.Ans} (h : Opened x agent session w)
    (hc : Called d x (.stmt s) w (.ok a) w') (hl : (Op.stmt s).Lawful) : Opened x agent session w' where
  run := by
    rw [hc.run,h.run]
    rfl
  tx _ := hc.tx_of_ok.2
  own s' hs := belongs_stmt (h.own s' hs) hc hl

theorem Ready.unmoved (h : Ready x agent session w) (hu : Unmoved x w w') : Ready x agent session w' where
  run := by rw [hu.run,h.run]
  own s hs := belongs_unmoved (h.own s hs) hu

theorem acts_unmoved (h : ActsOn x id w) (hu : Unmoved x w w') : ActsOn x id w' := by
  intro hs
  obtain ⟨run,hrun,hid,hown⟩ := h (by rw [← hs,hu.serving])
  exact ⟨run,by rw [hu.run,hrun],hid,belongs_unmoved hown hu⟩

theorem acts_stmt {s : Stmt} {a : s.Ans} (h : ActsOn x id w) (hc : Called d x (.stmt s) w (.ok a) w')
    (hl : (Op.stmt s).Lawful) : ActsOn x id w' := by
  intro hs
  obtain ⟨run,hrun,hid,hown⟩ := h (by rw [← hs,hc.serving])
  refine ⟨run,?_,hid,belongs_stmt hown hc hl⟩
  rw [hc.run,hrun]
  rfl

theorem acts_of_role {o : Op} {r : Except Exn o.Ans} (h : ActsOn x id w) (hc : Called d x o w r w')
    (ho : o.role.isDb = false) : ActsOn x id w' := by
  intro hs
  obtain ⟨run,hrun,hid,hown⟩ := h (by rw [← hs,hc.serving])
  refine ⟨run,?_,hid,belongs_of_role hown hc ho⟩
  rw [hc.run,hrun]
  rfl

/-- Outside a turn nothing is said. -/
theorem acts_of_serving {route : Route} (h : w.serving x = some route) (hne : route ≠ .chat) :
    ActsOn x id w := fun hs => absurd (Option.some.inj (h.symm.trans hs)) hne

/-- The calls that the database has no part in. -/
theorem keeps_acts {rs : List Role} {p : Proc α} (h : Within rs p) (hs : rs ⊆ freeRoles)
    (hdb : ∀ r ∈ rs, r.isDb = false) : Keeps (spec d x) (ActsOn x id) p :=
  keeps_of_within h hs (fun _ _ => acts_unmoved) fun _ _ _ _ ho hw hc => acts_of_role hw hc (hdb _ ho)

theorem pre_of_acts {o : Op} (ho : o.Lawful) (hrun : o.run = none) (hid : o.updates = some id)
    (h : ActsOn x id w) : (spec d x).pre o w := by
  refine ⟨ho,⟨fun run hr => ?_,fun id' hid' => ?_⟩⟩
  · rw [hrun] at hr
    cases hr
  · obtain rfl := Option.some.inj (hid.symm.trans hid')
    exact h

/-- A session change leaves the request to act on the same session. -/
theorem wp_apply {s : AgentSession} {delta : SessionDelta} (hw : ActsOn x s.id w) :
    wp (spec d x) (SessionService.apply s delta)
      (fun r w' => w'.serving x = w.serving x ∧ ∀ v, r = .ok v → v.id = s.id ∧ ActsOn x s.id w') w := by
  unfold SessionService.apply SessionService.checkTransition
  apply wp_bind.mpr
  split
  · rename_i hallowed
    apply wp_bind.mpr
    apply wp_bind.mpr
    apply wp_perform.mpr
    intro w₁ h₁
    have hl : (Op.stmt (.updateStateAndFields s.id [s.state] delta.state delta.fields)).Lawful := by
      simp [Op.Lawful,Op.role,Stmt.role,hallowed]
    refine ⟨pre_of_acts hl rfl rfl (acts_unmoved hw h₁),fun r w₂ h₂ => ?_⟩
    have hserving : w₂.serving x = w.serving x := by rw [h₂.serving,h₁.serving]
    rcases r with e | rows
    · refine ⟨hserving,?_⟩
      rintro v ⟨⟩
    · have hw₂ := acts_stmt (acts_unmoved hw h₁) h₂ hl
      rcases h₂.of_update with ⟨rfl,-,-⟩ | ⟨u,now,-,rfl,hchange⟩
      · refine ⟨hserving,?_⟩
        rintro v ⟨⟩
      · refine ⟨hserving,?_⟩
        rintro v ⟨⟩
        exact ⟨hchange.key,hw₂⟩
  · refine ⟨rfl,?_⟩
    rintro v ⟨⟩

open OrchestrationService

theorem wp_finalizeClaimed {claimed : AgentSession} {agent : Option RegisteredAgent} {user : UserContext}
    (hw : ActsOn x claimed.id w) :
    wp (spec d x) (finalizeClaimed d claimed agent user) (fun _ _ => True) w := by
  have hclose := (closeRemoteChannel_calls d claimed.conversationId).within
  have hstory := (endStory_calls d claimed agent user).within
  apply wp_bind.mpr
  apply wp_mono (keeps_acts hclose (by decide) (by decide) w hw)
  rintro (e | u) w₁ h₁
  · trivial
  apply wp_bind.mpr
  apply wp_attempt.mpr
  apply wp_mono (keeps_acts hstory (by decide) (by decide) w₁ h₁)
  rintro (e | ⟨remote,storyId,content⟩) w₂ h₂
  · apply wp_bind.mpr
    apply wp_mono (wp_apply h₂)
    rintro (e | v) w₃ - <;> trivial
  · have hreport := (fetchReport_calls claimed remote).within
    apply wp_bind.mpr
    apply wp_mono (keeps_acts hreport (by decide) (by decide) w₂ h₂)
    rintro (e | url) w₃ h₃
    · trivial
    apply wp_bind.mpr
    apply wp_mono (wp_apply h₃)
    rintro (e | v) w₄ -
    · trivial
    have hunpin : Within [.unpin] (ConversationRepository.unpin claimed.conversationId) := Within.stmt rfl
    exact Keeps.bind (keeps_true hunpin (by decide)) (fun _ => Keeps.pure _) w₄ trivial

/-- A finalisation claims and ends the session that the request acts on. -/
theorem wp_finalize {s : AgentSession} {agent : Option RegisteredAgent} {user : UserContext}
    (hw : ActsOn x s.id w) : wp (spec d x) (finalize d s agent user) (fun _ _ => True) w := by
  apply wp_bind.mpr
  apply wp_bind.mpr
  apply wp_perform.mpr
  intro w₁ h₁
  have hl : (Op.stmt (.claimFinalizing s.id)).Lawful := nofun
  refine ⟨pre_of_acts hl rfl rfl (acts_unmoved hw h₁),fun r w₂ h₂ => ?_⟩
  rcases r with e | rows
  · trivial
  have hw₂ := acts_stmt (acts_unmoved hw h₁) h₂ hl
  rcases h₂.of_claim with ⟨rfl,-,-⟩ | ⟨u,-,rfl,hchange⟩
  · have hget := (SessionService.get_calls s.id).within
    exact Keeps.bind (keeps_true hget (by decide)) (fun _ => Keeps.pure _) w₂ trivial
  · apply wp_bind.mpr
    apply wp_perform.mpr
    intro w₃ h₃
    refine ⟨pre_of_role (show Role.record ∈ freeRoles by decide),fun r w₄ h₄ => ?_⟩
    rcases r with e | a
    · trivial
    · apply wp_finalizeClaimed
      have hw₄ := acts_stmt (acts_unmoved hw₂ h₃) h₄ nofun
      change ActsOn x u.id w₄
      rwa [hchange.key]

/-- A query of the open session yields it, or nothing. -/
theorem wp_getOpen {c : ConversationId} {Q : Except Exn (Option AgentSession) → World → Prop}
    (hraise : ∀ e w', Q (.error e) w') (hnone : ∀ w', w'.run x = w.run x → Q (.ok none) w')
    (hsome : ∀ w' s, w'.run x = w.run x → w'.db.tx x = .active → Belongs x s.id s.agentId w' →
      Q (.ok (some s)) w') :
    wp (spec d x) (AgentSessionRepository.getOpenForConversation c) Q w := by
  apply wp_bind.mpr
  apply wp_perform.mpr
  intro w₁ h₁
  refine ⟨pre_of_role (show Role.query ∈ freeRoles by decide),fun r w₂ h₂ => ?_⟩
  have hrun : w₂.run x = w.run x := by
    rw [h₂.run,h₁.run]
    exact Option.or_none
  rcases r with e | rows
  · exact hraise e w₂
  · rcases rows with _ | ⟨s,_ | ⟨s',ss⟩⟩
    · exact hnone w₂ hrun
    · exact hsome w₂ s hrun h₂.tx_of_ok.2 (belongs_of_getOpen h₂ List.mem_cons_self)
    · exact hraise _ w₂

theorem wp_createPending {c : ConversationId} {language : String} (hw : w.run x = none) :
    wp (spec d x) (AgentSessionRepository.createPending c agent language)
      (fun r w' => ∀ s, r = .ok s → Opened x agent (some s) w') w := by
  apply wp_perform.mpr
  intro w₁ h₁
  refine ⟨pre_of_role (show Role.create ∈ freeRoles by decide),fun r w₂ h₂ => ?_⟩
  rintro s rfl
  refine ⟨?_,fun _ => h₂.tx_of_ok.2,?_⟩
  · rw [h₂.run,h₁.run,hw]
    rfl
  · rintro s' ⟨⟩
    exact belongs_of_createPending h₂

/-- A new session is the agent's, if the agent has one. -/
theorem wp_create {c : ConversationId} {agent : RegisteredAgent} (hw : w.run x = none) :
    wp (spec d x) (if agent.spec.routing.pinSession then do
        pure (some (← AgentSessionRepository.createPending c agent.id (SessionService.language agent)))
      else pure none : Proc (Option AgentSession))
      (fun r w' => ∀ session, r = .ok session → Opened x agent.id session w') w := by
  split
  · apply wp_bind.mpr
    apply wp_mono (wp_createPending hw)
    rintro (e | s) w₁ h₁
    · rintro session ⟨⟩
    · rintro session ⟨⟩
      exact h₁ s rfl
  · rintro session ⟨⟩
    refine ⟨hw,fun hs => ?_,fun s hs => ?_⟩
    · simp at hs
    · simp at hs

/-- The turn takes the open session where it is the agent's, and else a new one. -/
theorem wp_openFor {c : ConversationId} {agent : RegisteredAgent} {onDisplace : Proc Unit}
    (hdisplace : Within [.pop] onDisplace) (hw : w.run x = none) :
    wp (spec d x) (SessionService.openFor c agent onDisplace)
      (fun r w' => ∀ session, r = .ok session → Opened x agent.id session w') w := by
  apply wp_bind.mpr
  apply wp_getOpen
  · rintro e w' session ⟨⟩
  · intro w' hrun
    exact wp_create (hrun.trans hw)
  · intro w₁ s hrun htx hown
    have hw₁ : w₁.run x = none := hrun.trans hw
    by_cases hs : s.agentId = agent.id
    · simp only [hs,if_true]
      rintro session ⟨⟩
      refine ⟨hw₁,fun _ => htx,?_⟩
      rintro s' ⟨⟩
      rwa [← hs]
    · simp only [hs,if_false]
      have habandon := (SessionService.abandon_calls c "agent_switch" "system").within
      apply wp_bind.mpr
      apply wp_mono (keeps_run habandon (by decide) w₁ hw₁)
      rintro (e | u) w₂ h₂
      · rintro session ⟨⟩
      apply wp_bind.mpr
      apply wp_mono (keeps_run hdisplace (by decide) w₂ h₂)
      rintro (e | u) w₃ h₃
      · rintro session ⟨⟩
      · exact wp_create h₃

/-- A statement that hands on no session. -/
theorem wp_stmt {s : Stmt} {agent : AgentId} {session : Option AgentSession} (hs : s.role ∈ freeRoles)
    (hw : Opened x agent session w) :
    wp (spec d x) (stmt s) (fun r w' => ∀ a, r = .ok a → Opened x agent session w') w := by
  apply wp_perform.mpr
  intro w₁ h₁
  have hpre : (spec d x).pre (.stmt s) w₁ := pre_of_role hs
  refine ⟨hpre,fun r w₂ h₂ => ?_⟩
  rintro a rfl
  exact (hw.unmoved h₁).stmt h₂ hpre.1

theorem wp_recent {c : ConversationId} {limit : ℕ} {session : Option AgentSession}
    (hw : Opened x agent session w) :
    wp (spec d x) (MessageRepository.recent c limit)
      (fun r w' => ∀ a, r = .ok a → Opened x agent session w') w := by
  by_cases hzero : limit = 0
  · have hrecent : MessageRepository.recent c limit = pure [] := if_pos hzero
    rw [hrecent]
    exact fun _ _ => hw
  · have hrecent : MessageRepository.recent c limit = stmt (.recent c limit) := if_neg hzero
    rw [hrecent]
    exact wp_stmt (show Role.query ∈ freeRoles by decide) hw

theorem wp_admitTurn {conv : Conversation} {agent : RegisteredAgent} (hw : w.run x = none) :
    wp (spec d x) (admitTurn d conv agent)
      (fun r w' => ∀ session history, r = .ok (session,history) → Opened x agent.id session w') w := by
  have hlimits := (checkRateLimits_calls conv.id agent.spec.limits).within
  have hclose := (closeRemoteChannel_calls d conv.id).within
  apply wp_bind.mpr
  apply wp_mono (keeps_run hlimits (by decide) w hw)
  rintro (e | u) w₁ h₁
  · rintro session history ⟨⟩
  apply wp_bind.mpr
  apply wp_mono (wp_openFor hclose h₁)
  rintro (e | session) w₂ h₂
  · rintro session history ⟨⟩
  have hopened : Opened x agent.id session w₂ := h₂ session rfl
  have hpin : wp (spec d x)
      (if agent.spec.routing.pinSession then ConversationRepository.pin conv.id agent.id else pure () : Proc Unit)
      (fun r w' => ∀ a, r = .ok a → Opened x agent.id session w') w₂ := by
    split
    · exact wp_stmt (show Role.pin ∈ freeRoles by decide) hopened
    · exact fun _ _ => hopened
  apply wp_bind.mpr
  apply wp_mono hpin
  rintro (e | u) w₃ h₃
  · rintro session history ⟨⟩
  apply wp_bind.mpr
  apply wp_mono (wp_recent (h₃ u rfl))
  rintro (e | rows) w₄ h₄
  · rintro session history ⟨⟩
  · rintro session' history ⟨⟩
    exact h₄ rows rfl

/-- The commit before the handler leaves the session to the turn. -/
theorem wp_commit {agent : AgentId} {session : Option AgentSession} (hw : Opened x agent session w) :
    wp (spec d x) (perform Op.commit : Proc Unit)
      (fun r w' => ∀ a, r = .ok a → Ready x agent session w') w := by
  apply wp_perform.mpr
  intro w₁ h₁
  have hw₁ := hw.unmoved h₁
  refine ⟨pre_of_role (show Role.commit ∈ freeRoles by decide),fun r w₂ h₂ => ?_⟩
  rintro a rfl
  refine ⟨?_,fun s hs => ?_⟩
  · rw [h₂.run,hw₁.run]
    rfl
  · exact belongs_commit (hw₁.own s hs) h₂ (hw₁.tx (by rw [hs]; rfl))

/-- The handler runs on the agent's session, and the request acts on it from then on. -/
theorem wp_runHandler {inp : TurnInput} {conv : Conversation} {agent : RegisteredAgent}
    {session : Option AgentSession} {history : List Message} (hw : Ready x agent.id session w) :
    wp (spec d x) (runHandler d inp conv agent session history)
      (fun _ w' => ∀ s, session = some s → ActsOn x s.id w') w := by
  have hkeep : ∀ {rs : List Role} {β : Type} {p : Proc β}, Within rs p → rs ⊆ freeRoles →
      (∀ r ∈ rs, r.isDb = false) →
      Keeps (spec d x) (fun w => ∀ s, session = some s → ActsOn x s.id w) p := by
    intro rs β p h hs hdb
    apply keeps_of_within h hs
    · exact fun w w' hw hr s he => acts_unmoved (hw s he) hr
    · exact fun o w r w' ho hw hc s he => acts_of_role (hw s he) hc (hdb _ ho)
  apply wp_bind.mpr
  apply wp_attempt.mpr
  apply wp_bind.mpr
  apply wp_perform.mpr
  intro w₁ h₁
  have hw₁ := hw.unmoved h₁
  refine ⟨⟨?_,⟨?_,?_⟩⟩,fun r w₂ h₂ => ?_⟩
  · rintro ⟨⟩
  · rintro run ⟨⟩ id hid
    obtain ⟨s,hs,rfl⟩ := Option.map_eq_some_iff.mp hid
    exact hw₁.own s hs
  · rintro _ ⟨⟩
  obtain ⟨u,rfl⟩ := h₂.sure rfl
  have hran : w₂.run x = some ⟨agent,session.map (·.id),inp.text,history⟩ := by
    rw [h₂.run,hw₁.run]
    rfl
  have hw₂ : ∀ s, session = some s → ActsOn x s.id w₂ := fun s hs _ =>
    ⟨_,hran,by rw [hs]; rfl,belongs_of_role (hw₁.own s hs) h₂ rfl⟩
  have hhandle := (handle_calls d conv.id agent inp.user (session.map (·.toSessionView)) inp.text).within
  have hend : Keeps (spec d x) (fun w => ∀ s, session = some s → ActsOn x s.id w)
      (do let _ ← perform (Op.handleEnd conv.id); pure () : Proc Unit) := by
    refine Keeps.bind (Keeps.perform ?_) fun _ => Keeps.pure _
    intro w hw w' hr
    refine ⟨pre_of_handleEnd _,fun r w'' hc s hs => ?_⟩
    exact acts_of_role (acts_unmoved (hw s hs) hr) hc rfl
  refine wp_mono (Keeps.ensuring (hkeep hhandle (by decide) (by decide)) hend w₂ hw₂) ?_
  intro r w₃ h₃
  have hrecover := (recoverTimedOutTurn_calls d agent session inp.text).within
  dsimp only
  split
  · exact Keeps.pure _ w₃ h₃
  · refine Keeps.bind (hkeep hrecover (by decide) (by decide)) ?_ w₃ h₃
    rintro (_ | turn)
    · exact Keeps.throw _
    · exact Keeps.pure _
  · exact Keeps.throw _ w₃ h₃

theorem wp_settleTurn {inp : TurnInput} {agent : RegisteredAgent} {turn : AgentTurn}
    {session : Option AgentSession} (hw : ∀ s, session = some s → ActsOn x s.id w) :
    wp (spec d x) (settleTurn d inp agent turn session) (fun _ _ => True) w := by
  unfold settleTurn
  split
  · trivial
  · rename_i s
    apply wp_bind.mpr
    refine wp_mono (show wp (spec d x) _ (fun r w' => ∀ v, r = .ok v → v.id = s.id ∧ ActsOn x s.id w') w from ?_) ?_
    · split
      · exact wp_mono (wp_apply (hw s rfl)) fun _ _ h => h.2
      · rintro v ⟨⟩
        exact ⟨rfl,hw s rfl⟩
    rintro (e | v) w₁ h₁
    · trivial
    obtain ⟨hid,hacts⟩ := h₁ v rfl
    simp only
    split
    · rw [← hid] at hacts
      apply wp_bind.mpr
      apply wp_mono (wp_finalize hacts)
      rintro (e | s') w₂ - <;> trivial
    · trivial

theorem wp_handleTurnLocked {inp : TurnInput} {conv : Conversation} (hw : w.run x = none) :
    wp (spec d x) (handleTurnLocked d inp conv) (fun _ _ => True) w := by
  have hrecord := (recordUserMessage_calls inp conv).within
  apply wp_bind.mpr
  apply wp_mono (keeps_run hrecord (by decide) w hw)
  rintro (e | u) w₁ h₁
  · trivial
  apply wp_bind.mpr
  apply wp_mono (keeps_run (routeTurn_within d inp conv) (by decide) w₁ h₁)
  rintro (e | ⟨decision,agent⟩) w₂ h₂
  · trivial
  apply wp_bind.mpr
  apply wp_mono (wp_admitTurn h₂)
  rintro (e | ⟨session,history⟩) w₃ h₃
  · trivial
  apply wp_bind.mpr
  apply wp_mono (wp_commit (h₃ session history rfl))
  rintro (e | u) w₄ h₄
  · trivial
  apply wp_bind.mpr
  apply wp_mono (wp_runHandler (h₄ u rfl))
  rintro (e | turn) w₅ h₅
  · trivial
  apply wp_bind.mpr
  apply wp_mono (wp_settleTurn h₅)
  rintro (e | session') w₆ -
  · trivial
  have hstore := (storeReply_calls inp conv decision agent turn session').within
  have hcommit : Within [.commit] (perform Op.commit : Proc Unit) := Within.perform rfl
  refine Keeps.bind (keeps_true hstore (by decide)) (fun _ => ?_) w₆ trivial
  exact Keeps.bind (keeps_true hcommit (by decide)) fun _ => Keeps.pure _

theorem wp_handleTurn {inp : TurnInput} (hw : w.run x = none) :
    wp (spec d x) (handleTurn d inp) (fun _ _ => True) w := by
  have hconv := (ConversationRepository.getOrCreate_calls inp.conversationId inp.user).within
  apply wp_bind.mpr
  apply wp_mono (keeps_run hconv (by decide) w hw)
  rintro (e | conv) w₁ h₁
  · trivial
  have hlock : Within [.lock] (tryLockConversation d conv.id) := Within.stmt rfl
  apply wp_bind.mpr
  apply wp_mono (keeps_run hlock (by decide) w₁ h₁)
  rintro (e | _ | _) w₂ h₂
  · trivial
  · trivial
  · apply wp_ensuring.mpr
    apply wp_mono (wp_handleTurnLocked h₂)
    intro r w₃ _
    apply wp_mono (keeps_true (unlockConversation_within d conv.id) (by decide) w₃ trivial)
    rintro (e | u) w₄ _ <;> trivial

/-- `POST /finalize` is no turn. -/
theorem wp_finalizeNow {id : SessionId} {user : UserContext} (hw : w.serving x = some .finalize) :
    wp (spec d x) (finalizeNow d id user) (fun _ _ => True) w := by
  have hget := (SessionService.get_calls id).within
  apply wp_bind.mpr
  apply wp_mono (keeps_serving hget (by decide) w hw)
  rintro (e | _ | s) w₁ h₁
  · trivial
  · trivial
  have hsnapshot : Within [.read] snapshot := Within.perform rfl
  apply wp_bind.mpr
  apply wp_mono (keeps_serving hsnapshot (by decide) w₁ h₁)
  rintro (e | registry) w₂ h₂
  · trivial
  apply wp_bind.mpr
  apply wp_mono (wp_finalize (acts_of_serving h₂ (by decide)))
  rintro (e | s') w₃ - <;> trivial

theorem sure : Routes.Sure (spec d x) := fun _ _ _ _ ho h => h.sure ho

theorem call_of_role {A : World → Prop} {o : Op} (ho : o.role ∈ freeRoles)
    (hA : ∀ w w', A w → Unmoved x w w' → A w') (hcall : ∀ w r w', A w → Called d x o w r w' → A w') :
    Keeps.Call (spec d x) A o :=
  fun w hw w₁ hr => ⟨pre_of_role ho,fun r w₂ h₂ => hcall w₁ r w₂ (hA w w₁ hw hr) h₂⟩

theorem call_true {o : Op} (ho : o.role ∈ freeRoles) : Keeps.Call (spec d x) (fun _ => True) o :=
  call_of_role ho (fun _ _ _ _ => trivial) fun _ _ _ _ _ => trivial

theorem call_serving {o : Op} {route : Route} (ho : o.role ∈ freeRoles) :
    Keeps.Call (spec d x) (fun w => w.serving x = some route) o :=
  call_of_role ho (fun _ _ hw hr => hr.serving.trans hw) fun w r w' hw hc => by rw [hc.serving,hw]

/-- The request's database session around a route. -/
theorem wp_withDb {A : World → Prop} {route : Proc Response}
    (hroute : ∀ w, A w → wp (spec d x) route (fun _ _ => True) w)
    (hA : ∀ o : Op, o = .reloadDue ∨ o = .stmt .registryQuery → Keeps.Call (spec d x) A o) (hw : A w) :
    wp (spec d x) (Routes.withDb route) (fun _ _ => True) w :=
  Routes.wp_withDb (D := fun _ => True) sure hroute hA (call_true (by decide)) (call_true (by decide))
    (fun _ hw => Keeps.perform (call_true (by decide)) _ hw) hw

theorem wp_chat (body : Option ChatBody) (user : UserContext) (hw : w.run x = none) :
    wp (spec d x) (Routes.withDb (Routes.chat d body user)) (fun _ _ => True) w := by
  apply wp_withDb (A := fun w => w.run x = none) ?_ ?_ hw
  · intro w hw
    refine Routes.wp_chat (A := fun w => w.run x = none) (B := fun _ => True) ?_ ?_ ?_ hw
    · exact fun inp w hw => wp_handleTurn hw
    · exact fun _ _ => trivial
    · exact fun o ho => call_true (by rw [ho]; decide)
  · intro o ho
    have hrun : o.run = none := by rcases ho with rfl | rfl <;> rfl
    apply call_of_role
    · rcases ho with rfl | rfl <;> decide
    · exact fun w w' hw hr => hr.run.trans hw
    · intro w r w' hw hc
      rw [hc.run,hw,hrun]
      rfl

/-- A route that is no turn. -/
theorem wp_other {p : Proc Response} {route : Route} (hw : w.serving x = some route)
    (h : ∀ w, w.serving x = some route → wp (spec d x) p (fun _ _ => True) w) :
    wp (spec d x) (Routes.withDb p) (fun _ _ => True) w := by
  apply wp_withDb (A := fun w => w.serving x = some route) h ?_ hw
  intro o ho
  apply call_serving
  rcases ho with rfl | rfl <;> decide

theorem wp_finalizeSession (sid : UuidField) (user : UserContext) (hw : w.serving x = some .finalize) :
    wp (spec d x) (Routes.finalizeSession d sid user) (fun _ _ => True) w := by
  have hresolve := (Routes.resolve_calls sid user).within
  apply wp_bind.mpr
  apply wp_mono (keeps_serving hresolve (by decide) w hw)
  rintro (e | _ | ⟨id,dto⟩) w₁ h₁
  · trivial
  · trivial
  · apply wp_catching.mpr
    apply wp_bind.mpr
    apply wp_mono (wp_finalizeNow h₁)
    rintro (e | _ | s) w₂ -
    · cases e <;> trivial
    · trivial
    · trivial

/-- Every request hands on sessions of the routed agent only. -/
theorem wp_prog {req : Req} (hs : w.serving x = some req.route) (hr : w.run x = none) :
    wp (spec d x) (req.prog d) (fun _ _ => True) w := by
  have hplain : ∀ {rs : List Role} {p : Proc Response}, Within rs p → rs ⊆ freeRoles →
      wp (spec d x) (Routes.withDb p) (fun _ _ => True) w := fun h hrs =>
    wp_other hs fun w _ => keeps_true h hrs w trivial
  cases req with
  | chat body user => exact wp_chat body user hr
  | finalize sid user => exact wp_other hs fun w hw => wp_finalizeSession sid user hw
  | resume sid user =>
    have hresume : Keeps (spec d x) (fun w => w.serving x = some .resume) (Routes.resumeSession d sid user) := by
      apply Routes.keeps_resumeSession
      · exact fun o ho => call_serving ((by decide : [Role.read,.query,.record,.commit] ⊆ freeRoles) ho)
      · intro session w hw
        have hacts : ActsOn x session.id w := acts_of_serving hw (by decide)
        exact wp_mono (wp_apply hacts) fun _ _ h => h.1.trans hw
    exact wp_other hs fun w hw => wp_mono (hresume w hw) fun _ _ _ => trivial
  | abandon sid user => exact hplain (Routes.abandonSession_calls d sid user).within (by decide)
  | reset c user => exact hplain (Routes.reset_calls d c user).within (by decide)
  | sweep olderThan => exact hplain (Routes.sweep_calls olderThan).within (by decide)

/-- Every request is verified against every other. -/
def outline (d : Deployment) : Outline (system d) anyAct World where
  loc w _ := w
  spec := spec d
  G w := AgentSession.Consistent w.db.sessions
  Free _ _ := True
  Q _ _ _ := True
  rely_refl _ w := .refl w
  rely_trans _ _ _ _ h₁ h₂ := h₁.trans h₂
  free_rely _ _ _ _ _ := trivial
  free_end _ _ _ _ := trivial
  begin_ok c x req hG _ _ := by
    refine ⟨hG,wp_prog ?_ ?_,fun y hy => Unmoved.of_begin (d := d) hy.symm⟩
    · simp [system]
    · simp [World.run,system]
  exec_ok c x o k ch r w hG hx _ hpre he := by
    have hcalled := called_of_exec hG hpre.1 he
    exact ⟨hcalled.after,hcalled,fun y hy => .of_exec hy.symm hG he⟩
  env_ok c e w hG _ he := by
    have hf := World.envFrame he
    refine ⟨?_,fun y => .of_env he⟩
    rw [hf.db]
    exact hG

/-- An interview is opened, and a turn of the same conversation names another agent. -/
def switched : List (Cue World Conn Req Choice World.EnvAct Op) :=
  [.act (.start 0 (Sample.turn "hello" "story" .absent)),.serve 0 Sample.smooth 60,.act (.finish 0),
    .act (.start 0 (Sample.turn "hello" "assistant" (.id 0))),.serve 0 Sample.smooth 60]

end OwnSessions

/-- In every run, a turn's handler is run on a session of the agent that the turn is routed to, and
the turn updates and claims no other; an abandoned session stays as it is, in the transaction that
abandons it and once it is committed. -/
theorem sessions_not_shared {d : Deployment} {w : World} {c : Config}
    (hw : w.db.sessions.Settled AgentSession.constraints AgentSession.Keyed)
    (h : Reach (step (system d)) anyAct (idle w) c) :
    (∀ x o, c.nextCall x = some o → HandsOwn x o c.world) ∧
    (∀ x s k ch a w', c.procs x = some (.call (.stmt s) k) →
      c.world.exec d x (.stmt s) ch = some (.ok a,w') → ∀ id u, c.world.db.sessions.view x id = some u →
      u.state = .abandoned → w'.db.sessions.view x id = some u) ∧
    ∀ c' id u, Reach (step (system d)) anyAct c c' → c.world.db.sessions.committed id = some u →
      u.state = .abandoned → c'.world.db.sessions.committed id = some u := by
  have hI := system_lawful d
  obtain ⟨hK,hc⟩ := hI.consistent hw h
  refine ⟨fun x o ho => ?_,?_,?_⟩
  · have hinv := (OwnSessions.outline d).inv_of_reach h hw.consistent fun _ => trivial
    obtain ⟨k,hx⟩ := Config.call_of_nextCall ho
    have hpre : (OwnSessions.spec d x).pre o c.world := (OwnSessions.outline d).pre_of_call hinv hx
    exact hpre.2
  · intro x s k ch a w' hx he id u hu hs
    exact (LawfulOver.moved hK hx he).final id u hu (by rw [hs]; rfl)
  · intro c' id u hr hu hs
    exact hI.final hr hK hc hu (by rw [hs]; rfl)

theorem sessions_not_shared_switched : ∃ c : Config, ∃ u, c.world.db.sessions.committed 2 = some u ∧
    u.state = .abandoned ∧ u.remoteSessionId = some "remote-session" ∧
      ∀ c', Reach (step (system Sample.deployment)) anyAct c c' →
        c'.world.db.sessions.committed 2 = some u := by
  have hrun : ((play (system Sample.deployment) anyAct OwnSessions.switched (idle Sample.world)).any fun c =>
      (c.world.db.sessions.committed 2).any fun u =>
        u.state = .abandoned && decide (u.remoteSessionId = some "remote-session")) = true := by
    decide +kernel
  obtain ⟨c,hr,hP⟩ := exists_reach_of_play hrun
  obtain ⟨u,hu,hs⟩ := (Option.any_eq_true ..).mp hP
  simp only [Bool.and_eq_true,decide_eq_true_eq] at hs
  exact ⟨c,u,hu,hs.1,hs.2,fun c' h => (sessions_not_shared Table.settled_empty hr).2.2 c' 2 u h hu hs.1⟩

end Saarathi
