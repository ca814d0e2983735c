import Saarathi.Turns
import Saarathi.Visibility

/-!
# Sessions that are being finalised

A claim is made in the transaction of the request, which ends with the session
completed or failed, or undone. A turn commits even when an exception escapes, so
the exceptions that nothing between the claim and the end catches decide.
-/

namespace Saarathi

open Machine Program Program.Prog Interleaving ReadCommitted

/-- The session that a call has claimed. -/
def Op.claimed : (o : Op) → Except Exn o.Ans → Option SessionId
  | .stmt (.claimFinalizing id),.ok rows => if (rows : List AgentSession).isEmpty then none else some id
  | _,_ => none

theorem Op.claimed_of_role {o : Op} (ho : o.role ≠ .claim) (r : Except Exn o.Ans) : o.claimed r = none := by
  cases o with
  | stmt s =>
    cases s with
    | claimFinalizing id => exact absurd rfl ho
    | _ => rfl
  | _ => rfl

/-- The exception that a third party's call raises. -/
def Choice.raised : Choice → Option Exn
  | .raise e => some e
  | _ => none

/-- In a turn, fetching the report raises nothing but a `MitraError`. -/
def ReportRaisesMitra (c : Config) : Action → Prop
  | .call x ch => c.world.serving x = some .chat → ∀ o ∈ c.nextCall x, o.role = .report →
    ∀ e ∈ ch.raised, e.isMitra = true
  | _ => True

instance (c : Config) : (a : Action) → Decidable (ReportRaisesMitra c a)
  | .call x ch => inferInstanceAs (Decidable (c.world.serving x = some .chat →
      ∀ o ∈ c.nextCall x, o.role = .report → ∀ e ∈ ch.raised, e.isMitra = true))
  | .start .. => isTrue trivial
  | .finish _ => isTrue trivial
  | .env _ => isTrue trivial

namespace Finalizing

variable {d : Deployment} {x : Conn} {w w' : World} {route : Route} {α : Type}

/-- `x` has written no session. -/
def Clean (x : Conn) (w : World) : Prop := ∀ k v, (w.db.sessions.row k).dirty ≠ some (x,v)

/-- No session that `x` has written is left being finalised, and the one it has claimed has ended. -/
def Ended (x : Conn) (w : World) : Prop :=
  ∀ k v, (w.db.sessions.row k).dirty = some (x,v) → v.state ≠ .finalizing ∧
    (w.lastRead x Op.claimed = some k → v.state = .completed ∨ v.state = .failed)

/-- Commits meet no session that is being finalised; within a turn the report raises a `MitraError`. -/
def spec (d : Deployment) (x : Conn) : Spec Op Op.Ans Exn World where
  pre o w := o.Lawful ∧ (o = .commit → Ended x w)
  post o w r w' := Called d x o w r w' ∧
    (o.role = .report → w.serving x = some .chat → ∀ e, r = .error e → e.isMitra = true)
  rely := Unmoved x

/-- The request has claimed nothing. -/
structure Before (x : Conn) (route : Route) (w : World) : Prop where
  serving : w.serving x = some route
  claimed : w.lastRead x Op.claimed = none
  state : ∀ k v, (w.db.sessions.row k).dirty = some (x,v) → v.state ≠ .finalizing

/-- The request has ended what it claimed. -/
structure After (x : Conn) (route : Route) (w : World) : Prop where
  serving : w.serving x = some route
  ended : Ended x w

/-- The request has claimed the session. -/
structure Claiming (x : Conn) (route : Route) (s : AgentSession) (w : World) : Prop where
  serving : w.serving x = some route
  tx : w.db.tx x = .active
  own : (w.db.sessions.row s.id).dirty = some (x,s)
  state : s.state = .finalizing
  others : ∀ k v, k ≠ s.id → (w.db.sessions.row k).dirty = some (x,v) → v.state ≠ .finalizing
  claimed : w.lastRead x Op.claimed = some s.id

theorem Before.after (h : Before x route w) : After x route w := by
  refine ⟨h.serving,fun k v hd => ⟨h.state k v hd,fun hk => ?_⟩⟩
  rw [h.claimed] at hk
  cases hk

theorem Before.unmoved (h : Before x route w) (hr : Unmoved x w w') : Before x route w' where
  serving := hr.serving.trans h.serving
  claimed := (hr.lastRead _).trans h.claimed
  state k v hd := h.state k v (hr.dirty k v hd)

theorem After.unmoved (h : After x route w) (hr : Unmoved x w w') : After x route w' where
  serving := hr.serving.trans h.serving
  ended k v hd := by
    rw [hr.lastRead]
    exact h.ended k v (hr.dirty k v hd)

theorem Claiming.unmoved {s : AgentSession} (h : Claiming x route s w) (hr : Unmoved x w w') :
    Claiming x route s w' where
  serving := hr.serving.trans h.serving
  tx := hr.tx.trans h.tx
  own := by
    rw [hr.own _ _ h.own]
    exact h.own
  state := h.state
  others k v hk hd := h.others k v hk (hr.dirty k v hd)
  claimed := (hr.lastRead _).trans h.claimed

/-- Where nothing of `x` is left, nothing is being finalised. -/
theorem after_of_clean (hs : w.serving x = some route) (hd : Clean x w) : After x route w :=
  ⟨hs,fun k v h => absurd h (hd k v)⟩

/-- A call that claims nothing and moves no session to `finalizing`. -/
theorem Before.called {o : Op} {r : Except Exn o.Ans} (hw : Before x route w) (hc : Called d x o w r w')
    (ho : o.role ∉ [Role.claim,.apply,.forced]) : Before x route w' := by
  refine ⟨by rw [hc.serving,hw.serving],?_,?_⟩
  · rw [hc.lastRead,Op.claimed_of_role fun e => ho (by simp [e]),hw.claimed]
    rfl
  · intro k v hd
    rcases hc.written hd with hd | ⟨s,p,rfl,hstep⟩
    · exact hw.state k v hd
    · cases s with
      | createPending c agent language =>
        obtain ⟨-,rfl⟩ := hstep
        simp
      | updateStateAndFields id expected new fields =>
        rcases Stmt.role_updateStateAndFields id expected new fields with hr | hr
        all_goals exact absurd (by simp [Op.role,hr]) ho
      | claimFinalizing id => exact absurd (by simp [Op.role,Stmt.role]) ho
      | abandonOpenSession c reason =>
        obtain ⟨u,-,-,-,rfl⟩ := hstep
        simp
      | sweepAbandonedOlderThan cutoff reason =>
        obtain ⟨u,-,-,-,rfl⟩ := hstep
        simp
      | _ => exact hstep.elim

/-- A call that writes no session. -/
theorem After.called {o : Op} {r : Except Exn o.Ans} (hw : After x route w) (hc : Called d x o w r w')
    (ho : o.role ∉ [Role.create,.apply,.forced,.claim,.abandon]) : After x route w' := by
  refine ⟨by rw [hc.serving,hw.serving],?_⟩
  intro k v hd
  have hclaimed : w'.lastRead x Op.claimed = w.lastRead x Op.claimed := by
    rw [hc.lastRead,Op.claimed_of_role fun e => ho (by simp [e])]
    rfl
  rw [hclaimed]
  rcases hc.written hd with hd | ⟨s,p,rfl,hstep⟩
  · exact hw.ended k v hd
  · exact absurd hstep.role ho

theorem Claiming.called {s : AgentSession} {o : Op} {r : Except Exn o.Ans} (hw : Claiming x route s w)
    (hc : Called d x o w r w') (hrow : w'.db.sessions.row = w.db.sessions.row)
    (htx : w'.db.tx x = w.db.tx x) (ho : o.role ≠ .claim) : Claiming x route s w' where
  serving := by rw [hc.serving,hw.serving]
  tx := by rw [htx,hw.tx]
  own := by rw [hrow,hw.own]
  state := hw.state
  others k v hk hd := hw.others k v hk (hrow ▸ hd)
  claimed := by
    rw [hc.lastRead,Op.claimed_of_role ho,hw.claimed]
    rfl

/-- The roles that a request plays before it claims a session. -/
def freeRoles : List Role :=
  [.read,.query,.count,.record,.newConversation,.create,.abandon,.pin,.unpin,.lock,.unlock,.commit,.rollback,
    .pop,.channel,.mark]

/-- The roles that it plays afterwards, but for the update. -/
def laterRoles : List Role :=
  [.read,.query,.count,.record,.newConversation,.pin,.unpin,.lock,.unlock,.commit,.rollback,.pop,.channel,
    .mark]

theorem pre_of_ended {o : Op} (ho : o.role ≠ .forced) (hw : Ended x w) : (spec d x).pre o w :=
  ⟨ho,fun _ => hw⟩

theorem Before.call {o : Op} (ho : o.role ∈ freeRoles) : Keeps.Call (spec d x) (Before x route) o := by
  intro w hw w₁ hr
  have hw₁ := hw.unmoved hr
  refine ⟨pre_of_ended (fun e => absurd (e ▸ ho) (by decide)) hw₁.after.ended,fun r w₂ h₂ => ?_⟩
  apply hw₁.called h₂.1
  revert ho
  generalize o.role = role
  revert role
  decide

theorem After.call {o : Op} (ho : o.role ∈ laterRoles) : Keeps.Call (spec d x) (After x route) o := by
  intro w hw w₁ hr
  have hw₁ := hw.unmoved hr
  refine ⟨pre_of_ended (fun e => absurd (e ▸ ho) (by decide)) hw₁.ended,fun r w₂ h₂ => ?_⟩
  apply hw₁.called h₂.1
  revert ho
  generalize o.role = role
  revert role
  decide

theorem keeps_before {rs : List Role} {p : Proc α} (h : Within rs p) (hs : rs ⊆ freeRoles) :
    Keeps (spec d x) (Before x route) p := Keeps.of_all h fun _ ho => Before.call (hs ho)

theorem keeps_after {rs : List Role} {p : Proc α} (h : Within rs p) (hs : rs ⊆ laterRoles) :
    Keeps (spec d x) (After x route) p := Keeps.of_all h fun _ ho => After.call (hs ho)

/-- An update that does not lead to `finalizing`, before the claim. -/
theorem keeps_apply {session : AgentSession} {delta : SessionDelta} (hd : delta.state ≠ .finalizing) :
    Keeps (spec d x) (Before x route) (SessionService.apply session delta) := by
  unfold SessionService.apply SessionService.checkTransition
  split
  · rename_i hallowed
    have hone : ∀ rows : List AgentSession, Within [] (scalarOneOrNone rows) := Within.scalarOneOrNone
    have hrole : (Op.stmt (.updateStateAndFields session.id [session.state] delta.state delta.fields)).role =
        .apply := by simp [Op.role,Stmt.role,hallowed]
    refine Keeps.bind (Keeps.pure _) fun _ => Keeps.bind ?_ fun updated => ?_
    · refine Keeps.bind (Keeps.perform ?_) fun rows => keeps_before (hone rows) (by decide)
      intro w hw w₁ hr
      have hw₁ := hw.unmoved hr
      refine ⟨pre_of_ended (by simp [hrole]) hw₁.after.ended,fun r w₂ h₂ => ?_⟩
      refine ⟨by rw [h₂.1.serving,hw₁.serving],?_,?_⟩
      · rw [h₂.1.lastRead,hw₁.claimed]
        rfl
      · intro k v hdirty
        rcases h₂.1.written hdirty with hdirty | ⟨s,p,hs,hstep⟩
        · exact hw₁.state k v hdirty
        · obtain rfl := Op.stmt.inj hs
          obtain ⟨u,-,-,-,rfl⟩ := hstep
          exact hd
    · cases updated with
      | none => exact Keeps.throw _
      | some updated => exact Keeps.pure _
  · exact fun w hw => hw

/-- The update that ends the claimed session. -/
theorem wp_applyClaimed {claimed : AgentSession} {delta : SessionDelta}
    (hd : delta.state = .completed ∨ delta.state = .failed) (hw : Claiming x route claimed w) :
    wp (spec d x) (SessionService.apply claimed delta) (fun _ w' => After x route w') w := by
  have hallowed : delta.state ∈ claimed.state.allowed := by
    rw [hw.state]
    rcases hd with hd | hd <;> rw [hd] <;> decide
  unfold SessionService.apply SessionService.checkTransition
  rw [if_pos hallowed]
  apply wp_bind.mpr
  apply wp_bind.mpr
  apply wp_bind.mpr
  apply wp_perform.mpr
  intro w₁ hr
  have hw₁ := hw.unmoved hr
  have hrole : (Op.stmt (.updateStateAndFields claimed.id [claimed.state] delta.state delta.fields)).role =
      .apply := by simp [Op.role,Stmt.role,hallowed]
  refine ⟨⟨by simp [Op.Lawful,hrole],by rintro ⟨⟩⟩,fun r w₂ h₂ => ?_⟩
  have hserving : w₂.serving x = some route := by rw [h₂.1.serving,hw₁.serving]
  rcases r with e | rows
  · exact after_of_clean hserving (h₂.1.clean_of_error hw₁.tx)
  rcases h₂.1.of_update with ⟨-,hnone,-⟩ | ⟨u,now,-,rfl,hchange⟩
  · have hview : w₁.db.sessions.view x claimed.id = some claimed := Row.view_of_dirty hw₁.own
    simpa using hnone claimed hview
  · have hlast : w₂.lastRead x Op.claimed = some claimed.id := by
      rw [h₂.1.lastRead,hw₁.claimed]
      rfl
    refine ⟨hserving,fun k v hdirty => ?_⟩
    by_cases hk : k = claimed.id
    · subst hk
      rw [hchange.row] at hdirty
      obtain rfl : delta.fields.assign delta.state now u = v := (Prod.mk.inj (Option.some.inj hdirty)).2
      have hstate : (delta.fields.assign delta.state now u).state = delta.state := rfl
      rw [hstate]
      refine ⟨?_,fun _ => hd⟩
      rcases hd with hd | hd <;> simp [hd]
    · rw [hchange.others k hk] at hdirty
      refine ⟨hw₁.others k v hk hdirty,fun he => ?_⟩
      rw [hlast] at he
      exact absurd (Option.some.inj he).symm hk

/-- What a request that may have claimed leaves behind: outside a turn, an exception that is not a
`MitraError` may leave the claim to be rolled back. -/
def Left (x : Conn) (route : Route) (r : Except Exn α) (w : World) : Prop :=
  After x route w ∨
    w.serving x = some route ∧ route ≠ .chat ∧ ∃ e, r = .error e ∧ e.isMitra = false

open OrchestrationService

/-- A call of a third party, while the session is claimed. -/
theorem Claiming.of_role {s : AgentSession} {o : Op} {r : Except Exn o.Ans} (hw : Claiming x route s w)
    (hc : Called d x o w r w') (ho : o.role.isDb = false) : Claiming x route s w' := by
  have hdb := hc.db_of_role ho
  refine hw.called hc (by rw [hdb]) (by rw [hdb]) ?_
  intro e
  rw [e] at ho
  cases ho

theorem wp_endStory {claimed : AgentSession} {agent : Option RegisteredAgent} {user : UserContext}
    (hw : Claiming x route claimed w) :
    wp (spec d x) (endStory d claimed agent user) (fun _ w' => Claiming x route claimed w') w := by
  unfold endStory
  split
  · apply wp_bind.mpr
    apply wp_perform.mpr
    intro w₁ hr
    have hw₁ := hw.unmoved hr
    refine ⟨⟨nofun,nofun⟩,fun r w₂ h₂ => ?_⟩
    have hw₂ := hw₁.of_role h₂.1 rfl
    rcases r with e | ⟨storyId,content⟩ <;> exact hw₂
  · exact hw

theorem wp_fetchReport {claimed : AgentSession} {remote : RemoteSpec} (hw : Claiming x route claimed w) :
    wp (spec d x) (fetchReport claimed remote) (fun r w' => Claiming x route claimed w' ∧
      ∀ e, r = .error e → route ≠ .chat ∧ e.isMitra = false) w := by
  apply wp_bind.mpr
  apply wp_attempt.mpr
  apply wp_perform.mpr
  intro w₁ hr
  have hw₁ := hw.unmoved hr
  refine ⟨⟨nofun,nofun⟩,fun r w₂ h₂ => ?_⟩
  have hw₂ := hw₁.of_role h₂.1 rfl
  rcases r with e | url
  · rcases hmitra : e.isMitra with _ | _
    · simp only [hmitra]
      refine ⟨hw₂,?_⟩
      rintro e' he
      obtain rfl := Except.error.inj he
      refine ⟨?_,hmitra⟩
      rintro rfl
      have hraised := h₂.2 rfl hw₁.serving e rfl
      rw [hmitra] at hraised
      cases hraised
    · simp only [hmitra]
      exact ⟨hw₂,fun e' he => by simp at he⟩
  · exact ⟨hw₂,fun e' he => by simp at he⟩

theorem wp_finalizeClaimed {claimed : AgentSession} {agent : Option RegisteredAgent} {user : UserContext}
    (hw : Claiming x route claimed w) :
    wp (spec d x) (finalizeClaimed d claimed agent user) (Left x route) w := by
  apply wp_bind.mpr
  have hclose : wp (spec d x) (closeRemoteChannel d claimed.conversationId)
      (fun r w' => (∃ u, r = .ok u) ∧ Claiming x route claimed w') w := by
    unfold closeRemoteChannel
    split
    · apply wp_bind.mpr
      apply wp_perform.mpr
      intro w₁ hr
      refine ⟨⟨nofun,nofun⟩,fun r w₂ h₂ => ?_⟩
      obtain ⟨a,rfl⟩ := h₂.1.sure rfl
      exact ⟨⟨_,rfl⟩,(hw.unmoved hr).of_role h₂.1 rfl⟩
    · exact ⟨⟨_,rfl⟩,hw⟩
  apply wp_mono hclose
  rintro r w₁ ⟨⟨u,rfl⟩,h₁⟩
  apply wp_bind.mpr
  apply wp_attempt.mpr
  apply wp_mono (wp_endStory h₁)
  rintro (e | ⟨remote,storyId,content⟩) w₂ h₂
  · apply wp_bind.mpr
    apply wp_mono (wp_applyClaimed (.inr rfl) h₂)
    rintro (e' | s) w₃ h₃ <;> exact .inl h₃
  · apply wp_bind.mpr
    apply wp_mono (wp_fetchReport h₂)
    rintro (e | url) w₃ ⟨h₃,hraise⟩
    · obtain ⟨hroute,hmitra⟩ := hraise e rfl
      exact .inr ⟨h₃.serving,hroute,e,rfl,hmitra⟩
    · apply wp_bind.mpr
      apply wp_mono (wp_applyClaimed (.inl rfl) h₃)
      rintro (e | completed) w₄ h₄
      · exact .inl h₄
      · have hunpin : Within [.unpin] (ConversationRepository.unpin claimed.conversationId) := Within.stmt rfl
        apply wp_bind.mpr
        apply wp_mono (keeps_after hunpin (by decide) w₄ h₄)
        rintro (e | a) w₅ h₅ <;> exact .inl h₅

theorem wp_finalize {session : AgentSession} {agent : Option RegisteredAgent} {user : UserContext}
    (hw : Before x route w) : wp (spec d x) (finalize d session agent user) (Left x route) w := by
  apply wp_bind.mpr
  apply wp_bind.mpr
  apply wp_perform.mpr
  intro w₁ hr
  have hw₁ := hw.unmoved hr
  refine ⟨⟨nofun,nofun⟩,fun r w₂ h₂ => ?_⟩
  have hserving : w₂.serving x = some route := by rw [h₂.1.serving,hw₁.serving]
  rcases r with e | rows
  · refine .inl (Before.after ⟨hserving,?_,fun k v hd => hw₁.state k v (h₂.1.dirty_of_error hd)⟩)
    rw [h₂.1.lastRead,hw₁.claimed]
    rfl
  rcases h₂.1.of_claim with ⟨rfl,-,hsame⟩ | ⟨u,hu,rfl,hchange⟩
  · have hbefore : Before x route w₂ := by
      refine ⟨hserving,?_,fun k v hd => hw₁.state k v (hsame ▸ hd)⟩
      rw [h₂.1.lastRead,hw₁.claimed]
      rfl
    have hget : Within [.query] (do pure ((← SessionService.get session.id).getD session) : Proc AgentSession) :=
      Within.bind (SessionService.get_calls session.id).within fun _ => trivial
    have hrest := wp_mono (keeps_before (d := d) hget (by decide) w₂ hbefore)
      fun r w₃ h₃ => (Or.inl h₃.after : Left x route r w₃)
    exact hrest
  · have hclaiming : Claiming x route { u with state := .finalizing } w₂ := by
      refine ⟨hserving,h₂.1.tx_of_ok.2,hchange.own,rfl,?_,?_⟩
      · intro k v hk hd
        have hk' : k ≠ session.id := hchange.key ▸ hk
        rw [hchange.others k hk'] at hd
        exact hw₁.state k v hd
      · rw [h₂.1.lastRead]
        exact congrArg some hchange.key.symm
    apply wp_bind.mpr
    apply wp_perform.mpr
    intro w₃ hr₃
    have hw₃ := hclaiming.unmoved hr₃
    refine ⟨⟨nofun,nofun⟩,fun r w₄ h₄ => ?_⟩
    rcases r with e | a
    · refine .inl (after_of_clean ?_ (h₄.1.clean_of_error hw₃.tx))
      rw [h₄.1.serving,hw₃.serving]
    · exact wp_finalizeClaimed (hw₃.called h₄.1 (h₄.1.row_of_stmt (by simp [Stmt.role]))
        (h₄.1.tx_of_ok.2.trans h₄.1.tx_of_ok.1.symm) nofun)

/-- Within a turn nothing is left to be rolled back. -/
theorem Left.after {r : Except Exn α} (h : Left x .chat r w) : After x .chat w := by
  rcases h with h | ⟨-,hroute,-⟩
  · exact h
  · exact absurd rfl hroute

theorem wp_settleTurn {inp : TurnInput} {agent : RegisteredAgent} {turn : AgentTurn}
    {session : Option AgentSession} (ht : TurnOf agent turn) (hw : Before x .chat w) :
    wp (spec d x) (settleTurn d inp agent turn session) (fun _ w' => After x .chat w') w := by
  unfold settleTurn
  split
  · exact hw.after
  · rename_i session
    apply wp_bind.mpr
    refine wp_mono (show wp (spec d x) _ (fun _ w' => Before x .chat w') w from ?_) ?_
    · rcases hdelta : turn.sessionDelta with _ | delta
      · exact hw
      · have hstate : delta.state ≠ .finalizing := by simp [ht.state delta hdelta]
        exact keeps_apply hstate w hw
    rintro (e | session') w₁ h₁
    · exact h₁.after
    · simp only
      split
      · apply wp_bind.mpr
        apply wp_mono (wp_finalize h₁)
        rintro (e | s) w₂ h₂ <;> exact h₂.after
      · exact h₁.after

theorem wp_handleTurnLocked {inp : TurnInput} {conv : Conversation} (hw : Before x .chat w) :
    wp (spec d x) (handleTurnLocked d inp conv) (fun _ w' => After x .chat w') w := by
  have hrecord := (recordUserMessage_calls inp conv).within
  have hcommit : Within [.commit] (perform Op.commit : Proc Unit) := Within.perform rfl
  apply wp_bind.mpr
  apply wp_mono (keeps_before hrecord (by decide) w hw)
  rintro (e | u) w₁ h₁
  · exact h₁.after
  apply wp_bind.mpr
  apply wp_mono (keeps_before (routeTurn_within d inp conv) (by decide) w₁ h₁)
  rintro (e | ⟨decision,agent⟩) w₂ h₂
  · exact h₂.after
  apply wp_bind.mpr
  apply wp_mono (keeps_before (admitTurn_calls d conv agent).within (by decide) w₂ h₂)
  rintro (e | ⟨session,history⟩) w₃ h₃
  · exact h₃.after
  apply wp_bind.mpr
  apply wp_mono (keeps_before hcommit (by decide) w₃ h₃)
  rintro (e | u) w₄ h₄
  · exact h₄.after
  have hrun := (runHandler_calls d inp conv agent session history).within
  apply wp_bind.mpr
  apply wp_mono ((returns_runHandler inp conv agent session history).wp (keeps_before hrun (by decide) w₄ h₄))
  rintro (e | turn) w₅ ⟨h₅,hturn⟩
  · exact h₅.after
  apply wp_bind.mpr
  apply wp_mono (wp_settleTurn (hturn turn rfl) h₅)
  rintro (e | session') w₆ h₆
  · exact h₆
  have hstore := (storeReply_calls inp conv decision agent turn session').within
  refine Keeps.bind (keeps_after hstore (by decide)) (fun _ => ?_) w₆ h₆
  exact Keeps.bind (keeps_after hcommit (by decide)) fun _ => Keeps.pure _

theorem wp_handleTurn {inp : TurnInput} (hw : Before x .chat w) :
    wp (spec d x) (handleTurn d inp) (fun _ w' => After x .chat w') w := by
  have hconv := (ConversationRepository.getOrCreate_calls inp.conversationId inp.user).within
  apply wp_bind.mpr
  apply wp_mono (keeps_before hconv (by decide) w hw)
  rintro (e | conv) w₁ h₁
  · exact h₁.after
  have hlock : Within [.lock] (tryLockConversation d conv.id) := Within.stmt rfl
  apply wp_bind.mpr
  apply wp_mono (keeps_before hlock (by decide) w₁ h₁)
  rintro (e | _ | _) w₂ h₂
  · exact h₂.after
  · exact h₂.after
  · apply wp_ensuring.mpr
    apply wp_mono (wp_handleTurnLocked h₂)
    intro r w₃ h₃
    apply wp_mono (keeps_after (unlockConversation_within d conv.id) (by decide) w₃ h₃)
    rintro (e | u) w₄ h₄ <;> exact h₄

theorem wp_finalizeNow {id : SessionId} {user : UserContext} (hw : Before x route w) :
    wp (spec d x) (finalizeNow d id user) (Left x route) w := by
  apply wp_bind.mpr
  apply wp_mono (keeps_before (SessionService.get_calls id).within (by decide) w hw)
  rintro (e | _ | session) w₁ h₁
  · exact .inl h₁.after
  · exact .inl h₁.after
  have hsnapshot : Within [.read] snapshot := Within.perform rfl
  apply wp_bind.mpr
  apply wp_mono (keeps_before hsnapshot (by decide) w₁ h₁)
  rintro (e | registry) w₂ h₂
  · exact .inl h₂.after
  apply wp_bind.mpr
  apply wp_mono (wp_finalize h₂)
  rintro (e | s) w₃ (h₃ | ⟨hs,hroute,e',he,hmitra⟩)
  · exact .inl h₃
  · exact .inr ⟨hs,hroute,e',by cases he; rfl,hmitra⟩
  · exact .inl h₃
  · cases he

theorem wp_withDb {p : Proc Response} (h : ∀ w, Before x route w → wp (spec d x) p (Left x route) w)
    (hw : Before x route w) : wp (spec d x) (Routes.withDb p) (fun _ w' => Clean x w') w := by
  refine Routes.wp_withDb_of (A := Before x route) (B := fun _ => True) (D := Clean x) ?_ h ?_ ?_ ?_ ?_ hw
  · exact fun o w r w' ho hp => hp.1.sure ho
  · rintro o (rfl | rfl)
    · exact Before.call (show Role.read ∈ freeRoles by decide)
    · exact Before.call (show Role.query ∈ freeRoles by decide)
  · rintro a w (hw | ⟨-,-,e,he,-⟩)
    · apply wp_perform.mpr
      exact fun w₁ hr => ⟨pre_of_ended (by decide) (hw.unmoved hr).ended,fun _ _ _ => trivial⟩
    · cases he
  · exact fun e w _ => wp_perform.mpr fun w₁ _ => ⟨⟨nofun,nofun⟩,fun _ _ _ => trivial⟩
  · exact fun w _ => wp_perform.mpr fun w₁ _ => ⟨⟨nofun,nofun⟩,fun _ _ h₂ => h₂.1.clean_of_rollback⟩

/-- A route that claims nothing. -/
theorem wp_plain {p : Proc Response} (h : Keeps (spec d x) (Before x route) p) (hw : Before x route w) :
    wp (spec d x) (Routes.withDb p) (fun _ w' => Clean x w') w :=
  wp_withDb (fun w hw => wp_mono (h w hw) fun _ _ h' => .inl h'.after) hw

theorem wp_prog {req : Req} (hw : Before x req.route w) :
    wp (spec d x) (req.prog d) (fun _ w' => Clean x w') w := by
  cases req with
  | chat body user =>
    apply wp_withDb ?_ hw
    intro w hw
    have hchat := @Routes.wp_chat d _ (spec d x) (Before x .chat)
      (After x .chat) body user (fun inp w hw => wp_handleTurn hw) (fun w hw => hw.after)
      (fun o ho => After.call (by rw [ho]; decide)) w hw
    exact wp_mono hchat fun _ _ h => .inl h
  | finalize sid user =>
    apply wp_withDb ?_ hw
    intro w hw
    apply wp_bind.mpr
    apply wp_mono (keeps_before (Routes.resolve_calls sid user).within (by decide) w hw)
    rintro (e | _ | ⟨id,dto⟩) w₁ h₁
    · exact .inl h₁.after
    · exact .inl h₁.after
    · apply wp_catching.mpr
      apply wp_bind.mpr
      apply wp_mono (wp_finalizeNow h₁)
      rintro (e | _ | s) w₂ (h₂ | ⟨hs,hroute,e',he,hmitra⟩)
      · cases e <;> exact .inl h₂
      · obtain rfl := Except.error.inj he
        cases e with
        | mitra e => cases hmitra
        | _ => exact .inr ⟨hs,hroute,_,rfl,hmitra⟩
      · exact .inl h₂
      · cases he
      · exact .inl h₂
      · cases he
  | resume sid user =>
    apply wp_plain ?_ hw
    apply Routes.keeps_resumeSession
    · exact fun o ho => Before.call ((by decide : [Role.read,.query,.record,.commit] ⊆ freeRoles) ho)
    · exact fun session => keeps_apply (by simp)
  | abandon sid user => exact wp_plain (keeps_before (Routes.abandonSession_calls d sid user).within (by decide)) hw
  | reset c user => exact wp_plain (keeps_before (Routes.reset_calls d c user).within (by decide)) hw
  | sweep olderThan => exact wp_plain (keeps_before (Routes.sweep_calls olderThan).within (by decide)) hw

theorem eq_getReport {o : Op} (h : o.role = .report) : ∃ sid mediaType, o = .getReport sid mediaType := by
  cases o with
  | getReport sid mediaType => exact ⟨sid,mediaType,rfl⟩
  | stmt s =>
    have hdb := s.isDb_role
    rw [show s.role = .report from h] at hdb
    cases hdb
  | _ => cases h

/-- What fetching the report raises was raised by the client. -/
theorem raised_of_report {o : Op} {ch : Choice} {e : Exn} (ho : o.role = .report)
    (he : w.exec d x o ch = some (.error e,w')) : ch.raised = some e := by
  obtain ⟨sid,mediaType,rfl⟩ := eq_getReport ho
  obtain ⟨done,w₁,hp,-⟩ := World.exec_eq he
  change w.remote Choice.asOptText ch = _ at hp
  unfold World.remote at hp
  split at hp
  · obtain ⟨he,-⟩ := Prod.mk.inj (Option.some.inj hp)
    exact congrArg some (Except.error.inj he)
  · obtain ⟨⟨a,ha⟩,-⟩ := World.asked_eq hp
    cases ha

/-- Every request is verified against every other. -/
def outline (d : Deployment) : Outline (system d) ReportRaisesMitra World where
  loc w _ := w
  spec := spec d
  G w := AgentSession.Consistent w.db.sessions ∧
    ∀ k s, w.db.sessions.committed k = some s → s.state ≠ .finalizing
  Free := Clean
  Q x _ := Clean x
  rely_refl _ w := .refl w
  rely_trans _ _ _ _ h₁ h₂ := h₁.trans h₂
  free_rely x w w' hw hr k v hd := hw k v (hr.dirty k v hd)
  free_end _ _ _ h := h
  begin_ok c x req hG hfree _ := by
    refine ⟨hG,wp_prog ⟨?_,?_,?_⟩,fun y hy => .of_begin hy.symm⟩
    · simp [system]
    · simp [World.lastRead,system]
    · exact fun k v hd => absurd hd (hfree k v)
  exec_ok c x o k ch r w hG hx hok hpre he := by
    have hcalled := called_of_exec hG.1 hpre.1 he
    refine ⟨⟨hcalled.after,?_⟩,⟨hcalled,?_⟩,fun y hy => .of_exec hy.symm hG.1 he⟩
    · intro k' s hs
      rcases hcalled.committed k' with hsame | ⟨rfl,v,hd,hv⟩
      · exact hG.2 k' s (hsame ▸ hs)
      · obtain rfl := Option.some.inj (hs.symm.trans hv)
        exact (hpre.2 rfl k' s hd).1
    · rintro ho hs e rfl
      exact hok hs o (Config.nextCall_eq hx) ho e (raised_of_report ho he)
  env_ok c e w hG _ he := by
    have hf := World.envFrame he
    refine ⟨?_,fun y => .of_env he⟩
    rw [hf.db]
    exact hG

/-- The commit of a request that has claimed a session leaves the row as it was, or ended. -/
def Settles (c c' : Config) (k : SessionId) : Prop :=
  c'.world.db.sessions.committed k = c.world.db.sessions.committed k ∨
    ∃ s, c'.world.db.sessions.committed k = some s ∧ (s.state = .completed ∨ s.state = .failed)

/-- A turn that ends the interview, up to its `n`th call. -/
def cues (n : ℕ) (answer : World → Op → Choice) : List (Cue World Conn Req Choice World.EnvAct Op) :=
  [.act (.start 0 (Sample.turn "hello" "story" .absent)),.serve 0 answer n]

/-- Mitra says that the interview is over, and the report's address is malformed. -/
def malformed (w : World) : Op → Choice
  | .isSessionCompleted _ => .flag true
  | .getReport .. => .raise (.python "ValueError" "Invalid IPv6 URL")
  | o => Sample.smooth w o

/-- Mitra says that the interview is over, and that the report is not ready. -/
def unready (w : World) : Op → Choice
  | .getReport .. => .raise (.mitra (.base "report not ready"))
  | o => malformed w o

end Finalizing

open Finalizing

end Saarathi
