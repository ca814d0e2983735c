import Saarathi.TitledStatements

/-!
# Turns and their titles

A turn that the user types titles its conversation before it is routed, a turn
that the interface starts when its reply is stored. A transaction that has
stopped in between admits no turn.
-/

namespace Saarathi

open ReadCommitted Machine Program Program.Prog Interleaving

/-- The text that the user types in a turn, unless the interface started it. -/
def TurnInput.typing (inp : TurnInput) : Option Json := if inp.autostart then none else some inp.text

namespace ConversationTitles

variable {d : Deployment} {α : Type} {typed : Option Json} {c : ConversationId} {n n' : TitleNotes}

/-- No title is still to be seen to. -/
structure Rest (typed : Option Json) (n : TitleNotes) : Prop where
  typing : n.typing = typed
  mid : n.stage.mid = none

/-- The conversation has the title that the request's text gives it, unless the transaction has stopped. -/
structure Live (c : ConversationId) (typed : Option Json) (n : TitleNotes) : Prop extends Rest typed n where
  named : n.tx = .active → ∀ text, typed = some text → n.stage = .named c text

/-- The request may end its transaction. -/
structure Over (typed : Option Json) (n : TitleNotes) : Prop where
  typing : n.typing = typed
  closed : n.stage.Closed

theorem Rest.over (h : Rest typed n) : Over typed n := ⟨h.typing,Stage.closed_of_mid h.mid⟩

section Calls

variable {o : Op}

theorem titling_of_not_titles {s : Stmt} (h : Op.titles (.stmt s) = false) (n : TitleNotes) : s.Titling n := by
  cases s with
  | nextSeqForUpdate c => cases h
  | insertMessage m => cases h
  | touch c title => cases h
  | setPlaceholderTitle c title => cases h
  | replacePlaceholderTitle c j => cases h
  | _ => trivial

theorem stageAfter_of_not_titles (h : o.titles = false) (r : Except Exn o.Ans) (hmid : n.stage.mid = none) :
    (o.stageAfter n.typing n.stage r).mid = none := by
  cases o with
  | stmt s =>
    cases r with
    | error e => rw [Titles.stageAfter_error]; rfl
    | ok a => cases s <;> first | exact hmid | cases h
  | commit => cases h
  | rollback => cases h
  | _ => exact hmid

/-- What a call that the notes do not follow leaves. -/
theorem post_of_not_titles (h : o.titles = false) {r : Except Exn o.Ans} (hpost : spec.post o n r n') :
    n'.typing = n.typing ∧ (n.stage.mid = none → n'.stage.mid = none) ∧
      (n'.tx = .active → n.tx = .active ∧ n'.stage = n.stage ∧ n'.bumped = n.bumped) := by
  obtain ⟨-,hcarries,htyping,hstage,hbumped⟩ := hpost
  refine ⟨htyping,fun hmid => ?_,fun htx => ?_⟩
  · rw [hstage]
    exact stageAfter_of_not_titles h r hmid
  · cases o with
    | stmt s =>
      cases r with
      | error e => exact absurd htx hcarries.1
      | ok a =>
        refine ⟨hcarries.1,?_,?_⟩
        · rw [hstage]
          cases s <;> first | rfl | cases h
        · rw [hbumped]
          cases s <;> first | rfl | cases h
    | commit => cases h
    | rollback => cases h
    | _ => exact ⟨hcarries.symm.trans htx,hstage,hbumped⟩

theorem pre_of_not_titles (h : o.titles = false) (n : TitleNotes) : spec.pre o n := by
  cases o with
  | stmt s => exact fun _ => titling_of_not_titles h n
  | commit => cases h
  | _ => trivial

theorem call_rest (h : o.titles = false) : Keeps.Call spec (Rest typed) o := by
  rintro n hn n₁ rfl
  refine ⟨pre_of_not_titles h n,fun r n' hpost => ?_⟩
  obtain ⟨ht,hmid,-⟩ := post_of_not_titles h hpost
  exact ⟨ht.trans hn.typing,hmid hn.mid⟩

theorem call_live (h : o.titles = false) : Keeps.Call spec (Live c typed) o := by
  rintro n hn n₁ rfl
  refine ⟨pre_of_not_titles h n,fun r n' hpost => ?_⟩
  obtain ⟨ht,hmid,hsame⟩ := post_of_not_titles h hpost
  refine ⟨⟨ht.trans hn.typing,hmid hn.mid⟩,fun htx text htext => ?_⟩
  obtain ⟨htx',hstage,-⟩ := hsame htx
  exact hstage.trans (hn.named htx' text htext)

/-- A call that ends or undoes the transaction. -/
theorem call_over {o : Op} (ho : o = .commit ∨ o = .rollback) (hn : Over typed n) :
    wp spec (perform o : Proc o.Ans) (fun _ n' => Rest typed n') n := by
  refine wp_perform.mpr fun n₁ h₁ => ?_
  obtain rfl : n = n₁ := h₁
  rcases ho with rfl | rfl
  · refine ⟨fun _ => hn.closed,fun r n' hpost => ?_⟩
    obtain ⟨-,-,ht,hstage,-⟩ := hpost
    refine ⟨ht.trans hn.typing,?_⟩
    rw [hstage]
    cases r with
    | error e => rfl
    | ok a => cases n.stage <;> rfl
  · refine ⟨trivial,fun r n' hpost => ?_⟩
    obtain ⟨-,-,ht,hstage,-⟩ := hpost
    refine ⟨ht.trans hn.typing,?_⟩
    rw [hstage]
    rfl

/-- The calls of a calm program that neither commits nor undoes anything. -/
theorem not_titles_of_calm {R : List Role} {p : Proc α} (hc : Calm p) (hw : Within R p)
    (hR : Role.commit ∉ R ∧ Role.rollback ∉ R) : All (fun o => o.titles = false) p := by
  refine (hc.and hw).mono ?_
  rintro o ⟨hcalm,hrole⟩
  cases o with
  | stmt s => cases s <;> first | rfl | cases hcalm
  | commit => exact absurd hrole hR.1
  | rollback => exact absurd hrole hR.2
  | _ => rfl

end Calls

/-- A statement that is called for: what it leaves where it goes through, and where it fails. -/
theorem wp_stmt {s : Stmt} {Q : Except Exn s.Ans → TitleNotes → Prop} (hpre : n.tx = .active → s.Titling n)
    (hok : ∀ a, n.tx = .active → Q (.ok a) ⟨n.typing,Op.stageAfter n.typing n.stage (.stmt s) (.ok a),
      Op.bumpedAfter n.bumped (.stmt s) (.ok a),.active⟩)
    (herror : ∀ e tx, tx ≠ .active → Q (.error e) ⟨n.typing,.idle,none,tx⟩) :
    wp spec (stmt s) Q n := by
  refine wp_perform.mpr fun n₁ h₁ => ?_
  obtain rfl : n = n₁ := h₁
  refine ⟨hpre,?_⟩
  rintro r ⟨typing',stage',bumped',tx'⟩ ⟨-,hcarries,ht,hs,hb⟩
  simp only at ht hs hb
  subst ht hs hb
  cases r with
  | ok a =>
    obtain ⟨htx,htx'⟩ := hcarries
    simp only at htx htx'
    subst htx'
    exact hok a htx
  | error e =>
    rw [Titles.stageAfter_error,Titles.bumpedAfter_error]
    exact herror e tx' hcarries.1

/-- A conversation's count is raised, by a request that has seen to its titles. -/
theorem wp_nextSeq {Q : Except Exn ℕ → TitleNotes → Prop} (hmid : n.stage.mid = none)
    (hok : ∀ seq, n.tx = .active → Q (.ok seq) ⟨n.typing,n.stage,some c,.active⟩)
    (herror : ∀ e n', n'.typing = n.typing → n'.stage.mid = none → Q (.error e) n') :
    wp spec (ConversationRepository.nextSeqForUpdate c) Q n := by
  refine wp_bind.mpr (wp_stmt (fun _ => hmid) ?_ fun e tx _ => herror e _ rfl rfl)
  rintro (_ | ⟨seq,_ | ⟨seq',rest⟩⟩) htx
  · exact herror _ _ rfl hmid
  · exact hok seq htx
  · exact herror _ _ rfl hmid

/-- The user's message is stored, and the conversation has its title. -/
theorem wp_recordUserMessage (inp : TurnInput) (conv : Conversation) (hn : Rest inp.typing n) :
    wp spec (OrchestrationService.recordUserMessage inp conv) (fun r n' => match r with
      | .ok _ => Live conv.id inp.typing n'
      | .error _ => Over inp.typing n') n := by
  have hstopped : ∀ tx, Over inp.typing ⟨n.typing,.idle,none,tx⟩ := fun tx => ⟨hn.typing,trivial⟩
  refine wp_bind.mpr (wp_nextSeq hn.mid (fun seq htx => ?_) fun e n' ht hm => (Rest.mk (ht.trans hn.typing) hm).over)
  refine wp_bind.mpr (wp_stmt (fun _ _ _ _ => ⟨hn.mid,rfl⟩) (fun id htx' => ?_) fun e tx _ => hstopped tx)
  cases hauto : inp.autostart with
  | true =>
    have htyping : inp.typing = none := by simp [TurnInput.typing,hauto]
    have hnone : n.typing = none := hn.typing.trans htyping
    simp only [if_true]
    refine wp_stmt (fun _ => .inl ?_) (fun _ _ => ?_) fun e tx _ => hstopped tx
    · simpa [Op.stageAfter,hnone] using hn.mid
    · have hstage : Op.stageAfter n.typing n.stage (.stmt (.insertMessage
          { conversationId := conv.id, seq := seq, role := .user, content := inp.text })) (.ok id) = n.stage := by
        simp [Op.stageAfter,hnone]
      refine ⟨⟨hn.typing,?_⟩,fun _ text ht => ?_⟩
      · rw [hstage]
        have hmid := hn.mid
        cases hst : n.stage with
        | said c text => simp [hst,Stage.mid] at hmid
        | touched c text => simp [hst,Stage.mid] at hmid
        | _ => rfl
      · rw [htyping] at ht
        cases ht
  | false =>
    have htyping : inp.typing = some inp.text := by simp [TurnInput.typing,hauto]
    have hsome : n.typing = some inp.text := hn.typing.trans htyping
    have hstage : Op.stageAfter n.typing n.stage (.stmt (.insertMessage
        { conversationId := conv.id, seq := seq, role := .user, content := inp.text })) (.ok id) =
          .said conv.id inp.text := by
      simp [Op.stageAfter,hsome]
    rw [hstage]
    cases htitle : titleOf inp.text with
    | none =>
      obtain ⟨e,he⟩ := conversationTitle_of_none htitle
      simp only [Bool.false_eq_true,if_false,he]
      exact ⟨hn.typing,htitle⟩
    | some j =>
      have htruthy := truthy_of_titleOf htitle
      simp only [Bool.false_eq_true,if_false,conversationTitle_of_some htitle]
      change wp spec (ConversationRepository.touch conv.id (some j) >>= fun _ =>
        ConversationRepository.replacePlaceholderTitle conv.id j) _ _
      refine wp_bind.mpr (wp_stmt (fun _ => ?_) (fun _ _ => ?_) fun e tx _ => hstopped tx)
      · cases hj : j.truthy with
        | true => simpa [Option.filter,hj] using ⟨inp.text,.inl rfl,htruthy ▸ hj,htitle⟩
        | false => simpa [Option.filter,hj] using .inr ⟨inp.text,rfl,htruthy ▸ hj⟩
      · refine wp_stmt (fun _ => ⟨inp.text,rfl,htitle⟩) (fun _ _ => ?_) fun e tx _ => hstopped tx
        refine ⟨⟨hn.typing,rfl⟩,fun _ text ht => ?_⟩
        rw [htyping] at ht
        obtain rfl := Option.some.inj ht
        rfl

/-- A transaction that goes on, with the conversation's title. -/
def Awake (c : ConversationId) (typed : Option Json) (n : TitleNotes) : Prop := Live c typed n ∧ n.tx = .active

theorem quiet_live (c : ConversationId) (typed : Option Json) {p : Proc α} (hp : All (fun o => o.titles = false) p) : Keeps spec (Live c typed) p :=
  Keeps.of_all hp fun _ ho => call_live ho

theorem quiet_rest {p : Proc α} (hp : All (fun o => o.titles = false) p) : Keeps spec (Rest typed) p :=
  Keeps.of_all hp fun _ ho => call_rest ho

/-- A program that catches no failure of the database ends in a transaction that goes on. -/
theorem wp_awake {R : List Role} {p : Proc α} (hp : Straight R p) (hq : All (fun o => o.titles = false) p)
    (hn : Awake c typed n) :
    wp spec p (fun r n' => Live c typed n' ∧ ∀ a, r = .ok a → n'.tx = .active) n := by
  have hrun := hp.propagates.wp (S := spec) (A := Awake c typed) (B := Live c typed) hq
    (fun l l' hl hrely => by obtain rfl : l = l' := hrely; exact hl) ?_ hn
  · refine wp_mono hrun ?_
    rintro r l' (hl | ⟨e,-,rfl,hl⟩)
    · exact ⟨hl.1,fun _ _ => hl.2⟩
    · exact ⟨hl,fun a ha => by cases ha⟩
  · rintro o l ho ⟨hl,htx⟩
    obtain ⟨hpre,hpost⟩ := call_live ho l hl l rfl
    refine ⟨hpre,fun r l' h' => ?_⟩
    have hl' := hpost r l' h'
    have hcarries := h'.2.1
    cases o with
    | stmt s =>
      cases r with
      | ok a => exact .inl ⟨hl',hcarries.2⟩
      | error e => exact .inr ⟨s.isDb_role,e,hcarries.2,rfl,hl'⟩
    | commit => cases ho
    | rollback => cases ho
    | _ => exact .inl ⟨hl',hcarries.trans htx⟩

/-- A program whose first call is a statement fails in a transaction that has stopped. -/
theorem wp_wake {R : List Role} {p : Proc α} {s : Stmt} {k : Except Exn (Op.Ans (.stmt s)) → Proc α}
    (hk : p = .call (.stmt s) k)
    (hp : Straight R p) (hq : All (fun o => o.titles = false) p) (hn : Live c typed n) :
    wp spec p (fun r n' => Live c typed n' ∧ ∀ a, r = .ok a → n'.tx = .active) n := by
  subst hk
  intro n₁ h₁
  obtain rfl : n = n₁ := h₁
  obtain ⟨hpre,hpost⟩ := call_live hq.1 n hn n rfl
  refine ⟨hpre,fun r n₂ h₂ => ?_⟩
  have hlive := hpost r n₂ h₂
  have hcarries := h₂.2.1
  cases r with
  | ok a =>
    have hrest : Straight R (k (.ok a)) := ⟨hp.within.2 _,hp.propagates.2 _⟩
    exact wp_awake hrest (hq.2 _) ⟨hlive,hcarries.2⟩
  | error e =>
    have hfail : k (.error e) = .fail e := hp.propagates.1 s.isDb_role e hcarries.2
    rw [hfail]
    exact ⟨hlive,fun a ha => by cases ha⟩

/-- Only a transaction that goes on admits a turn. -/
theorem wp_admitTurn (conv : Conversation) (agent : RegisteredAgent) (hn : Live c typed n) :
    wp spec (OrchestrationService.admitTurn d conv agent)
      (fun r n' => Live c typed n' ∧ ∀ a, r = .ok a → n'.tx = .active) n := by
  have hlimits := OrchestrationService.checkRateLimits_calls conv.id agent.spec.limits
  have hcalm : ∀ {R : List Role} {β : Type} {p : Proc β}, Straight R p →
      (∀ r ∈ R, r ∉ [Role.record,.lock,.unlock,.commit,.rollback]) → All (fun o => o.titles = false) p := by
    intro R β p hp hR
    refine not_titles_of_calm (.of_within hp.within fun r hr hmem => hR r hr ?_) hp.within ⟨fun h => hR _ h (by decide),
      fun h => hR _ h (by decide)⟩
    exact (by decide : [Role.record,.lock,.unlock] ⊆ [Role.record,.lock,.unlock,.commit,.rollback]) hmem
  refine wp_bind.mpr (wp_mono (quiet_live c typed (hcalm hlimits (by decide)) n hn) ?_)
  rintro (e | u) n₁ h₁
  · exact ⟨h₁,fun a ha => by cases ha⟩
  have hopen : Straight [.query,.abandon,.unpin,.record,.pop,.create] (SessionService.openFor conv.id agent
      (OrchestrationService.closeRemoteChannel d conv.id)) :=
    (SessionService.openFor_calls (OrchestrationService.closeRemoteChannel_calls ..)).mono (by decide)
  have hopenq : All (fun o => o.titles = false) (SessionService.openFor conv.id agent
      (OrchestrationService.closeRemoteChannel d conv.id)) :=
    not_titles_of_calm (SessionService.openFor_calm (OrchestrationService.closeRemoteChannel_calm ..)) hopen.within
      (by decide)
  refine wp_bind.mpr (wp_mono (wp_wake rfl hopen hopenq h₁) ?_)
  rintro (e | session) n₂ ⟨h₂,htx⟩
  · exact ⟨h₂,fun a ha => by cases ha⟩
  have hpin : Straight [.pin] (if agent.spec.routing.pinSession then ConversationRepository.pin conv.id agent.id
      else pure () : Proc Unit) := Straight.branch (Straight.stmt rfl) (Straight.pure _)
  refine wp_bind.mpr (wp_mono (wp_awake hpin (hcalm hpin (by decide)) ⟨h₂,htx session rfl⟩) ?_)
  rintro (e | u) n₃ ⟨h₃,htx₃⟩
  · exact ⟨h₃,fun a ha => by cases ha⟩
  have hrecent := MessageRepository.recent_calls conv.id agent.spec.historyTurns
  refine wp_bind.mpr (wp_mono (wp_awake hrecent (hcalm hrecent (by decide)) ⟨h₃,htx₃ u rfl⟩) ?_)
  rintro (e | rows) n₄ ⟨h₄,htx₄⟩
  · exact ⟨h₄,fun a ha => by cases ha⟩
  · exact ⟨h₄,fun a ha => htx₄ rows rfl⟩

/-- The conversation has its title, and its count is raised. -/
def Raised (c : ConversationId) (typed : Option Json) (n : TitleNotes) : Prop :=
  Live c typed n ∧ (n.tx = .active → n.bumped = some c)

theorem call_raised {o : Op} (h : o.titles = false) : Keeps.Call spec (Raised c typed) o := by
  rintro n ⟨hn,hb⟩ n₁ rfl
  obtain ⟨hpre,hpost⟩ := call_live h n hn n rfl
  refine ⟨hpre,fun r n' h' => ⟨hpost r n' h',fun htx => ?_⟩⟩
  obtain ⟨-,-,hsame⟩ := post_of_not_titles h h'
  obtain ⟨htx',-,hbumped⟩ := hsame htx
  exact hbumped.trans (hb htx')

/-- A touch that puts no title, or the one that the conversation has. -/
theorem touch_raised {title : Option Json} (htitle : ∀ j, title = some j → j.truthy = true →
      ∃ text, typed = some text ∧ titleOf text = some j) :
    Keeps spec (Raised c typed) (ConversationRepository.touch c title) := by
  rintro n ⟨hn,hb⟩
  have hkept : Op.stageAfter n.typing n.stage (.stmt (.touch c (title.filter (·.truthy)))) (.ok ()) = n.stage := by
    have hmid := hn.mid
    cases hst : n.stage with
    | said c' text => simp [hst,Stage.mid] at hmid
    | _ => rfl
  refine wp_stmt (fun htx => ?_) (fun _ htx => ?_) fun e tx htx => ⟨⟨⟨hn.typing,rfl⟩,fun h => absurd h htx⟩,fun h => absurd h htx⟩
  · cases hj : title.filter (·.truthy) with
    | none => exact .inl hn.mid
    | some j =>
      obtain ⟨he,hjt⟩ := Option.filter_eq_some_iff.mp hj
      obtain ⟨text,ht,hof⟩ := htitle j he hjt
      exact ⟨text,.inr (hn.named htx text ht),truthy_of_titleOf hof ▸ hjt,hof⟩
  · exact ⟨⟨⟨hn.typing,(congrArg Stage.mid hkept).trans hn.mid⟩,
      fun _ text ht => hkept.trans (hn.named htx text ht)⟩,fun _ => hb htx⟩

/-- The reply is stored, and a started interview leaves its placeholder. -/
theorem wp_storeReply (inp : TurnInput) (conv : Conversation) (decision : RouteDecision) (agent : RegisteredAgent)
    (turn : AgentTurn) (session : Option AgentSession) (hn : Live conv.id inp.typing n) :
    wp spec (OrchestrationService.storeReply inp conv decision agent turn session)
      (fun _ n' => Rest inp.typing n') n := by
  refine wp_bind.mpr (wp_nextSeq hn.mid (fun seq htx => ?_) fun e n' ht hm => ⟨ht.trans hn.typing,hm⟩)
  have hraised : Raised conv.id inp.typing ⟨n.typing,n.stage,some conv.id,.active⟩ :=
    ⟨⟨⟨hn.typing,hn.mid⟩,fun _ => hn.named htx⟩,fun _ => rfl⟩
  refine wp_bind.mpr (wp_stmt (fun _ hrole => by cases hrole) (fun id _ => ?_) fun e tx _ => ⟨hn.typing,rfl⟩)
  have hbulk : Keeps spec (Raised conv.id inp.typing) (if agent.spec.recordToolExecutions then
      ToolExecutionRepository.bulkInsert id agent.id turn.toolTraces else pure () : Proc Unit) := by
    have hcalls : Straight [.record] (if agent.spec.recordToolExecutions then
        ToolExecutionRepository.bulkInsert id agent.id turn.toolTraces else pure () : Proc Unit) :=
      Straight.branch (ToolExecutionRepository.bulkInsert_calls ..) (Straight.pure _)
    exact Keeps.of_all (not_titles_of_calm (Calm.branch (OrchestrationService.bulkInsert_calm ..) (.pure _))
      hcalls.within (by decide)) fun _ ho => call_raised ho
  refine wp_bind.mpr (wp_mono (hbulk _ hraised) ?_)
  rintro (e | u) n₂ h₂
  · exact h₂.1.toRest
  cases hauto : inp.autostart with
  | true =>
    simp only [if_true]
    refine wp_bind.mpr (wp_mono (touch_raised (fun j hj => by cases hj) n₂ h₂) ?_)
    rintro (e | u) n₃ h₃
    · exact h₃.1.toRest
    have hname : Keeps spec (Raised conv.id inp.typing) (OrchestrationService.agentFallbackTitle agent) :=
      Keeps.of_all (not_titles_of_calm (OrchestrationService.agentFallbackTitle_calm agent)
        (OrchestrationService.agentFallbackTitle_calls agent).within (by decide)) fun _ ho => call_raised ho
    refine wp_bind.mpr (wp_mono (hname n₃ h₃) ?_)
    rintro (e | title) n₄ ⟨h₄,hb₄⟩
    · exact h₄.toRest
    · exact wp_stmt (fun htx => ⟨h₄.mid,hb₄ htx⟩) (fun _ _ => ⟨h₄.typing,h₄.mid⟩) fun e tx _ => ⟨h₄.typing,rfl⟩
  | false =>
    simp only [Bool.false_eq_true,if_false]
    cases htitle : titleOf inp.text with
    | none =>
      obtain ⟨e,he⟩ := conversationTitle_of_none htitle
      rw [he]
      exact h₂.1.toRest
    | some j =>
      rw [conversationTitle_of_some htitle]
      refine wp_mono (touch_raised ?_ n₂ h₂) fun r n₃ h₃ => h₃.1.toRest
      rintro j' ⟨⟩ -
      exact ⟨inp.text,by simp [TurnInput.typing,hauto],htitle⟩

theorem handleTurnLocked_over (inp : TurnInput) (conv : Conversation) (hn : Rest inp.typing n) :
    wp spec (OrchestrationService.handleTurnLocked d inp conv) (fun _ n' => Over inp.typing n') n := by
  refine wp_bind.mpr (wp_mono (wp_recordUserMessage inp conv hn) ?_)
  rintro (e | u) n₁ h₁
  · exact h₁
  have hroute := quiet_live conv.id inp.typing (not_titles_of_calm
    (OrchestrationService.routeTurn_calm (d := d) inp conv) (OrchestrationService.routeTurn_within d inp conv) (by decide))
  refine wp_bind.mpr (wp_mono (hroute n₁ h₁) ?_)
  rintro (e | ⟨decision,agent⟩) n₂ h₂
  · exact h₂.over
  refine wp_bind.mpr (wp_mono (wp_admitTurn conv agent h₂) ?_)
  rintro (e | ⟨session,history⟩) n₃ ⟨h₃,htx⟩
  · exact h₃.over
  -- the commit keeps the stage that the text has reached
  have hactive : n₃.tx = .active := htx _ rfl
  refine wp_bind.mpr (wp_perform.mpr fun n₄ h₄ => ⟨fun _ => ?_,?_⟩)
  · obtain rfl : n₃ = n₄ := h₄
    exact Stage.closed_of_mid h₃.mid
  obtain rfl : n₃ = n₄ := h₄
  rintro r n₅ ⟨-,-,ht₅,hst₅,-⟩
  have hmid₅ : n₅.stage.mid = none := by
    rw [hst₅]
    cases r with
    | error e => rfl
    | ok a => cases n₃.stage <;> rfl
  have hrest₅ : Rest inp.typing n₅ := ⟨ht₅.trans h₃.typing,hmid₅⟩
  cases r with
  | error e => exact hrest₅.over
  | ok u =>
    have h₅ : Live conv.id inp.typing n₅ := ⟨hrest₅,fun _ text ht => by rw [hst₅,h₃.named hactive text ht]; rfl⟩
    have hhandler := quiet_live conv.id inp.typing (not_titles_of_calm
      (OrchestrationService.runHandler_calm (d := d) inp conv agent session history)
      (OrchestrationService.runHandler_calls d inp conv agent session history).within (by decide))
    refine wp_bind.mpr (wp_mono (hhandler n₅ h₅) ?_)
    rintro (e | turn) n₆ h₆
    · exact h₆.over
    have hsettle := quiet_live conv.id inp.typing (not_titles_of_calm
      (OrchestrationService.settleTurn_calm (d := d) inp agent turn session)
      (OrchestrationService.settleTurn_calls d inp agent turn session).within (by decide))
    refine wp_bind.mpr (wp_mono (hsettle n₆ h₆) ?_)
    rintro (e | session') n₇ h₇
    · exact h₇.over
    refine wp_bind.mpr (wp_mono (wp_storeReply inp conv decision agent turn session' h₇) ?_)
    rintro (e | u) n₈ h₈
    · exact h₈.over
    refine wp_bind.mpr (wp_mono (call_over (.inl rfl) h₈.over) ?_)
    rintro (e | u) n₉ h₉
    · exact h₉.over
    · exact h₉.over

/-- The lock is given back. -/
theorem unlock_over (conv : Conversation) : Keeps spec (Over typed) (OrchestrationService.unlockConversation d conv.id) := by
  intro n hn
  exact wp_bind.mpr (wp_attempt.mpr (wp_stmt (fun _ => trivial) (fun _ _ => ⟨hn.typing,hn.closed⟩)
    fun e tx _ => ⟨hn.typing,trivial⟩))

theorem handleTurn_over (inp : TurnInput) (hn : Rest inp.typing n) :
    wp spec (OrchestrationService.handleTurn d inp) (fun _ n' => Over inp.typing n') n := by
  have hget : Keeps spec (Rest inp.typing) (ConversationRepository.getOrCreate inp.conversationId inp.user) :=
    quiet_rest (not_titles_of_calm (.of_within (ConversationRepository.getOrCreate_calls ..).within (by decide))
      (ConversationRepository.getOrCreate_calls ..).within (by decide))
  refine wp_bind.mpr (wp_mono (hget n hn) ?_)
  rintro (e | conv) n₁ h₁
  · exact h₁.over
  refine wp_bind.mpr (wp_mono (Keeps.perform (call_rest rfl) n₁ h₁) ?_)
  rintro (e | locked) n₂ h₂
  · exact h₂.over
  cases locked with
  | false => exact h₂.over
  | true =>
    refine wp_ensuring.mpr (wp_mono (handleTurnLocked_over inp conv h₂) fun r n₃ h₃ => ?_)
    refine wp_mono (unlock_over conv n₃ h₃) ?_
    rintro (e | u) n₄ h₄
    · exact h₄
    · exact h₄

theorem sure : Routes.Sure spec := fun _ _ _ _ ho h => h.1 ho

theorem call_calm {o : Op} (h : o.calm = true) : Keeps.Call spec (Rest typed) o := by
  have hend : o = .commit ∨ o = .rollback → Keeps.Call spec (Rest typed) o := by
    intro ho n hn n₁ h₁
    exact wp_perform.mp (call_over ho hn.over) n₁ h₁
  cases o with
  | stmt s =>
    refine call_rest ?_
    cases s <;> first | rfl | cases h
  | commit => exact hend (.inl rfl)
  | rollback => exact hend (.inr rfl)
  | _ => exact call_rest rfl

/-- A recovered reply is not the user's. -/
theorem storeRecovered_rest (session : AgentSession) (agent : RegisteredAgent) (result : Reconciliation) :
    Keeps spec (Rest typed) (OrchestrationService.storeRecovered session agent result) := by
  intro n hn
  refine wp_bind.mpr (wp_nextSeq hn.mid (fun seq _ => ?_) fun e n' ht hm => ⟨ht.trans hn.typing,hm⟩)
  refine wp_bind.mpr (wp_stmt (fun _ hrole => by cases hrole) (fun id _ => ?_) fun e tx _ => ⟨hn.typing,rfl⟩)
  have happly := (SessionService.apply_calls session { state := .awaitingUser }).within
  have happly' : Keeps spec (Rest typed) (SessionService.apply session { state := .awaitingUser }) :=
    quiet_rest (not_titles_of_calm (.of_within happly (by decide)) happly (by decide))
  have hrest : Rest typed ⟨n.typing,n.stage,some session.conversationId,.active⟩ := ⟨hn.typing,hn.mid⟩
  refine wp_bind.mpr (wp_mono (happly' _ hrest) ?_)
  rintro (e | updated) n₂ h₂
  · exact h₂
  have htouch : wp spec (ConversationRepository.touch session.conversationId none) (fun _ n' => Rest typed n') n₂ := by
    have hkept : Op.stageAfter n₂.typing n₂.stage (.stmt (.touch session.conversationId none)) (.ok ()) = n₂.stage := by
      have hmid := h₂.mid
      cases hst : n₂.stage with
      | said c' text => simp [hst,Stage.mid] at hmid
      | _ => rfl
    refine wp_stmt (fun _ => .inl h₂.mid) (fun _ _ => ?_) fun e tx _ => ⟨h₂.typing,rfl⟩
    exact ⟨h₂.typing,(congrArg Stage.mid hkept).trans h₂.mid⟩
  refine wp_bind.mpr (wp_mono htouch ?_)
  rintro (e | u) n₃ h₃
  · exact h₃
  refine wp_bind.mpr (wp_mono (call_over (.inl rfl) h₃.over) ?_)
  rintro (e | u) n₄ h₄
  · exact h₄
  · exact h₄

theorem chat_over (body : Option ChatBody) (user : UserContext) (hn : Rest (Req.typing (.chat body user)) n) :
    wp spec (Routes.chat d body user) (fun _ n' => Over (Req.typing (.chat body user)) n') n := by
  unfold Routes.chat
  split
  · exact hn.over
  · rename_i body
    split
    · exact hn.over
    · exact hn.over
    · rename_i text hmessage _
      have htyping : (body.turnInput user text).typing = Req.typing (.chat (some body) user) := by
        simp only [TurnInput.typing,ChatBody.turnInput,Req.typing,hmessage]
        rfl
      rw [← htyping] at hn ⊢
      refine wp_catching.mpr (wp_bind.mpr (wp_mono (handleTurn_over _ hn) ?_))
      rintro (e | res) n₁ h₁
      · exact h₁
      · refine wp_bind.mpr (wp_stmt (fun _ => trivial) (fun _ _ => ⟨h₁.typing,h₁.closed⟩) fun e tx _ => ⟨h₁.typing,trivial⟩)

/-- Every request ends with its titles seen to. -/
theorem prog_rest (req : Req) (hn : Rest req.typing n) : wp spec (req.prog d) (fun _ n' => Rest req.typing n') n := by
  by_cases hreq : ∀ body user, req ≠ .chat body user
  · exact Req.keeps_prog_of_ne_chat sure (fun _ ho _ => call_calm ho) storeRecovered_rest req hreq n hn
  · push Not at hreq
    obtain ⟨body,user,rfl⟩ := hreq
    refine Routes.wp_withDb_of (A := Rest (Req.typing (.chat body user))) (B := Rest (Req.typing (.chat body user)))
      (C := fun _ => Over (Req.typing (.chat body user))) sure (fun _ hl => chat_over body user hl) ?_
      (fun _ _ hl => call_over (.inl rfl) hl) (fun _ _ hl => call_over (.inr rfl) hl)
      (fun _ hl => call_over (.inr rfl) hl.over) hn
    rintro o (rfl | rfl)
    · exact call_rest rfl
    · exact call_rest rfl

end ConversationTitles

/-- No empty text is stored in a conversation that has a placeholder for its title. -/
def KeepsPlaceholder (c : Interleaving.Config (World × Titles) Conn Op Op.Ans Exn Response) : Action → Prop
  | .call x _ => ∀ o ∈ c.nextCall x, c.world.2.SparesPlaceholder c.world.1.db x o
  | _ => True

instance (c : Interleaving.Config (World × Titles) Conn Op Op.Ans Exn Response) : (a : Action) →
    Decidable (KeepsPlaceholder c a)
  | .call x _ => inferInstanceAs (Decidable (∀ o ∈ c.nextCall x, c.world.2.SparesPlaceholder c.world.1.db x o))
  | .start .. => isTrue trivial
  | .finish _ => isTrue trivial
  | .env _ => isTrue trivial

namespace ConversationTitles

variable {d : Deployment}

theorem exec_titled {w w' : World × Titles} {x : Conn} {o : Op} {ch : Choice} {r : Except Exn o.Ans}
    (h : (titled d).exec w x o ch = some (r,w')) :
    (system d).exec w.1 x o ch = some (r,w'.1) ∧ w'.2 = w.2.after x w.1 o r := by
  have h' : ((system d).noting fun w x o r (h : Titles) => h.after x w o r).exec w x o ch = some (r,w') := h
  exact exec_noting h'

theorem env_titled {w w' : World × Titles} {e : World.EnvAct} (h : (titled d).env w e = some w') :
    (system d).env w.1 e = some w'.1 ∧ w'.2 = w.2 := by
  have h' : ((system d).noting fun w x o r (h : Titles) => h.after x w o r).env w e = some w' := h
  exact env_noting h'

/-- Each request is verified against what it knows of its titles. -/
def outline (d : Deployment) : Outline (titled d) KeepsPlaceholder TitleNotes where
  loc w x := w.2.notes w.1.db x
  spec _ := spec
  G w := w.2.Fit d.adapt w.1.db
  Free _ n := n.stage.mid = none
  Q _ _ n := n.stage.mid = none
  rely_refl _ _ := rfl
  rely_trans _ _ _ _ h h' := h.trans h'
  free_rely _ _ _ h hr := by
    obtain rfl := hr
    exact h
  free_end _ _ _ h := h
  begin_ok c x req hG hfree _ := by
    refine ⟨hG.start hfree,?_,fun y hy => ?_⟩
    · refine wp_mono (prog_rest req ⟨?_,?_⟩) fun _ _ h => h.mid
      · exact Function.update_self ..
      · change (Function.update c.world.2.stage x .idle x).mid = none
        rw [Function.update_self]
        rfl
    · simp only [spec,titled,Titles.notes,Titles.start,Function.update_of_ne hy]
      rfl
  exec_ok := by
    intro c x o k ch r w hG hx hok hpre he
    obtain ⟨he,hw⟩ := exec_titled he
    have hdb := World.dbMove_of_exec he
    have hspare : c.world.2.SparesPlaceholder c.world.1.db x o := hok o (Config.nextCall_eq hx)
    refine ⟨?_,⟨fun hsure => ?_,hdb.carries,?_,?_,?_⟩,fun y hy => ?_⟩
    · rw [hw]
      exact hG.call hpre hspare hdb
    · obtain ⟨done,w₁,hp,-⟩ := World.performed_of_exec he
      exact hp.sure hsure
    · rw [hw]
      rfl
    · rw [hw]
      exact Titles.after_stage_self (w := c.world.1)
    · rw [hw]
      exact Titles.after_bumped_self (w := c.world.1)
    · obtain ⟨hstage,hbumped⟩ := Titles.after_of_ne (h := c.world.2) (w := c.world.1) (o := o) (r := r) hy
      have htx := hdb.tx_of_ne hy
      simp only [spec,Titles.notes]
      rw [hw,hstage,hbumped,htx]
      rfl
  env_ok := by
    intro c e w hG _ he
    obtain ⟨he,hw⟩ := env_titled he
    have hf := World.envFrame he
    rw [hw,hf.db]
    exact ⟨hG,fun y => rfl⟩

end ConversationTitles

namespace Sample

/-- A turn that the interface starts. -/
def autostart (c : UuidField) : Req :=
  .chat (some { message := some (.str "start"), agentKey := .str "assistant", conversationId := c,
                autostart := .bool true }) caller

/-- A request that is served to its end, alone. -/
def served (req : Req) : List (Cue (World × Titles) Conn Req Choice World.EnvAct Op) :=
  [.act (.start 0 req),.serve 0 (fun w o => smooth w.1 o) 60,.act (.finish 0)]

end Sample

/-- In every run in which no empty text is stored under a placeholder, the title of every committed
conversation is the truncated first text that is not empty, or else the first placeholder that a started
interview left, and the first words stay. -/
theorem titles_of_first_words {d : Deployment} {w : World}
    {c c' : Interleaving.Config (World × Titles) Conn Op Op.Ans Exn Response}
    (hconv : w.db.conversations.Settled Conversation.constraints Conversation.Keyed)
    (hnew : ∀ k v, w.db.conversations.committed k = some v → v.title = none ∧ v.titleIsPlaceholder = false)
    (h : Reach (step (titled d)) KeepsPlaceholder (idle (w,{})) c)
    (h' : Reach (step (titled d)) KeepsPlaceholder c c') (k : ConversationId) {v : Conversation}
    (hv : c.world.1.db.conversations.committed k = some v) :
    v.title = (firstWords d.adapt (c.world.2.committed k)).or (firstPlaceholder (c.world.2.committed k)) ∧
      ((firstWords d.adapt (c.world.2.committed k)).isSome = true →
        ∀ v', c'.world.1.db.conversations.committed k = some v' → v'.title = v.title) := by
  let O := ConversationTitles.outline d
  have hinv : O.Inv c := O.inv_of_reach h (Titles.fit_start hconv hnew) fun _ => rfl
  -- what was said by then is still the beginning of what was said
  have hlater : O.Inv c' ∧ c.world.2.committed k <+: c'.world.2.committed k := by
    let P (c' : Interleaving.Config (World × Titles) Conn Op Op.Ans Exn Response) : Prop :=
      O.Inv c' ∧ c.world.2.committed k <+: c'.world.2.committed k
    have hP : P c := ⟨hinv,List.prefix_rfl⟩
    refine h'.invariant hP ?_
    rintro c₁ a c₂ ⟨hinv₁,hpre⟩ hok hs
    have hstep := stepped_of_step hs
    refine ⟨O.inv_step hinv₁ hok hstep,?_⟩
    cases hstep with
    | start hx => exact hpre
    | call hx hcall =>
      have hf : c₁.world.2.Fit d.adapt c₁.world.1.db := hinv₁.1
      obtain ⟨-,hnotes⟩ := ConversationTitles.exec_titled hcall
      rw [hnotes]
      exact hpre.trans (hf.committed_begins k)
    | finish hx hp => exact hpre
    | env he =>
      obtain ⟨-,hnotes⟩ := ConversationTitles.env_titled he
      rw [hnotes]
      exact hpre
  obtain ⟨⟨hf',-⟩,hbegins⟩ := hlater
  have hnamed := (show c.world.2.Fit d.adapt c.world.1.db from hinv.1).settled k v hv
  refine ⟨hnamed.title,fun hsome v' hv' => ?_⟩
  have hnamed' := (show c'.world.2.Fit d.adapt c'.world.1.db from hf').settled k v' hv'
  obtain ⟨t,ht⟩ := Option.isSome_iff_exists.mp hsome
  rw [hnamed'.title,hnamed.title,firstWords_of_begins hbegins hsome,ht]
  rfl

/-- The first words take a placeholder's place, and the next ones do not. -/
theorem titles_of_first_words_hello : ∃ c c' : Interleaving.Config (World × Titles) Conn Op Op.Ans Exn Response,
    (∃ v, c.world.1.db.conversations.committed 0 = some v ∧ v.title = some "hello") ∧
      c.world.2.committed 0 ≠ c'.world.2.committed 0 ∧
      ∀ v, c.world.1.db.conversations.committed 0 = some v →
        v.title = (firstWords Sample.deployment.adapt (c.world.2.committed 0)).or (firstPlaceholder (c.world.2.committed 0)) ∧
          ((firstWords Sample.deployment.adapt (c.world.2.committed 0)).isSome = true →
            ∀ v', c'.world.1.db.conversations.committed 0 = some v' → v'.title = v.title) := by
  have hrun : ((play (titled Sample.deployment) KeepsPlaceholder
      (Sample.served (Sample.autostart .absent) ++ Sample.served (Sample.turn "hello" "assistant" (.id 0)))
      (idle (Sample.world,{}))).any fun c =>
        (c.world.1.db.conversations.committed 0).any (fun v => decide (v.title = some "hello")) &&
        (play (titled Sample.deployment) KeepsPlaceholder (Sample.served (Sample.turn "more" "assistant" (.id 0))) c).any
          fun c' => decide ((c.world.2.committed 0).length ≠ (c'.world.2.committed 0).length)) = true := by
    decide +kernel
  obtain ⟨c,hr,hP⟩ := exists_reach_of_play hrun
  obtain ⟨hhello,hplay⟩ := Bool.and_eq_true_iff.mp hP
  obtain ⟨c',hr',hlength⟩ := exists_reach_of_play hplay
  refine ⟨c,c',by simpa [Option.any_eq_true] using hhello,fun he => ?_,fun v hv => ?_⟩
  · simp [he] at hlength
  · exact titles_of_first_words Table.settled_empty (fun k v hv => by cases hv) hr hr' 0 hv

/-- An empty text takes the placeholder's place as well, and then the first words never do. -/
theorem titles_of_first_words_empty : ∃ c : Interleaving.Config (World × Titles) Conn Op Op.Ans Exn Response,
    Reach (step (titled Sample.deployment)) anyAct (idle (Sample.world,{})) c ∧
      ∃ v, c.world.1.db.conversations.committed 0 = some v ∧ v.title = some "" ∧
        firstWords Sample.deployment.adapt (c.world.2.committed 0) = some "hello" ∧
        firstPlaceholder (c.world.2.committed 0) = some "Saarthi — 01 Jan" := by
  have hrun : ((play (titled Sample.deployment) anyAct
      (Sample.served (Sample.autostart .absent) ++ Sample.served (Sample.turn "" "assistant" (.id 0)) ++
        Sample.served (Sample.turn "hello" "assistant" (.id 0))) (idle (Sample.world,{}))).any fun c =>
        (c.world.1.db.conversations.committed 0).any (fun v => decide (v.title = some "" ∧
          firstWords Sample.deployment.adapt (c.world.2.committed 0) = some "hello" ∧
          firstPlaceholder (c.world.2.committed 0) = some "Saarthi — 01 Jan"))) = true := by
    decide +kernel
  obtain ⟨c,hr,hP⟩ := exists_reach_of_play hrun
  exact ⟨c,hr,by simpa [Option.any_eq_true] using hP⟩

end Saarathi
