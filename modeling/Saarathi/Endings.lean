import Saarathi.Footprints

/-!
# How the ways to a reply end

The handler hears Mitra's reply, a turn that timed out recovers it, or a client
resumes it. Each way decides for itself whether the session is finalised.
-/

namespace Saarathi

open Program Program.Prog OrchestrationService

/-- The calls of one request, each with its answer. -/
abbrev CallTrace := Trace Op Op.Ans Exn

namespace CallTrace

variable {es es' : CallTrace} {id : SessionId} {b : Bool}

/-- `_finalize` is run for the session: the claim is its first call. -/
def Finalises (id : SessionId) (es : CallTrace) : Prop := ∃ r, ⟨.stmt (.claimFinalizing id),r⟩ ∈ es

/-- Mitra was asked whether the interview is completed, and answered `b`. -/
def Polled (b : Bool) (es : CallTrace) : Prop := ∃ sid, ⟨.isSessionCompleted sid,.ok b⟩ ∈ es

/-- An update of the session found its row. -/
def Applied (id : SessionId) (es : CallTrace) : Prop :=
  ∃ expected new fields row, ⟨.stmt (.updateStateAndFields id expected new fields),.ok [row]⟩ ∈ es

@[simp] theorem finalises_append : Finalises id (es ++ es') ↔ Finalises id es ∨ Finalises id es' := by
  simp [Finalises,exists_or]

@[simp] theorem polled_append : Polled b (es ++ es') ↔ Polled b es ∨ Polled b es' := by
  simp [Polled,exists_or]

@[simp] theorem applied_append : Applied id (es ++ es') ↔ Applied id es ∨ Applied id es' := by
  simp [Applied,exists_or]

@[simp] theorem not_finalises_nil : ¬ Finalises id [] := by simp [Finalises]

@[simp] theorem not_polled_nil : ¬ Polled b [] := by simp [Polled]

@[simp] theorem not_applied_nil : ¬ Applied id [] := by simp [Applied]

/-- What the world guarantees of the answers: a poll answers with the interview's status, an update with the
session's own row, and the calls that cannot raise do not. -/
structure Honest (completed : Bool) (es : CallTrace) : Prop where
  polls : ∀ sid b, ⟨.isSessionCompleted sid,.ok b⟩ ∈ es → b = completed
  rows : ∀ id expected new fields (rows : List AgentSession) (row : AgentSession),
    ⟨.stmt (.updateStateAndFields id expected new fields),.ok rows⟩ ∈ es → row ∈ rows → row.id = id
  sure : ∀ o e, o.sure = true → ⟨o,.error e⟩ ∉ es

theorem Honest.mono {completed : Bool} (h : Honest completed es) (hes : es' ⊆ es) : Honest completed es' :=
  ⟨fun sid b hb => h.polls sid b (hes hb),fun id x n f l r hl => h.rows id x n f l r (hes hl),
    fun o e ho he => h.sure o e ho (hes he)⟩

/-- The call asks Mitra nothing about the interview's status. -/
def Unasked (o : Op) : Prop := ∀ sid, o ≠ .isSessionCompleted sid

theorem not_polled {α : Type} {p : Proc α} {out : Except Exn α} (h : Runs p es out) (hp : All Unasked p) :
    ¬ Polled b es := by
  rintro ⟨sid,he⟩
  exact h.all hp _ he sid rfl

theorem unasked_of_role {o : Op} (h : o.role ≠ .read) : Unasked o := by
  rintro sid rfl
  exact h rfl

theorem unasked_of_within {α : Type} {rs : List Role} {p : Proc α} (hp : Within rs p)
    (hrs : Role.read ∉ rs) : All Unasked p :=
  All.mono hp fun _ ho => unasked_of_role fun h => hrs (h ▸ ho)

theorem not_finalises {α : Type} {rs : List Role} {p : Proc α} {out : Except Exn α} (h : Runs p es out)
    (hp : Within rs p) (hrs : Role.claim ∉ rs) : ¬ Finalises id es := by
  rintro ⟨r,he⟩
  exact hrs (h.all hp _ he)

theorem not_applied {α : Type} {rs : List Role} {p : Proc α} {out : Except Exn α} (h : Runs p es out)
    (hp : Within rs p) (hrs : Role.apply ∉ rs ∧ Role.forced ∉ rs) : ¬ Applied id es := by
  rintro ⟨expected,new,fields,row,he⟩
  rcases Stmt.role_updateStateAndFields id expected new fields with hr | hr
  · exact hrs.1 (hr ▸ h.all hp _ he)
  · exact hrs.2 (hr ▸ h.all hp _ he)

end CallTrace

open CallTrace

namespace Endings

variable {d : Deployment} {inp : TurnInput} {conv : Conversation} {agent : RegisteredAgent}
  {session : AgentSession} {remote : RemoteSpec} {completed : Bool} {es : CallTrace}

/-- A handler's run: it polls only where the agent says so, and what it returns ends the interview exactly
when Mitra said that it is completed. -/
structure Concluded (remote : RemoteSpec) (es : CallTrace) (out : Except Exn AgentTurn) : Prop where
  asks : ∀ b, Polled b es → remote.completionPollEveryTurn = true
  ends : ∀ turn, out = .ok turn → (turn.terminal = true ↔ Polled true es) ∧ turn.sessionDelta.isSome = true
  fails : ∀ e, out = .error e → ¬ Polled true es

theorem Concluded.error {e : Exn} (h : ∀ b, ¬ Polled b es) : Concluded remote es (.error e) :=
  ⟨fun b hb => absurd hb (h b),by simp,fun _ _ => h true⟩

theorem Concluded.of_iff {es' : CallTrace} {out : Except Exn AgentTurn} (h : Concluded remote es' out)
    (hes : ∀ b, Polled b es ↔ Polled b es') : Concluded remote es out :=
  ⟨fun b hb => h.asks b ((hes b).mp hb),
    fun turn ht => ⟨(h.ends turn ht).1.trans (hes true).symm,(h.ends turn ht).2⟩,
    fun e he hb => h.fails e he ((hes true).mp hb)⟩

theorem polled_of_poll {sid : Option String} {flag : Bool} {out : Except Exn Bool}
    (h : Runs (if flag then perform (Op.isSessionCompleted sid) else pure false : Proc Bool) es out) :
    (∀ b, Polled b es ↔ flag = true ∧ out = .ok b) ∧ (out = .ok true → flag = true) := by
  cases flag with
  | false =>
    obtain ⟨rfl,rfl⟩ := Runs.of_pure h
    exact ⟨by simp,by simp⟩
  | true =>
    obtain rfl := Runs.of_perform h
    refine ⟨fun b => ⟨?_,?_⟩,fun _ => rfl⟩
    · rintro ⟨sid',he⟩
      cases List.mem_singleton.mp he
      exact ⟨rfl,rfl⟩
    · rintro ⟨-,rfl⟩
      exact ⟨sid,List.mem_singleton.mpr rfl⟩

theorem remoteSession_unasked (user : UserContext) (view : AgentSessionView) :
    All Unasked (RemoteFlowAgentHandler.remoteSession remote user view) := by
  have henv : ∀ name, All Unasked (RemoteFlowAgentHandler.resolveEnv name) := by
    intro name
    refine ⟨fun sid => by simp,?_⟩
    rintro (e | - | value)
    · trivial
    · trivial
    · change All Unasked (if value = "" then _ else _)
      split <;> trivial
  refine All.bind (henv _) fun botRoute => ?_
  split
  · refine All.bind (henv _) fun company => ?_
    exact All.bind ((all_perform _).mpr fun sid => by simp) fun profileId =>
      All.bind ((all_perform _).mpr fun sid => by simp) fun remoteSid => trivial
  · trivial

theorem handle_concluded {key : String} {user : UserContext} {view : AgentSessionView} {text : Json}
    {out : Except Exn AgentTurn}
    (h : Runs (RemoteFlowAgentHandler.handle key remote user (some view) text) es out) :
    Concluded remote es out := by
  rcases Runs.of_bind h with ⟨e,hsess,rfl⟩ | ⟨sess,es₁,es₂,hsess,h₂,rfl⟩
  · exact .error fun b => not_polled hsess (remoteSession_unasked user view)
  have h₁ : ∀ b, ¬ Polled b es₁ := fun b => not_polled hsess (remoteSession_unasked user view)
  have hconverse : ∀ c auth t g, All Unasked (RemoteFlowAgentHandler.converse c auth text t g) :=
    fun c auth t g => unasked_of_within (RemoteFlowAgentHandler.converse_calls c auth text t g).within (by decide)
  rcases Runs.of_bind h₂ with ⟨e,hbot,rfl⟩ | ⟨bot,es₃,es₄,hbot,h₄,rfl⟩
  · have h₃ : ∀ b, ¬ Polled b es₂ := fun b => not_polled hbot (hconverse _ _ _ _)
    exact .error fun b => by simp [h₁,h₃]
  have h₃ : ∀ b, ¬ Polled b es₃ := fun b => not_polled hbot (hconverse _ _ _ _)
  rcases Runs.of_bind h₄ with ⟨e,hpoll,rfl⟩ | ⟨finished,es₅,es₆,hpoll,h₆,rfl⟩
  · obtain ⟨hb,-⟩ := polled_of_poll hpoll
    exact .error fun b => by simp [h₁,h₃,hb]
  · obtain ⟨hb,hflag⟩ := polled_of_poll hpoll
    obtain ⟨rfl,rfl⟩ := Runs.of_pure h₆
    refine ⟨fun b hpolled => ?_,?_,by simp⟩
    · simp only [polled_append,h₁,h₃,hb,not_polled_nil,false_or,or_false] at hpolled
      exact hpolled.1
    · rintro turn ⟨⟩
      refine ⟨?_,rfl⟩
      simp only [polled_append,h₁,h₃,hb,not_polled_nil,false_or,or_false]
      change finished = true ↔ _
      constructor
      · rintro rfl
        exact ⟨hflag rfl,rfl⟩
      · rintro ⟨-,hfinished⟩
        exact Except.ok.inj hfinished

theorem reconcileTurn_unasked (text : Json) : All Unasked (reconcileTurn d agent (some session) text) := by
  unfold reconcileTurn
  split
  · split
    · split
      · trivial
      · refine All.bind ((all_perform _).mpr fun sid => by simp) fun rows => ?_
        refine All.bind ?_ fun _ => trivial
        exact unasked_of_within (@RouterService.textOr_calls [] _).within (by decide)
    · trivial
  · trivial

/-- The poll of a recovery: one that raises ends nothing. -/
theorem polled_of_quiet_poll {sid : Option String} {k : Except Exn Bool → Proc Bool} {out : Except Exn Bool}
    (hok : ∀ b, k (.ok b) = pure b) (herror : ∀ e, k (.error e) = pure false)
    (h : Runs ((perform (Op.isSessionCompleted sid) : Proc Bool).attempt >>= k) es out) :
    ∃ finished, out = .ok finished ∧ (finished = true ↔ Polled true es) := by
  rcases Runs.of_bind h with ⟨e,hpoll,-⟩ | ⟨(r : Except Exn Bool),es₁,es₂,hpoll,h₂,rfl⟩
  · obtain ⟨r,-,hr⟩ := Runs.of_attempt hpoll
    cases hr
  obtain ⟨r',hrun,hr⟩ := Runs.of_attempt hpoll
  obtain rfl := Except.ok.inj hr
  have hpolls : Polled true es₁ ↔ r = .ok true := by
    have hasked := (@polled_of_poll _ sid true _ hrun).1 true
    exact hasked.trans ⟨And.right,fun hr => ⟨rfl,hr⟩⟩
  rcases r with e | b
  · rw [herror] at h₂
    obtain ⟨rfl,rfl⟩ := Runs.of_pure h₂
    exact ⟨false,rfl,by simp [hpolls]⟩
  · rw [hok] at h₂
    obtain ⟨rfl,rfl⟩ := Runs.of_pure h₂
    exact ⟨b,rfl,by simp [hpolls]⟩

theorem recover_concluded {text : Json} {out : Except Exn (Option AgentTurn)}
    (hremote : agent.spec.remote = some remote)
    (h : Runs (recoverTimedOutTurn d agent (some session) text) es out) :
    (∃ turn, out = .ok (some turn) ∧ Concluded remote es (.ok turn)) ∨
      out = .ok none ∧ ∀ b, ¬ Polled b es := by
  rcases Runs.of_bind h with ⟨e,hrec,-⟩ | ⟨r,es₁,es₂,hrec,h₂,rfl⟩
  · obtain ⟨r,-,hr⟩ := Runs.of_attempt hrec
    cases hr
  have h₁ : ∀ b, ¬ Polled b es₁ := fun b => not_polled hrec (All.attempt (reconcileTurn_unasked text))
  have hnone : Runs (pure none : Proc (Option AgentTurn)) es₂ out →
      out = .ok none ∧ ∀ b, ¬ Polled b (es₁ ++ es₂) := by
    intro hpure
    obtain ⟨rfl,rfl⟩ := Runs.of_pure hpure
    exact ⟨rfl,fun b => by simp [h₁]⟩
  rcases r with e | - | result
  · exact .inr (hnone h₂)
  · exact .inr (hnone h₂)
  dsimp only at h₂
  rw [hremote] at h₂
  cases ho : result.outcome with
  | pending =>
    rw [ho] at h₂
    exact .inr (hnone h₂)
  | notDelivered =>
    rw [ho] at h₂
    exact .inr (hnone h₂)
  | answered =>
    rw [ho] at h₂
    dsimp only at h₂
    cases hflag : remote.completionPollEveryTurn with
    | false =>
      rw [hflag] at h₂
      obtain ⟨rfl,rfl⟩ := Runs.of_pure h₂
      refine .inl ⟨_,rfl,fun b hb => by simp [h₁] at hb,?_,by simp⟩
      rintro turn ⟨⟩
      exact ⟨by simp [h₁,recoveredTurn],rfl⟩
    | true =>
      rw [hflag] at h₂
      rcases Runs.of_bind h₂ with ⟨e,hpoll,-⟩ | ⟨finished,es₃,es₄,hpoll,h₄,rfl⟩
      · obtain ⟨finished,hr,-⟩ := polled_of_quiet_poll (fun _ => rfl) (fun _ => rfl) hpoll
        cases hr
      · obtain ⟨finished',hr,htrue⟩ := polled_of_quiet_poll (fun _ => rfl) (fun _ => rfl) hpoll
        obtain rfl := Except.ok.inj hr
        obtain ⟨rfl,rfl⟩ := Runs.of_pure h₄
        refine .inl ⟨_,rfl,fun _ _ => hflag,?_,by simp⟩
        rintro turn ⟨⟩
        exact ⟨by simpa [h₁,recoveredTurn] using htrue,rfl⟩

/-- The marks around a handler's run poll nothing and cannot raise. -/
theorem marked_polled {α : Type} {c : ConversationId} {run : HandlerRun} {p : Proc α} {out : Except Exn α}
    (hes : Honest completed es) (h : Runs (marked c run p) es out) :
    ∃ es', Runs p es' out ∧ ∀ b, Polled b es ↔ Polled b es' := by
  have hmark : ∀ {o : Op} {r : Except Exn o.Ans} {b}, Unasked o → ¬ Polled b [⟨o,r⟩] := by
    rintro o r b ho ⟨sid,he⟩
    exact ho sid (congrArg Sigma.fst (List.mem_singleton.mp he)).symm
  rcases Runs.of_bind h with ⟨e,hbegin,-⟩ | ⟨u,es₁,es₂,hbegin,h₂,rfl⟩
  · obtain rfl := Runs.of_perform hbegin
    exact absurd (List.mem_singleton.mpr rfl) (hes.sure _ e rfl)
  obtain rfl := Runs.of_perform hbegin
  obtain ⟨r,r',es₃,es₄,hp,hfin,rfl,hout⟩ := Runs.of_ensuring h₂
  rcases Runs.of_bind hfin with ⟨e,hend,-⟩ | ⟨u',es₅,es₆,hend,h₆,rfl⟩
  · obtain rfl := Runs.of_perform hend
    exact absurd (List.mem_append_right _ (List.mem_append_right _ (List.mem_singleton.mpr rfl)))
      (hes.sure _ e rfl)
  obtain rfl := Runs.of_perform hend
  obtain ⟨rfl,rfl⟩ := Runs.of_pure h₆
  obtain rfl := hout _ rfl
  refine ⟨es₃,hp,fun b => ?_⟩
  simp only [polled_append,not_polled_nil,or_false]
  simp [hmark (o := .handleBegin c run) (fun sid => by simp),hmark (o := .handleEnd c) fun sid => by simp]

theorem runHandler_concluded {history : List Message} {out : Except Exn AgentTurn} (hremote : agent.spec.remote = some remote)
    (hes : Honest completed es) (h : Runs (runHandler d inp conv agent (some session) history) es out) :
    Concluded remote es out := by
  have hkind : agent.spec.kind = .remoteFlow remote := by
    unfold AgentSpec.remote at hremote
    split at hremote
    · cases hremote
    · rename_i r hr
      rw [hr,Option.some.inj hremote]
  have hhandle : ∀ {es : CallTrace} {out : Except Exn AgentTurn},
      Runs (handle d conv.id agent inp.user (some session.toSessionView) inp.text) es out →
      Concluded remote es out := by
    intro es out h
    unfold handle at h
    rw [hkind] at h
    dsimp only at h
    split at h
    · exact handle_concluded h
    · obtain ⟨rfl,rfl⟩ := Runs.of_throw h
      exact .error fun b => by simp
  rcases Runs.of_bind h with ⟨e,hm,-⟩ | ⟨r,es₁,es₂,hm,h₂,rfl⟩
  · obtain ⟨r,-,hr⟩ := Runs.of_attempt hm
    cases hr
  obtain ⟨r',hrun,hr⟩ := Runs.of_attempt hm
  obtain rfl := Except.ok.inj hr
  obtain ⟨es',hp,hpolled⟩ := marked_polled (hes.mono (List.subset_append_left es₁ es₂)) hrun
  have hconcluded : Concluded remote es₁ r := (hhandle hp).of_iff hpolled
  split at h₂
  · rename_i turn
    obtain ⟨rfl,rfl⟩ := Runs.of_pure h₂
    rw [List.append_nil]
    exact hconcluded
  · rename_i lastStep
    have hfirst : ¬ Polled true es₁ := hconcluded.fails _ rfl
    rcases Runs.of_bind h₂ with ⟨e,hrec,-⟩ | ⟨turn,es₃,es₄,hrec,h₄,rfl⟩
    · rcases recover_concluded hremote hrec with ⟨turn,hr,-⟩ | ⟨hr,-⟩ <;> cases hr
    rcases recover_concluded hremote hrec with ⟨turn',hr,hrecovered⟩ | ⟨hr,hquiet⟩
    · obtain rfl := Except.ok.inj hr
      obtain ⟨rfl,rfl⟩ := Runs.of_pure h₄
      refine ⟨fun b hb => ?_,fun turn ht => ?_,by simp⟩
      · simp only [polled_append,not_polled_nil,or_false] at hb
        exact hb.elim (hconcluded.asks b) (hrecovered.asks b)
      · obtain ⟨hterminal,hdelta⟩ := hrecovered.ends turn ht
        exact ⟨by simp [hterminal,hfirst],hdelta⟩
    · obtain rfl := Except.ok.inj hr
      obtain ⟨rfl,rfl⟩ := Runs.of_throw h₄
      refine hconcluded.of_iff fun b => ?_
      simp [hquiet]
  · rename_i e he
    obtain ⟨rfl,rfl⟩ := Runs.of_throw h₂
    rw [List.append_nil]
    exact hconcluded

/-- A statement of which at most one row comes back. -/
theorem runs_one {α : Type} {s : Stmt} {f : s.Ans → List α} {out : Except Exn (Option α)}
    (h : Runs (do scalarOneOrNone (f (← stmt s))) es out) : ∃ r, es = [⟨.stmt s,r⟩] ∧
      (∀ row, out = .ok (some row) ↔ ∃ a, r = .ok a ∧ f a = [row]) ∧ (out = .ok none ↔ ∃ a, r = .ok a ∧ f a = []) := by
  rcases Runs.of_bind h with ⟨e,hstmt,rfl⟩ | ⟨a,es₁,es₂,hstmt,h₂,rfl⟩
  · obtain rfl := Runs.of_perform hstmt
    exact ⟨.error e,rfl,by simp,by simp⟩
  · obtain rfl := Runs.of_perform hstmt
    have hrows : es₂ = [] ∧ (∀ row, out = .ok (some row) ↔ f a = [row]) ∧ (out = .ok none ↔ f a = []) := by
      unfold scalarOneOrNone at h₂
      split at h₂
      · rename_i hrows
        obtain ⟨rfl,rfl⟩ := Runs.of_pure h₂
        simp [hrows]
      · rename_i b hrows
        obtain ⟨rfl,rfl⟩ := Runs.of_pure h₂
        simp [hrows]
      · rename_i hnil hone
        obtain ⟨rfl,rfl⟩ := Runs.of_throw h₂
        exact ⟨rfl,fun row => ⟨by simp,fun h => absurd h (hone row)⟩,by simp,fun h => absurd h hnil⟩
    have hanswer : ∀ rows, (∃ b, (Except.ok a : Except Exn s.Ans) = .ok b ∧ f b = rows) ↔ f a = rows := by
      intro rows
      constructor
      · rintro ⟨b,hb,h⟩
        rwa [Except.ok.inj hb]
      · exact fun h => ⟨a,rfl,h⟩
    obtain ⟨rfl,hsome,hnone⟩ := hrows
    exact ⟨.ok a,rfl,fun row => (hsome row).trans (hanswer _).symm,hnone.trans (hanswer _).symm⟩

/-- A session change is refused, or asks the database for one update and returns the row that it found. -/
theorem runs_apply {delta : SessionDelta} {out : Except Exn AgentSession}
    (h : Runs (SessionService.apply session delta) es out) : (es = [] ∧ ∃ e, out = .error e) ∨
      ∃ r : Except Exn (List AgentSession), es =
        [⟨.stmt (.updateStateAndFields session.id [session.state] delta.state delta.fields),r⟩] ∧
        ∀ row, out = .ok row ↔ r = .ok [row] := by
  unfold SessionService.apply SessionService.checkTransition at h
  split at h
  · rcases Runs.of_bind h with ⟨e,hp,-⟩ | ⟨u,es₁,es₂,hp,h₂,rfl⟩
    · obtain ⟨-,hr⟩ := Runs.of_pure hp
      cases hr
    obtain ⟨rfl,-⟩ := Runs.of_pure hp
    have hfound : ∀ {r : Except Exn (List AgentSession)} {row : AgentSession},
        (∃ a, r = .ok a ∧ a = [row]) ↔ r = .ok [row] := by
      intro r row
      constructor
      · rintro ⟨a,rfl,rfl⟩
        rfl
      · exact fun hr => ⟨[row],hr,rfl⟩
    rcases Runs.of_bind h₂ with ⟨e,hrow,rfl⟩ | ⟨row,es₃,es₄,hrow,h₄,rfl⟩
    · obtain ⟨r,rfl,hsome,-⟩ := runs_one hrow
      refine .inr ⟨r,rfl,fun row => iff_of_false (by simp) fun hr => ?_⟩
      cases (hsome row).mpr (hfound.mpr hr)
    · obtain ⟨r,rfl,hsome,-⟩ := runs_one hrow
      refine .inr ⟨r,?_,fun row' => ?_⟩
      · cases row with
        | none =>
          obtain ⟨rfl,-⟩ := Runs.of_throw h₄
          rfl
        | some row =>
          obtain ⟨rfl,-⟩ := Runs.of_pure h₄
          rfl
      · refine Iff.trans ?_ ((hsome row').trans hfound)
        cases row with
        | none =>
          obtain ⟨-,rfl⟩ := Runs.of_throw h₄
          simp
        | some row =>
          obtain ⟨-,rfl⟩ := Runs.of_pure h₄
          simp
  · rcases Runs.of_bind h with ⟨e,hthrow,rfl⟩ | ⟨u,es₁,es₂,hthrow,h₂,rfl⟩
    · obtain ⟨rfl,-⟩ := Runs.of_throw hthrow
      exact .inl ⟨rfl,e,rfl⟩
    · obtain ⟨-,hr⟩ := Runs.of_throw hthrow
      cases hr

/-- The session change of a turn returns where its update finds the session's row. -/
theorem apply_applied {delta : SessionDelta} {out : Except Exn AgentSession} (hes : Honest completed es)
    (h : Runs (SessionService.apply session delta) es out) :
    (∀ row, out = .ok row → row.id = session.id ∧ CallTrace.Applied session.id es) ∧
      ∀ e, out = .error e → ¬ CallTrace.Applied session.id es := by
  rcases runs_apply h with ⟨rfl,e,rfl⟩ | ⟨r,rfl,hout⟩
  · exact ⟨by simp,fun _ _ => by simp⟩
  constructor
  · intro row hrow
    obtain rfl := (hout row).mp hrow
    exact ⟨hes.rows _ _ _ _ _ _ (List.mem_singleton.mpr rfl) (List.mem_singleton.mpr rfl),
      _,_,_,row,List.mem_singleton.mpr rfl⟩
  · rintro e rfl ⟨expected,new,fields,row,he⟩
    cases List.mem_singleton.mp he
    cases (hout row).mpr rfl

theorem finalize_finalises {agent : Option RegisteredAgent} {user : UserContext}
    {out : Except Exn AgentSession} (h : Runs (finalize d session agent user) es out) :
    Finalises session.id es := by
  have hclaim : ∀ {es : CallTrace} {out : Except Exn (Option AgentSession)},
      Runs (SessionService.claimFinalizing session.id) es out → Finalises session.id es := by
    intro es out hrun
    obtain ⟨r,rfl,-⟩ := runs_one hrun
    exact ⟨r,List.mem_singleton.mpr rfl⟩
  rcases Runs.of_bind h with ⟨e,hc,-⟩ | ⟨row,es₁,es₂,hc,-,rfl⟩
  · exact hclaim hc
  · exact finalises_append.mpr (.inl (hclaim hc))

/-- Step 11 finalises the session of a terminal turn whose update found the row. -/
theorem settleTurn_finalises {turn : AgentTurn} {out : Except Exn (Option AgentSession)}
    (hes : Honest completed es) (hdelta : turn.sessionDelta.isSome = true)
    (h : Runs (settleTurn d inp agent turn (some session)) es out) :
    Finalises session.id es ↔ turn.terminal = true ∧ CallTrace.Applied session.id es := by
  obtain ⟨delta,hdelta⟩ := Option.isSome_iff_exists.mp hdelta
  unfold settleTurn at h
  rw [hdelta] at h
  have happly : ∀ {es : CallTrace} {out : Except Exn AgentSession},
      Runs (SessionService.apply session delta) es out → ¬ Finalises session.id es := fun hrun =>
    not_finalises hrun (SessionService.apply_calls session delta).within (by decide)
  rcases Runs.of_bind h with ⟨e,hp,rfl⟩ | ⟨row,es₁,es₂,hp,h₂,rfl⟩
  · have happlied := (apply_applied hes hp).2 e rfl
    exact ⟨fun hf => absurd hf (happly hp),fun hf => absurd hf.2 happlied⟩
  · obtain ⟨hid,happlied⟩ := (apply_applied (hes.mono (List.subset_append_left es₁ es₂)) hp).1 row rfl
    rw [finalises_append,applied_append]
    cases hterminal : turn.terminal with
    | false =>
      rw [hterminal] at h₂
      obtain ⟨rfl,-⟩ := Runs.of_pure h₂
      simp [happly hp]
    | true =>
      rw [hterminal] at h₂
      refine ⟨fun _ => ⟨rfl,.inl happlied⟩,fun _ => .inr ?_⟩
      rcases Runs.of_bind h₂ with ⟨e,hf,-⟩ | ⟨final,es₃,es₄,hf,-,rfl⟩
      · exact hid ▸ finalize_finalises hf
      · exact finalises_append.mpr (.inl (hid ▸ finalize_finalises hf))

end Endings

/-- The ways to a reply that Mitra produced. -/
inductive Way where
  | heard
  | recovered
  | resumed
  deriving DecidableEq

section Ways

variable (d : Deployment) (inp : TurnInput) (conv : Conversation) (agent : RegisteredAgent)
  (session : AgentSession)

/-- Steps 10 and 11 of a turn made these calls. -/
def TurnRuns (es : CallTrace) : Prop := ∃ history out, Runs (do
  settleTurn d inp agent (← runHandler d inp conv agent (some session) history) (some session)) es out

/-- Mitra's record, which the request read, has a reply to the text. -/
def RecordAnswers (es : CallTrace) (text : String) : Prop :=
  ∃ sid pid rows, ⟨.recentChat sid pid,.ok rows⟩ ∈ es ∧ (reconcile rows text).outcome = .answered

/-- The request obtained the reply in this way, in an interview of this agent. -/
def Way.Obtains (es : CallTrace) : Way → Prop
  | .heard => TurnRuns d inp conv agent session es ∧
      ∃ ch text t g auth bot, ⟨.sendAndAwaitTurn ch text t g auth,.ok bot⟩ ∈ es
  | .recovered => TurnRuns d inp conv agent session es ∧
      ∃ text, inp.text = .str text ∧ RecordAnswers es text
  | .resumed => (∃ out, Runs (resumeTurn d session.id) es out) ∧
      ⟨.stmt (.getSession session.id),.ok [session]⟩ ∈ es ∧
      (∃ r, ⟨.snapshot,.ok r⟩ ∈ es ∧ r.getById session.agentId = some agent) ∧
      ∃ c text, ⟨.stmt (.lastUserContent c),.ok [text]⟩ ∈ es ∧ RecordAnswers es text

/-- The session is finalised exactly where its agent polls and the interview is completed. -/
def EndsAlike (remote : RemoteSpec) (completed : Bool) (es : CallTrace) : Prop :=
  Finalises session.id es ↔ remote.completionPollEveryTurn = true ∧ completed = true

end Ways

section Decision

variable {d : Deployment} {inp : TurnInput} {conv : Conversation} {agent : RegisteredAgent}
  {session : AgentSession} {remote : RemoteSpec} {completed : Bool} {es : CallTrace}

open Endings

/-- A turn finalises its session where a poll said completed and the session's update found its row. -/
theorem turn_finalises (hremote : agent.spec.remote = some remote) (hes : Honest completed es)
    (h : TurnRuns d inp conv agent session es) :
    (Finalises session.id es ↔ Polled true es ∧ CallTrace.Applied session.id es) ∧
      ∀ b, Polled b es → remote.completionPollEveryTurn = true := by
  obtain ⟨history,out,h⟩ := h
  have hhandler := (runHandler_calls d inp conv agent (some session) history).within
  have hno : ∀ {es : CallTrace} {out : Except Exn AgentTurn},
      Runs (runHandler d inp conv agent (some session) history) es out →
      ¬ Finalises session.id es ∧ ¬ CallTrace.Applied session.id es := fun hrun =>
    ⟨not_finalises hrun hhandler (by decide),not_applied hrun hhandler (by decide)⟩
  rcases Runs.of_bind h with ⟨e,hrun,rfl⟩ | ⟨turn,es₁,es₂,hrun,h₂,rfl⟩
  · obtain ⟨hfinal,happlied⟩ := hno hrun
    exact ⟨⟨fun hf => absurd hf hfinal,fun hf => absurd hf.2 happlied⟩,
      (runHandler_concluded hremote hes hrun).asks⟩
  · obtain ⟨hfinal,happlied⟩ := hno hrun
    have hconcluded := runHandler_concluded hremote (hes.mono (List.subset_append_left es₁ es₂)) hrun
    obtain ⟨hterminal,hdelta⟩ := hconcluded.ends turn rfl
    have hsettle := settleTurn_finalises (hes.mono (List.subset_append_right es₁ es₂)) hdelta h₂
    have hquiet : ∀ b, ¬ Polled b es₂ := fun b =>
      not_polled h₂ (unasked_of_within (settleTurn_calls d inp agent turn (some session)).within (by decide))
    refine ⟨?_,fun b hb => ?_⟩
    · simp only [finalises_append,polled_append,applied_append,hfinal,happlied,hquiet,false_or,or_false]
      rw [hsettle,hterminal]
    · simp only [polled_append,hquiet,or_false] at hb
      exact hconcluded.asks b hb

end Decision

namespace Endings

/-- The calls where each operation has one answer. -/
theorem honest_answered {α : Type} {f : (o : Op) → Except Exn o.Ans} {completed : Bool} {p : Proc α}
    (hpoll : ∀ sid b, f (.isSessionCompleted sid) = .ok b → b = completed)
    (hrow : ∀ id expected new fields (rows : List AgentSession) (row : AgentSession),
      f (.stmt (.updateStateAndFields id expected new fields)) = .ok rows → row ∈ rows → row.id = id)
    (hsure : ∀ o e, o.sure = true → f o ≠ .error e) :
    Honest completed ((p.calls f).map fun o => ⟨o,f o⟩) := by
  have hanswer : ∀ {o : Op} {r : Except Exn o.Ans}, ⟨o,r⟩ ∈ (p.calls f).map (fun o => Sigma.mk o (f o)) →
      f o = r := by
    intro o r he
    obtain ⟨o',-,heq⟩ := List.mem_map.mp he
    cases heq
    rfl
  exact ⟨fun sid b he => hpoll sid b (hanswer he),
    fun id x n fields rows row he => hrow id x n fields rows row (hanswer he),
    fun o e ho he => hsure o e ho (hanswer he)⟩

/-- The interview's open session. -/
def interview : AgentSession where
  id := 0
  conversationId := 0
  agentId := 2
  state := .awaitingUser
  remoteSessionId := some "remote-session"
  remoteProfileId := some "profile"
  startedAt := 0
  lastActivityAt := 0

/-- Mitra has replied to the last answer, and the interview is completed. -/
def answers : (o : Op) → Except Exn o.Ans
  | .snapshot => .ok ⟨[Sample.assistant,Sample.interviewer]⟩
  | .acquire .. => .ok (0 : ChannelId)
  | .sendAndAwaitTurn .. => .ok { text := "Thank you." }
  | .isSessionCompleted _ => .ok true
  | .recentChat .. => .ok [⟨1,true,"my answer","",""⟩,⟨2,false,"Thank you.","",""⟩]
  | .getenv _ => .ok (some "route")
  | .rollback => .ok ()
  | .scopeLookup .. => .ok (0,none)
  | .scopeStore .. => .ok ()
  | .popChannel _ => .ok true
  | .today => .ok "01 Jan"
  | .reloadDue => .ok false
  | .handleBegin .. => .ok ()
  | .handleEnd _ => .ok ()
  | .commit => .ok ()
  | .stmt (.getSession _) => .ok [interview]
  | .stmt (.lastUserContent _) => .ok ["my answer"]
  | .stmt (.updateStateAndFields id _ new _) => .ok [{ interview with id := id, state := new }]
  | .stmt (.nextSeqForUpdate _) => .ok [3]
  | .stmt (.insertMessage _) => .ok (3 : ℕ)
  | .stmt (.touch ..) => .ok ()
  | _ => .error .rejected

theorem honest_answers {α : Type} (p : Proc α) :
    Honest true ((p.calls answers).map fun o => ⟨o,answers o⟩) := by
  apply honest_answered
  · intro sid b h
    exact (Except.ok.inj h).symm
  · intro id expected new fields rows row h hrow
    obtain rfl := Except.ok.inj h
    cases List.mem_singleton.mp hrow
    rfl
  · intro o e ho h
    cases o with
    | stmt s => cases ho
    | _ => first | (simp [answers] at h; done) | simp [Op.sure] at ho

theorem mem_answers {α : Type} {p : Proc α} {P : Op → Bool} (h : (p.calls answers).any P = true) :
    ∃ o, P o = true ∧ ⟨o,answers o⟩ ∈ (p.calls answers).map fun o => Sigma.mk o (answers o) := by
  obtain ⟨o,ho,hP⟩ := List.any_eq_true.mp h
  exact ⟨o,hP,List.mem_map.mpr ⟨o,ho,rfl⟩⟩

def conversation : Conversation where
  id := 0
  tenantCode := "default"
  externalUserId := "user"
  createdAt := 0

def input : TurnInput where
  conversationId := some 0
  user := Sample.caller
  text := .str "my answer"

/-- Steps 10 and 11. -/
def tail : Proc (Option AgentSession) := do
  settleTurn Sample.deployment input Sample.interviewer
    (← runHandler Sample.deployment input conversation Sample.interviewer (some interview) []) (some interview)

def asks : Op → Bool
  | .isSessionCompleted _ => true
  | _ => false

def sendsText : Op → Bool
  | .sendAndAwaitTurn .. => true
  | _ => false

def updates : Op → Bool
  | .stmt (.updateStateAndFields id ..) => id = 0
  | _ => false

end Endings

open Endings

/-- The calls of a resumption up to the recovered reply. -/
theorem resume_calls : ∃ rest, (resumeTurn Sample.deployment 0).calls answers = [.stmt (.getSession 0),.snapshot,
    .stmt (.lastUserContent 0),.recentChat "remote-session" "profile"] ++ rest := ⟨_,rfl⟩

end Saarathi
