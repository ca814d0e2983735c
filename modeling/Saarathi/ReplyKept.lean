import Saarathi.Endings
import Saarathi.Appending

/-!
# Keeping a reply

Between hearing Mitra's reply and storing it a turn asks whether the interview is
completed, changes its session and may finalise it. This module says, of the calls
after the reply, when the reply is stored.
-/

namespace Saarathi

open Program Program.Prog OrchestrationService

/-- Whether the call numbers or inserts a message. -/
def Op.adds : Op → Bool
  | .stmt (.nextSeqForUpdate _) => true
  | .stmt (.insertMessage _) => true
  | _ => false

theorem Op.adds_of_role {o : Op} (h : o.role ≠ .record) : o.adds = false := by
  cases o with
  | stmt s =>
    cases s with
    | nextSeqForUpdate c => exact absurd rfl h
    | insertMessage m => exact absurd rfl h
    | _ => rfl
  | _ => rfl

theorem Op.adds_of_calm {o : Op} (h : o.calm = true) : o.adds = false := by
  cases o with
  | stmt s =>
    cases s with
    | nextSeqForUpdate c => cases h
    | insertMessage m => cases h
    | _ => rfl
  | _ => rfl

namespace CallTrace

/-- Mitra's reply to a text that was sent. -/
def reply (ch : ChannelId) (text : Json) (timeoutMs idleGapMs : ℕ) (auth : Auth) (bot : Channel.BotTurn) :
    (o : Op) × Except Exn o.Ans := ⟨.sendAndAwaitTurn ch text timeoutMs idleGapMs auth,.ok bot⟩

/-- The poll for the interview's status raised. -/
def PollRaised (es : CallTrace) : Prop := ∃ sid e, ⟨.isSessionCompleted sid,.error e⟩ ∈ es

/-- An update of a session to this state found its row. -/
def Changed (new : SessionState) (es : CallTrace) : Prop :=
  ∃ id expected fields row, ⟨.stmt (.updateStateAndFields id expected new fields),.ok [row]⟩ ∈ es

/-- A finalisation that was begun found nothing to claim and read the session, or completed the session that
it claimed and unpinned its conversation. -/
def FinalizeReturned (es : CallTrace) : Prop :=
  ∀ id r, ⟨.stmt (.claimFinalizing id),r⟩ ∈ es →
    (r = .ok [] ∧ ∃ rows : List AgentSession, ⟨.stmt (.getSession id),.ok rows⟩ ∈ es ∧ rows.length ≤ 1) ∨
      ((∃ claimed, r = .ok [claimed]) ∧ Changed .completed es ∧ ∀ c e, ⟨.stmt (.unpin c),.error e⟩ ∉ es)

/-- A message was numbered wherever a number was asked for. -/
def Numbered (es : CallTrace) : Prop := ∀ c r, ⟨.stmt (.nextSeqForUpdate c),r⟩ ∈ es → ∃ n : ℕ, r = .ok [n]

/-- The insertion of a message raised. -/
def InsertRaised (es : CallTrace) : Prop := ∃ m e, ⟨.stmt (.insertMessage m),.error e⟩ ∈ es

/-- The text was inserted as an assistant's message. -/
def Stored (text : String) (es : CallTrace) : Prop :=
  ∃ m, m.role = .assistant ∧ m.content = .str text ∧ ∃ k, ⟨.stmt (.insertMessage m),.ok k⟩ ∈ es

/-- What follows a reply up to its insertion went through. -/
@[mk_iff] structure Unhindered (es : CallTrace) : Prop where
  polled : ¬ PollRaised es
  applied : Changed .awaitingUser es
  finalized : FinalizeReturned es
  numbered : Numbered es
  inserted : ¬ InsertRaised es

/-- The calls that cannot raise do not, and the poll, a request of its own, does not time out as a turn. -/
structure Sane (es : CallTrace) : Prop where
  sure : ∀ o e, o.sure = true → ⟨o,.error e⟩ ∉ es
  poll : ∀ sid step, ⟨.isSessionCompleted sid,.error (.mitra (.turnTimeout step))⟩ ∉ es

section Append

variable {es es' : CallTrace}

theorem Sane.mono (h : Sane es) (hes : es' ⊆ es) : Sane es' :=
  ⟨fun o e ho he => h.sure o e ho (hes he),fun sid step he => h.poll sid step (hes he)⟩

@[simp] theorem pollRaised_append : PollRaised (es ++ es') ↔ PollRaised es ∨ PollRaised es' := by
  simp [PollRaised,exists_or]

@[simp] theorem changed_append {new : SessionState} :
    Changed new (es ++ es') ↔ Changed new es ∨ Changed new es' := by
  simp [Changed,exists_or]

@[simp] theorem numbered_append : Numbered (es ++ es') ↔ Numbered es ∧ Numbered es' := by
  simp only [Numbered,List.mem_append]
  constructor
  · exact fun h => ⟨fun c r hr => h c r (.inl hr),fun c r hr => h c r (.inr hr)⟩
  · rintro ⟨h,h'⟩ c r (hr | hr)
    · exact h c r hr
    · exact h' c r hr

@[simp] theorem insertRaised_append : InsertRaised (es ++ es') ↔ InsertRaised es ∨ InsertRaised es' := by
  simp [InsertRaised,exists_or]

@[simp] theorem stored_append {text : String} : Stored text (es ++ es') ↔ Stored text es ∨ Stored text es' := by
  simp only [Stored,List.mem_append,exists_or,and_or_left]

/-- A list with `e` in it, cut in two. -/
theorem split_at {A : Type} {xs ys before rest : List A} {e : A} (h : xs ++ ys = before ++ e :: rest) :
    (∃ rest', xs = before ++ e :: rest' ∧ rest = rest' ++ ys) ∨
      ∃ before', ys = before' ++ e :: rest ∧ before = xs ++ before' := by
  rcases List.append_eq_append_iff.mp h with ⟨ms,hbefore,hys⟩ | ⟨ms,hxs,hrest⟩
  · exact .inr ⟨ms,hys,hbefore⟩
  · cases ms with
    | nil => exact .inr ⟨[],by simpa using hrest.symm,by simpa using hxs.symm⟩
    | cons a ms =>
      obtain ⟨rfl,rfl⟩ : e = a ∧ rest = ms ++ ys := by simpa using hrest
      exact .inl ⟨ms,hxs,rfl⟩

end Append

section Silent

variable {es es' : CallTrace} {rs : List Role}

/-- The calls are of these roles. -/
def Roles (rs : List Role) (es : CallTrace) : Prop := ∀ e ∈ es, e.1.role ∈ rs

/-- No call numbers or inserts a message. -/
def Quiet (es : CallTrace) : Prop := ∀ e ∈ es, e.1.adds = false

theorem Roles.quiet (h : Roles rs es) (hrs : Role.record ∉ rs) : Quiet es :=
  fun e he => Op.adds_of_role fun hr => hrs (hr ▸ h e he)

theorem not_pollRaised (h : Roles rs es) (hrs : Role.read ∉ rs) : ¬ PollRaised es := by
  rintro ⟨sid,e,he⟩
  exact hrs (h _ he)

theorem not_changed {new : SessionState} (h : Roles rs es) (hrs : Role.apply ∉ rs ∧ Role.forced ∉ rs) :
    ¬ Changed new es := by
  rintro ⟨id,expected,fields,row,he⟩
  rcases Stmt.role_updateStateAndFields id expected new fields with hr | hr
  · exact hrs.1 (hr ▸ h _ he)
  · exact hrs.2 (hr ▸ h _ he)

theorem not_claims (h : Roles rs es) (hrs : Role.claim ∉ rs) (id : SessionId)
    (r : Except Exn (List AgentSession)) : ⟨.stmt (.claimFinalizing id),r⟩ ∉ es :=
  fun he => hrs (h _ he)

theorem not_gets (h : Roles rs es) (hrs : Role.query ∉ rs) (id : SessionId)
    (r : Except Exn (List AgentSession)) : ⟨.stmt (.getSession id),r⟩ ∉ es :=
  fun he => hrs (h _ he)

theorem not_unpins (h : Roles rs es) (hrs : Role.unpin ∉ rs) (c : ConversationId)
    (r : Except Exn Unit) : ⟨.stmt (.unpin c),r⟩ ∉ es :=
  fun he => hrs (h _ he)

theorem Quiet.numbered (h : Quiet es) : Numbered es := fun c r he => by cases h _ he

theorem Quiet.not_insertRaised (h : Quiet es) : ¬ InsertRaised es := by
  rintro ⟨m,e,he⟩
  cases h _ he

theorem Quiet.not_stored {text : String} (h : Quiet es) : ¬ Stored text es := by
  rintro ⟨m,-,-,k,he⟩
  cases h _ he

/-- Calls that neither finalise nor complete a session. -/
structure Beside (es : CallTrace) : Prop where
  claims : ∀ id r, ⟨.stmt (.claimFinalizing id),r⟩ ∉ es
  gets : ∀ id r, ⟨.stmt (.getSession id),r⟩ ∉ es
  completes : ¬ Changed .completed es
  unpins : ∀ c r, ⟨.stmt (.unpin c),r⟩ ∉ es

theorem Roles.beside (h : Roles rs es) (hrs : Role.claim ∉ rs ∧ Role.query ∉ rs ∧ Role.unpin ∉ rs)
    (hc : ¬ Changed .completed es) : Beside es :=
  ⟨not_claims h hrs.1,not_gets h hrs.2.1,hc,not_unpins h hrs.2.2⟩

/-- Calls beside a finalisation do not decide whether it returned. -/
theorem finalizeReturned_beside {ws es' : CallTrace} (hw : Beside ws) (hes : ∀ e, e ∈ es ↔ e ∈ es' ∨ e ∈ ws) :
    FinalizeReturned es ↔ FinalizeReturned es' := by
  have hchanged : Changed .completed es ↔ Changed .completed es' := by
    constructor
    · rintro ⟨id,expected,fields,row,he⟩
      exact ⟨id,expected,fields,row,((hes _).mp he).resolve_right fun hws =>
        hw.completes ⟨id,expected,fields,row,hws⟩⟩
    · rintro ⟨id,expected,fields,row,he⟩
      exact ⟨id,expected,fields,row,(hes _).mpr (.inl he)⟩
  have hget : ∀ id rows, ⟨.stmt (.getSession id),.ok rows⟩ ∈ es ↔ ⟨.stmt (.getSession id),.ok rows⟩ ∈ es' :=
    fun id rows => (hes _).trans (or_iff_left (hw.gets id _))
  have hunpin : ∀ c e, ⟨.stmt (.unpin c),.error e⟩ ∈ es ↔ ⟨.stmt (.unpin c),.error e⟩ ∈ es' :=
    fun c e => (hes _).trans (or_iff_left (hw.unpins c _))
  refine forall₂_congr fun id r => ?_
  refine imp_congr ((hes _).trans (or_iff_left (hw.claims id r))) ?_
  refine or_congr (and_congr_right fun _ => exists_congr fun rows => and_congr_left fun _ => hget id rows) ?_
  exact and_congr_right fun _ => and_congr hchanged (forall₂_congr fun c e => not_congr (hunpin c e))

/-- Calls that come after a reply was stored, or around the handler. -/
theorem Roles.aside (h : Roles [.commit,.unlock,.mark] es') (text : String) :
    (Stored text (es ++ es') ↔ Stored text es) ∧ (Unhindered (es ++ es') ↔ Unhindered es) := by
  have hquiet : Quiet es' := h.quiet (by decide)
  have hfinal : FinalizeReturned (es ++ es') ↔ FinalizeReturned es :=
    finalizeReturned_beside (h.beside (by decide) (not_changed h (by decide))) fun e => List.mem_append
  have hpoll : ¬ PollRaised es' := not_pollRaised h (by decide)
  have hchanged : ¬ Changed .awaitingUser es' := not_changed h (by decide)
  refine ⟨by simp [hquiet.not_stored],?_⟩
  simp [unhindered_iff,hfinal,hpoll,hchanged,hquiet.numbered,hquiet.not_insertRaised]

end Silent

end CallTrace

open CallTrace

namespace ReplyKept

variable {d : Deployment} {inp : TurnInput} {conv : Conversation} {agent : RegisteredAgent}
  {session : AgentSession} {es : CallTrace}

/-- The session change returns exactly where its update finds the row. -/
theorem apply_returns {delta : SessionDelta} {out : Except Exn AgentSession}
    (h : Runs (SessionService.apply session delta) es out) :
    (∃ row, out = .ok row) ↔ Changed delta.state es := by
  rcases Endings.runs_apply h with ⟨rfl,e,rfl⟩ | ⟨r,rfl,hout⟩
  · exact iff_of_false (by simp) (by simp [Changed])
  constructor
  · rintro ⟨row,hrow⟩
    obtain rfl := (hout row).mp hrow
    exact ⟨_,_,_,row,List.mem_singleton.mpr rfl⟩
  · rintro ⟨id,expected,fields,row,he⟩
    cases List.mem_singleton.mp he
    exact ⟨row,(hout row).mpr rfl⟩

/-- Another change leaves this one undone. -/
theorem apply_changed {delta : SessionDelta} {out : Except Exn AgentSession} {new : SessionState}
    (h : Runs (SessionService.apply session delta) es out) (hne : delta.state ≠ new) : ¬ Changed new es := by
  rintro ⟨id,expected,fields,row,he⟩
  rcases Endings.runs_apply h with ⟨rfl,-⟩ | ⟨r,rfl,-⟩
  · cases he
  · cases List.mem_singleton.mp he
    exact hne rfl

section Claim

variable {α : Type} {p : Proc α} {out : Except Exn α} {rs : List Role} {id : SessionId}
  {r : Except Exn (List AgentSession)}

theorem mem_after_claim {o : Op} {a : Except Exn o.Ans} (ho : o ≠ .stmt (.claimFinalizing id)) :
    (⟨o,a⟩ : (o : Op) × Except Exn o.Ans) ∈ ⟨.stmt (.claimFinalizing id),r⟩ :: es ↔
      (⟨o,a⟩ : (o : Op) × Except Exn o.Ans) ∈ es := by
  constructor
  · intro h
    rcases List.mem_cons.mp h with heq | h
    · exact absurd (congrArg Sigma.fst heq) ho
    · exact h
  · exact List.mem_cons_of_mem _

/-- The calls that follow a claim, which claim nothing themselves, decide whether the finalisation returned. -/
theorem finalizeReturned_cons (h : Runs p es out) (hp : Within rs p) (hrs : Role.claim ∉ rs) :
    FinalizeReturned (⟨.stmt (.claimFinalizing id),r⟩ :: es) ↔
      (r = .ok [] ∧ ∃ rows : List AgentSession, ⟨.stmt (.getSession id),.ok rows⟩ ∈ es ∧ rows.length ≤ 1) ∨
        ((∃ claimed, r = .ok [claimed]) ∧ Changed .completed es ∧ ∀ c e, ⟨.stmt (.unpin c),.error e⟩ ∉ es) := by
  have hfirst : ∀ id' r', (⟨.stmt (.claimFinalizing id'),r'⟩ : (o : Op) × Except Exn o.Ans) ∈
      ⟨.stmt (.claimFinalizing id),r⟩ :: es → id' = id ∧ r' = r := by
    intro id' r' hmem
    rcases List.mem_cons.mp hmem with heq | hmem
    · cases heq
      exact ⟨rfl,rfl⟩
    · exact absurd hmem (not_claims (h.all hp) hrs id' r')
  constructor
  · intro hret
    rcases hret id r (List.mem_cons_self ..) with ⟨rfl,rows,hrows,hlen⟩ | ⟨hr,hchanged,hunpin⟩
    · exact .inl ⟨rfl,rows,(mem_after_claim fun h => by cases h).mp hrows,hlen⟩
    · obtain ⟨id',expected,fields,row,hmem⟩ := hchanged
      refine .inr ⟨hr,⟨id',expected,fields,row,(mem_after_claim fun h => by cases h).mp hmem⟩,fun c e he => ?_⟩
      exact hunpin c e (List.mem_cons_of_mem _ he)
  · intro hret id' r' hmem
    obtain ⟨rfl,rfl⟩ := hfirst id' r' hmem
    rcases hret with ⟨rfl,rows,hrows,hlen⟩ | ⟨hr,⟨id',expected,fields,row,hmem⟩,hunpin⟩
    · exact .inl ⟨rfl,rows,List.mem_cons_of_mem _ hrows,hlen⟩
    · refine .inr ⟨hr,⟨id',expected,fields,row,List.mem_cons_of_mem _ hmem⟩,fun c e he => ?_⟩
      exact hunpin c e ((mem_after_claim fun h => by cases h).mp he)

end Claim

/-- A finalisation that holds its claim returns exactly where it completed the session and unpinned. -/
theorem finalizeClaimed_returns {claimed : AgentSession} {agent : Option RegisteredAgent} {user : UserContext}
    {out : Except Exn AgentSession} (h : Runs (finalizeClaimed d claimed agent user) es out) :
    (∃ s, out = .ok s) ↔ Changed .completed es ∧ ∀ c e, ⟨.stmt (.unpin c),.error e⟩ ∉ es := by
  have hbefore : ∀ {β : Type} {rs : List Role} {p : Proc β} {es' : CallTrace} {o : Except Exn β},
      Runs p es' o → Within rs p → rs ⊆ [.pop,.story,.report] →
        ¬ Changed .completed es' ∧ ∀ c e, ⟨.stmt (.unpin c),.error e⟩ ∉ es' := by
    intro β rs p es' o hp hw hrs
    refine ⟨not_changed (hp.all hw) ⟨fun hr => ?_,fun hr => ?_⟩,fun c e => not_unpins (hp.all hw) (fun hr => ?_) c _⟩
    · exact absurd (hrs hr) (by decide)
    · exact absurd (hrs hr) (by decide)
    · exact absurd (hrs hr) (by decide)
  rcases Runs.of_bind h with ⟨e,hclose,rfl⟩ | ⟨u,es₁,es₂,hclose,h₂,rfl⟩
  · obtain ⟨hno,-⟩ := hbefore hclose (closeRemoteChannel_calls ..).within (by decide)
    exact iff_of_false (by simp) fun hes => hno hes.1
  obtain ⟨hno₁,hun₁⟩ := hbefore hclose (closeRemoteChannel_calls ..).within (by decide)
  rcases Runs.of_bind h₂ with ⟨e,hstory,-⟩ | ⟨r,es₃,es₄,hstory,h₄,rfl⟩
  · obtain ⟨r,-,hr⟩ := Runs.of_attempt hstory
    cases hr
  obtain ⟨r',hrun,hr⟩ := Runs.of_attempt hstory
  obtain rfl := Except.ok.inj hr
  obtain ⟨hno₃,hun₃⟩ := hbefore hrun (endStory_calls ..).within (by decide)
  rcases r with e | ⟨remote,storyId,content⟩
  · -- the story was not ended: the session is marked as failed and the failure goes on
    have hfailed : (∀ s, out ≠ .ok s) ∧ ¬ Changed .completed es₄ := by
      rcases Runs.of_bind h₄ with ⟨e',happly,rfl⟩ | ⟨row,es₅,es₆,happly,h₆,rfl⟩
      · exact ⟨by simp,apply_changed happly fun h => by cases h⟩
      · obtain ⟨rfl,rfl⟩ := Runs.of_throw h₆
        rw [List.append_nil]
        exact ⟨by simp,apply_changed happly fun h => by cases h⟩
    refine iff_of_false (fun ⟨s,hs⟩ => hfailed.1 s hs) ?_
    simp [hno₁,hno₃,hfailed.2]
  · rcases Runs.of_bind h₄ with ⟨e,hreport,rfl⟩ | ⟨url,es₅,es₆,hreport,h₆,rfl⟩
    · obtain ⟨hno₅,-⟩ := hbefore hreport (fetchReport_calls ..).within (by decide)
      exact iff_of_false (by simp) (by simp [hno₁,hno₃,hno₅])
    obtain ⟨hno₅,hun₅⟩ := hbefore hreport (fetchReport_calls ..).within (by decide)
    rcases Runs.of_bind h₆ with ⟨e,happly,rfl⟩ | ⟨row,es₇,es₈,happly,h₈,rfl⟩
    · have hno₇ : ¬ Changed .completed es₆ := fun hes => by simpa using (apply_returns happly).mpr hes
      exact iff_of_false (by simp) (by simp [hno₁,hno₃,hno₅,hno₇])
    have hcompleted : Changed .completed es₇ := (apply_returns happly).mp ⟨row,rfl⟩
    have hun₇ : ∀ c e, ⟨.stmt (.unpin c),.error e⟩ ∉ es₇ :=
      fun c e => not_unpins (happly.all (SessionService.apply_calls ..).within) (by decide) c _
    rcases Runs.of_bind h₈ with ⟨e,hunpin,rfl⟩ | ⟨u',es₉,es₁₀,hunpin,h₁₀,rfl⟩
    · obtain rfl := Runs.of_perform hunpin
      refine iff_of_false (by simp) fun hes => hes.2 claimed.conversationId e ?_
      exact List.mem_append_right _ (List.mem_append_right _ (List.mem_append_right _
        (List.mem_append_right _ (List.mem_singleton.mpr rfl))))
    · obtain rfl := Runs.of_perform hunpin
      obtain ⟨rfl,rfl⟩ := Runs.of_pure h₁₀
      refine iff_of_true ⟨row,rfl⟩ ⟨by simp [hcompleted],fun c e he => ?_⟩
      simp only [List.mem_append,hun₁,hun₃,hun₅,hun₇,false_or,List.not_mem_nil,or_false] at he
      cases List.mem_singleton.mp he

theorem get_returns {id : SessionId} {out : Except Exn (Option AgentSession)} (h : Runs (SessionService.get id) es out) :
    (∃ s, out = .ok s) ↔ ∃ rows : List AgentSession, ⟨.stmt (.getSession id),.ok rows⟩ ∈ es ∧ rows.length ≤ 1 := by
  obtain ⟨r,rfl,hsome,hnone⟩ := Endings.runs_one h
  constructor
  · rintro ⟨row,rfl⟩
    cases row with
    | some row =>
      obtain ⟨rows,rfl,hrows⟩ := (hsome row).mp rfl
      exact ⟨rows,by simp,by rw [hrows]; simp⟩
    | none =>
      obtain ⟨rows,rfl,hrows⟩ := hnone.mp rfl
      exact ⟨rows,by simp,by rw [hrows]; simp⟩
  · rintro ⟨rows,hrows,hlen⟩
    cases List.mem_singleton.mp hrows
    rcases rows with - | ⟨row,- | ⟨row',rows⟩⟩
    · exact ⟨none,hnone.mpr ⟨[],rfl,rfl⟩⟩
    · exact ⟨some row,(hsome row).mpr ⟨[row],rfl,rfl⟩⟩
    · simp at hlen

/-- A finalisation returns exactly where it found nothing to claim and read the session, or completed it. -/
theorem finalize_returns {agent : Option RegisteredAgent} {user : UserContext} {out : Except Exn AgentSession}
    (h : Runs (finalize d session agent user) es out) : (∃ s, out = .ok s) ↔ FinalizeReturned es := by
  rcases Runs.of_bind h with ⟨e,hclaim,rfl⟩ | ⟨row,es₁,es₂,hclaim,h₂,rfl⟩
  · obtain ⟨r,rfl,hsome,hnone⟩ := Endings.runs_one hclaim
    refine iff_of_false (by simp) fun hes => ?_
    rcases hes session.id r (List.mem_singleton.mpr rfl) with ⟨rfl,-⟩ | ⟨⟨claimed,rfl⟩,-⟩
    · cases hnone.mpr ⟨[],rfl,rfl⟩
    · cases (hsome claimed).mpr ⟨[claimed],rfl,rfl⟩
  obtain ⟨r,rfl,hsome,hnone⟩ := Endings.runs_one hclaim
  cases row with
  | some claimed =>
    obtain ⟨a,rfl,ha⟩ := (hsome claimed).mp rfl
    obtain rfl : a = [claimed] := ha
    have hclaimed : FinalizeReturned ([⟨.stmt (.claimFinalizing session.id),.ok [claimed]⟩] ++ es₂) ↔
        Changed .completed es₂ ∧ ∀ c e, ⟨.stmt (.unpin c),.error e⟩ ∉ es₂ := by
      have hw : Within [.record,.pop,.story,.report,.apply,.unpin] (do
          stmt (.auditInsert "session_finalize" claimed.id "system" "")
          finalizeClaimed d claimed agent user) :=
        Within.bind (Within.perform rfl) fun _ => (finalizeClaimed_calls ..).within.mono (by decide)
      refine (finalizeReturned_cons h₂ hw (by decide)).trans ⟨?_,fun hes => .inr ⟨⟨claimed,rfl⟩,hes⟩⟩
      rintro (⟨hr,-⟩ | ⟨-,hes⟩)
      · cases hr
      · exact hes
    rw [hclaimed]
    have hw : Within [.record] (stmt (.auditInsert "session_finalize" claimed.id "system" "")) :=
      Within.perform rfl
    rcases Runs.of_bind h₂ with ⟨e,haudit,rfl⟩ | ⟨u,es₃,es₄,haudit,h₄,rfl⟩
    · exact iff_of_false (by simp) fun hes => not_changed (haudit.all hw) (by decide) hes.1
    · have hno := @not_changed _ _ .completed (haudit.all hw) (by decide)
      have hun := not_unpins (haudit.all hw) (by decide)
      simp only [finalizeClaimed_returns h₄,changed_append,hno,false_or]
      refine and_congr_right fun _ => forall₂_congr fun c e => not_congr ?_
      exact ⟨List.mem_append_right _,fun he => (List.mem_append.mp he).resolve_left (hun c _)⟩
  | none =>
    obtain ⟨a,rfl,ha⟩ := hnone.mp rfl
    obtain rfl : a = [] := ha
    have hw : Within [.query] (do pure ((← SessionService.get session.id).getD session) : Proc AgentSession) :=
      Within.bind (SessionService.get_calls _).within fun _ => trivial
    have hunclaimed : FinalizeReturned ([⟨.stmt (.claimFinalizing session.id),.ok []⟩] ++ es₂) ↔
        ∃ rows : List AgentSession, ⟨.stmt (.getSession session.id),.ok rows⟩ ∈ es₂ ∧ rows.length ≤ 1 := by
      refine (finalizeReturned_cons h₂ hw (by decide)).trans ⟨?_,fun hes => .inl ⟨rfl,hes⟩⟩
      rintro (⟨-,hes⟩ | ⟨⟨claimed,hr⟩,-⟩)
      · exact hes
      · cases hr
    rw [hunclaimed]
    rcases Runs.of_bind h₂ with ⟨e,hget,rfl⟩ | ⟨row,es₃,es₄,hget,h₄,rfl⟩
    · rw [← get_returns hget]
      exact iff_of_false (by simp) (by simp)
    · obtain ⟨rfl,rfl⟩ := Runs.of_pure h₄
      rw [List.append_nil,← get_returns hget]
      exact iff_of_true ⟨_,rfl⟩ ⟨row,rfl⟩

/-- The session is changed and, where the turn ends the interview, finalised, or the turn goes no further. -/
theorem settle_returns {turn : AgentTurn} {delta : SessionDelta} {out : Except Exn (Option AgentSession)}
    (hturn : turn.sessionDelta = some delta) (hdelta : delta.state = .awaitingUser)
    (h : Runs (settleTurn d inp agent turn (some session)) es out) :
    (∃ s, out = .ok s) ↔ Changed .awaitingUser es ∧ FinalizeReturned es := by
  unfold settleTurn at h
  rw [hturn] at h
  rcases Runs.of_bind h with ⟨e,happly,rfl⟩ | ⟨row,es₁,es₂,happly,h₂,rfl⟩
  · have hno : ¬ Changed delta.state es := fun hes => by simpa using (apply_returns happly).mpr hes
    exact iff_of_false (by simp) fun hes => hno (hdelta ▸ hes.1)
  have hroles : Roles [.apply] es₁ := happly.all (SessionService.apply_calls ..).within
  have hchanged : Changed .awaitingUser es₁ := hdelta ▸ (apply_returns happly).mp ⟨row,rfl⟩
  have hbeside : Beside es₁ := hroles.beside (by decide) (apply_changed happly (hdelta ▸ fun h => by cases h))
  have hfinal : FinalizeReturned (es₁ ++ es₂) ↔ FinalizeReturned es₂ :=
    finalizeReturned_beside hbeside fun e => List.mem_append.trans or_comm
  simp only [changed_append,hchanged,true_or,true_and,hfinal]
  split at h₂
  · rcases Runs.of_bind h₂ with ⟨e,hfin,rfl⟩ | ⟨s,es₃,es₄,hfin,h₄,rfl⟩
    · refine iff_of_false (by simp) fun hes => ?_
      simpa using (finalize_returns hfin).mpr hes
    · obtain ⟨rfl,rfl⟩ := Runs.of_pure h₄
      rw [List.append_nil]
      exact iff_of_true ⟨_,rfl⟩ ((finalize_returns hfin).mp ⟨s,rfl⟩)
  · obtain ⟨rfl,rfl⟩ := Runs.of_pure h₂
    exact iff_of_true ⟨_,rfl⟩ fun id r he => absurd he (by simp)

/-- What follows the insertion of a reply neither appends a message nor asks Mitra for anything. -/
theorem storeReply_rest (inp : TurnInput) (agent : RegisteredAgent) (conv : Conversation) (turn : AgentTurn)
    (id : ℕ) : All (fun o => o.adds = false ∧ Unasked o) (do
      (if agent.spec.recordToolExecutions then ToolExecutionRepository.bulkInsert id agent.id turn.toolTraces
      else pure ())
      if inp.autostart then
        ConversationRepository.touch conv.id none
        ConversationRepository.setPlaceholderTitle conv.id (← agentFallbackTitle agent)
      else ConversationRepository.touch conv.id (some (← conversationTitle inp.text)) : Proc Unit) := by
  have htitle : ∀ j, All (fun o => o.adds = false ∧ Unasked o) (conversationTitle j) :=
    fun j => All.mono (@conversationTitle_calls [] j).within fun o ho => absurd ho (by simp)
  have htraces : All (fun o => o.adds = false ∧ Unasked o)
      (ToolExecutionRepository.bulkInsert id agent.id turn.toolTraces) :=
    All.and (All.mono (bulkInsert_calm ..) fun o => Op.adds_of_calm)
      (unasked_of_within (ToolExecutionRepository.bulkInsert_calls ..).within (by decide))
  refine All.bind ?_ fun _ => ?_
  · split
    · exact htraces
    · trivial
  change All _ (if inp.autostart then _ else _)
  split
  · refine All.bind ((all_perform _).mpr ⟨rfl,fun sid h => by cases h⟩) fun _ => ?_
    refine All.bind ?_ fun title => (all_perform _).mpr ⟨rfl,fun sid h => by cases h⟩
    refine All.bind ((all_perform _).mpr ⟨rfl,fun sid h => by cases h⟩) fun today => ?_
    refine All.bind (htitle _) fun title => ?_
    split <;> trivial
  · exact All.bind (htitle _) fun title => (all_perform _).mpr ⟨rfl,fun sid h => by cases h⟩

theorem not_pollRaised_of_unasked {α : Type} {p : Proc α} {out : Except Exn α} (h : Runs p es out)
    (hp : All Unasked p) : ¬ PollRaised es := by
  rintro ⟨sid,e,he⟩
  exact h.all hp _ he sid rfl

/-- A number that is asked for comes back where exactly one row does. -/
theorem nextSeq_numbered {c : ConversationId} {out : Except Exn ℕ}
    (h : Runs (ConversationRepository.nextSeqForUpdate c) es out) :
    (Numbered es ↔ ∃ n, out = .ok n) ∧ ∃ r, es = [⟨.stmt (.nextSeqForUpdate c),r⟩] := by
  have hone : ∀ r : Except Exn (List ℕ), Numbered [⟨.stmt (.nextSeqForUpdate c),r⟩] ↔ ∃ n, r = .ok [n] := by
    intro r
    constructor
    · exact fun hes => hes c r (List.mem_singleton.mpr rfl)
    · intro hr c' r' he
      cases List.mem_singleton.mp he
      exact hr
  rcases Runs.of_bind h with ⟨e,hstmt,rfl⟩ | ⟨(a : List ℕ),es₁,es₂,hstmt,h₂,rfl⟩
  · obtain rfl := Runs.of_perform hstmt
    exact ⟨(hone _).trans (by simp),_,rfl⟩
  · obtain rfl := Runs.of_perform hstmt
    unfold scalarOne at h₂
    split at h₂
    · obtain ⟨rfl,rfl⟩ := Runs.of_throw h₂
      refine ⟨(hone _).trans (iff_of_false ?_ (by simp)),_,rfl⟩
      rintro ⟨n,hn⟩
      cases hn
    · rename_i n
      obtain ⟨rfl,rfl⟩ := Runs.of_pure h₂
      exact ⟨(hone _).trans (iff_of_true ⟨n,rfl⟩ ⟨n,rfl⟩),_,rfl⟩
    · rename_i hnil hmany
      obtain ⟨rfl,rfl⟩ := Runs.of_throw h₂
      refine ⟨(hone _).trans (iff_of_false ?_ (by simp)),_,rfl⟩
      rintro ⟨n,hn⟩
      exact hmany n (Except.ok.inj hn)

/-- The reply is stored exactly where it is numbered and its insertion does not raise. -/
theorem storeReply_stores {decision : RouteDecision} {turn : AgentTurn} {s : Option AgentSession}
    {out : Except Exn Unit} (h : Runs (storeReply inp conv decision agent turn s) es out) :
    (Stored turn.text es ↔ Numbered es ∧ ¬ InsertRaised es) ∧ ¬ PollRaised es := by
  rcases Runs.of_bind h with ⟨e,hseq,rfl⟩ | ⟨seq,es₁,es₂,hseq,h₂,rfl⟩
  · obtain ⟨hnumbered,r,rfl⟩ := nextSeq_numbered hseq
    have hno : ¬ Numbered [⟨.stmt (.nextSeqForUpdate conv.id),r⟩] := fun hes => by simpa using hnumbered.mp hes
    refine ⟨iff_of_false ?_ fun hes => hno hes.1,?_⟩
    · rintro ⟨m,-,-,k,he⟩
      cases List.mem_singleton.mp he
    · rintro ⟨sid,e,he⟩
      cases List.mem_singleton.mp he
  obtain ⟨hnumbered,r,rfl⟩ := nextSeq_numbered hseq
  have hseq₁ : Numbered [⟨.stmt (.nextSeqForUpdate conv.id),r⟩] := hnumbered.mpr ⟨seq,rfl⟩
  have hfirst : ¬ InsertRaised [⟨.stmt (.nextSeqForUpdate conv.id),r⟩] ∧
      ¬ Stored turn.text [⟨.stmt (.nextSeqForUpdate conv.id),r⟩] ∧
      ¬ PollRaised [⟨.stmt (.nextSeqForUpdate conv.id),r⟩] := by
    refine ⟨?_,?_,?_⟩
    · rintro ⟨m,e,he⟩
      cases List.mem_singleton.mp he
    · rintro ⟨m,-,-,k,he⟩
      cases List.mem_singleton.mp he
    · rintro ⟨sid,e,he⟩
      cases List.mem_singleton.mp he
  simp only [stored_append,numbered_append,insertRaised_append,pollRaised_append,hseq₁,hfirst,true_and,false_or]
  have hinsert : ∀ {m : NewMessage} {r : Except Exn ℕ}, Numbered [⟨.stmt (.insertMessage m),r⟩] ∧
      ¬ PollRaised [⟨.stmt (.insertMessage m),r⟩] := by
    intro m r
    refine ⟨fun c r' he => ?_,?_⟩
    · cases List.mem_singleton.mp he
    · rintro ⟨sid,e,he⟩
      cases List.mem_singleton.mp he
  rcases Runs.of_bind h₂ with ⟨e,hins,rfl⟩ | ⟨id,es₃,es₄,hins,h₄,rfl⟩
  · obtain rfl := Runs.of_perform hins
    refine ⟨iff_of_false ?_ fun hes => hes.2 ⟨_,e,List.mem_singleton.mpr rfl⟩,hinsert.2⟩
    rintro ⟨m,-,-,k,he⟩
    cases List.mem_singleton.mp he
  · obtain rfl := Runs.of_perform hins
    have hall := storeReply_rest inp agent conv turn id
    have hquiet : Quiet es₄ := fun e he => (h₄.all hall e he).1
    have hpoll : ¬ PollRaised es₄ := not_pollRaised_of_unasked h₄ (hall.mono fun o ho => ho.2)
    refine ⟨iff_of_true (stored_append.mpr (.inl ⟨_,rfl,rfl,id,List.mem_singleton.mpr rfl⟩)) ⟨?_,?_⟩,?_⟩
    · exact numbered_append.mpr ⟨hinsert.1,hquiet.numbered⟩
    · rw [insertRaised_append]
      rintro (⟨m,e,he⟩ | hes)
      · cases List.mem_singleton.mp he
      · exact hquiet.not_insertRaised hes
    · rw [pollRaised_append]
      exact fun hes => hes.elim hinsert.2 hpoll

section Reply

variable {before rest : CallTrace} {ch : ChannelId} {text : Json} {t g : ℕ} {auth : Auth} {bot : Channel.BotTurn}

/-- What is sent ends with Mitra's reply. -/
theorem sendOn_reply {ch' : ChannelId} {text' : Json} {t' g' : ℕ} {auth' : Auth} {out : Except Exn Channel.BotTurn}
    (h : Runs (RemoteFlowAgentHandler.sendOn ch' text' t' g' auth') es out)
    (hes : es = before ++ reply ch text t g auth bot :: rest) : rest = [] ∧ out = .ok bot := by
  obtain rfl := Runs.of_perform h
  have hlen := congrArg List.length hes
  obtain ⟨rfl,rfl⟩ : before = [] ∧ rest = [] := by
    simp only [List.length_append,List.length_cons,List.length_nil] at hlen
    exact ⟨List.length_eq_zero_iff.mp (by omega),List.length_eq_zero_iff.mp (by omega)⟩
  cases hes
  exact ⟨rfl,rfl⟩

/-- Every call but that which sends a text to Mitra. -/
def Unsent (o : Op) : Prop := ∀ ch text t g auth, o ≠ .sendAndAwaitTurn ch text t g auth

theorem unsent_of_within {α : Type} {rs : List Role} {p : Proc α} (hp : Within rs p) (hrs : Role.channel ∉ rs) :
    All Unsent p := by
  refine All.mono hp fun o ho ch text t g auth h => ?_
  subst h
  exact hrs ho

theorem not_replied {α : Type} {p : Proc α} {out : Except Exn α} (h : Runs p es out) (hp : All Unsent p) :
    es ≠ before ++ reply ch text t g auth bot :: rest := by
  rintro rfl
  exact h.all hp _ (List.mem_append_right _ (List.mem_cons_self ..)) ch text t g auth rfl

/-- A reply that a program hears is heard after what comes first and sends nothing. -/
theorem reply_after {α β : Type} {p : Proc α} {f : α → Proc β} {out : Except Exn β} (h : Runs (p >>= f) es out)
    (hp : All Unsent p) (hes : es = before ++ reply ch text t g auth bot :: rest) :
    ∃ a es' before', Runs p es' (.ok a) ∧ Runs (f a) (before' ++ reply ch text t g auth bot :: rest) out ∧
      before = es' ++ before' := by
  rcases Runs.of_bind h with ⟨e,hfirst,-⟩ | ⟨a,es₁,es₂,hfirst,h₂,rfl⟩
  · exact absurd hes (not_replied hfirst hp)
  rcases split_at hes with ⟨rest',h₁,-⟩ | ⟨before',rfl,hbefore⟩
  · exact absurd h₁ (not_replied hfirst hp)
  · exact ⟨a,es₁,before',hfirst,h₂,hbefore⟩

theorem acquire_unsent (c : ConversationId) (auth : Auth) : All Unsent (MitraSessionManager.acquire c auth) :=
  (all_perform _).mpr fun _ _ _ _ _ h => by cases h

theorem reacquire_unsent (c : ConversationId) (auth : Auth) : All Unsent (MitraSessionManager.reacquire c auth) :=
  All.bind ((all_perform _).mpr fun _ _ _ _ _ h => by cases h) fun _ => acquire_unsent c auth

theorem poll_unsent (flag : Bool) (sid : Option String) :
    All Unsent (if flag then perform (Op.isSessionCompleted sid) else pure false : Proc Bool) := by
  cases flag with
  | false => trivial
  | true => exact (all_perform _).mpr fun _ _ _ _ _ h => by cases h

/-- A conversation with Mitra ends with its reply. -/
theorem converse_reply {c : ConversationId} {auth' : Auth} {text' : Json} {t' g' : ℕ}
    {out : Except Exn Channel.BotTurn} (h : Runs (RemoteFlowAgentHandler.converse c auth' text' t' g') es out)
    (hes : es = before ++ reply ch text t g auth bot :: rest) : rest = [] ∧ out = .ok bot := by
  obtain ⟨ch',es₁,before',-,h₂,-⟩ := reply_after h (acquire_unsent c auth') hes
  rcases Runs.of_bind h₂ with ⟨e,hsend,-⟩ | ⟨r,es₃,es₄,hsend,h₄,hes₂⟩
  · obtain ⟨r,-,hr⟩ := Runs.of_attempt hsend
    cases hr
  obtain ⟨r',hrun,hr⟩ := Runs.of_attempt hsend
  obtain rfl := Except.ok.inj hr
  rcases split_at hes₂.symm with ⟨rest',h₃,rfl⟩ | ⟨before'',rfl,-⟩
  · obtain ⟨rfl,rfl⟩ := sendOn_reply hrun h₃
    obtain ⟨rfl,rfl⟩ := Runs.of_pure h₄
    exact ⟨rfl,rfl⟩
  · split at h₄
    · exact absurd rfl (not_replied h₄ trivial)
    · -- a closed channel: the text is sent once more, on a new one
      obtain ⟨ch'',es₅,before₅,-,h₆,-⟩ := reply_after h₄ (reacquire_unsent c auth') rfl
      exact sendOn_reply h₆ rfl
    · exact absurd rfl (not_replied h₄ trivial)

/-- A handler that heard the reply returns it for the awaiting user, unless the poll raised. -/
structure Heard (bot : Channel.BotTurn) (rest : CallTrace) (out : Except Exn AgentTurn) : Prop where
  ok : ∀ turn, out = .ok turn → ¬ PollRaised rest ∧ turn.text = bot.text ∧
    ∃ delta, turn.sessionDelta = some delta ∧ delta.state = .awaitingUser
  error : ∀ e, out = .error e → ∃ sid, ⟨.isSessionCompleted sid,.error e⟩ ∈ rest

theorem remoteFlow_heard {key : String} {remote : RemoteSpec} {user : UserContext} {view : Option AgentSessionView}
    {text' : Json} {out : Except Exn AgentTurn}
    (h : Runs (RemoteFlowAgentHandler.handle key remote user view text') es out)
    (hes : es = before ++ reply ch text t g auth bot :: rest) : Heard bot rest out := by
  cases view with
  | none => exact absurd hes (not_replied h trivial)
  | some view =>
    have hsess : All Unsent (RemoteFlowAgentHandler.remoteSession remote user view) :=
      unsent_of_within (RemoteFlowAgentHandler.remoteSession_calls remote user view).within (by decide)
    obtain ⟨sess,es₁,before',-,h₂,-⟩ := reply_after h hsess hes
    rcases Runs.of_bind h₂ with ⟨e,hbot,-⟩ | ⟨bot',es₃,es₄,hbot,h₄,hes₂⟩
    · obtain ⟨-,hr⟩ := converse_reply hbot rfl
      cases hr
    rcases split_at hes₂.symm with ⟨rest',h₃,rfl⟩ | ⟨before'',rfl,-⟩
    · obtain ⟨rfl,hr⟩ := converse_reply hbot h₃
      obtain rfl := Except.ok.inj hr
      have hread : ∀ r, ¬ PollRaised [⟨.isSessionCompleted sess.remoteSessionId,.ok r⟩] := by
        rintro r ⟨sid,e,he⟩
        cases List.mem_singleton.mp he
      rcases Runs.of_bind h₄ with ⟨e,hpoll,rfl⟩ | ⟨finished,es₅,es₆,hpoll,h₆,rfl⟩
      · refine ⟨by simp,?_⟩
        rintro e' ⟨⟩
        split at hpoll
        · obtain rfl := Runs.of_perform hpoll
          exact ⟨_,List.mem_singleton.mpr rfl⟩
        · obtain ⟨-,hr⟩ := Runs.of_pure hpoll
          cases hr
      · obtain ⟨rfl,rfl⟩ := Runs.of_pure h₆
        refine ⟨?_,by simp⟩
        rintro turn ⟨⟩
        refine ⟨?_,rfl,_,rfl,rfl⟩
        split at hpoll
        · obtain rfl := Runs.of_perform hpoll
          exact hread finished
        · obtain ⟨rfl,-⟩ := Runs.of_pure hpoll
          simp [PollRaised]
    · exact absurd rfl (not_replied h₄ (All.bind (poll_unsent _ _) fun _ => trivial))

theorem handle_heard {view : Option AgentSessionView} {out : Except Exn AgentTurn}
    (h : Runs (handle d conv.id agent inp.user view inp.text) es out)
    (hes : es = before ++ reply ch text t g auth bot :: rest) : Heard bot rest out ∧ view.isSome = true := by
  unfold handle at h
  split at h
  · refine absurd hes (not_replied h ?_)
    exact All.bind ((all_perform _).mpr fun _ _ _ _ _ h => by cases h) fun _ => trivial
  split at h
  · cases view with
    | none => exact absurd hes (not_replied h trivial)
    | some view => exact ⟨remoteFlow_heard h hes,rfl⟩
  · exact absurd hes (not_replied h trivial)

/-- The marks around a handler cannot raise and hear nothing. -/
theorem marked_heard {α : Type} {c : ConversationId} {run : HandlerRun} {p : Proc α} {out : Except Exn α}
    (hsane : Sane es) (h : Runs (marked c run p) es out) (hes : es = before ++ reply ch text t g auth bot :: rest) :
    ∃ before' rest' ms, Runs p (before' ++ reply ch text t g auth bot :: rest') out ∧ rest = rest' ++ ms ∧
      Roles [.mark] ms := by
  have hmark : ∀ o : Op, o.role = .mark → All Unsent (Prog.perform o : Proc o.Ans) :=
    fun o ho => unsent_of_within ((all_perform o).mpr (List.mem_singleton.mpr ho)) (by decide)
  obtain ⟨u,es₁,before',-,h₂,rfl⟩ := reply_after h (hmark (.handleBegin c run) rfl) hes
  obtain ⟨r,r',es₃,es₄,hp,hfin,hes₂,hout⟩ := Runs.of_ensuring h₂
  have hend : Within [.mark] (do
      let _ ← perform (Op.handleEnd c)
      pure () : Proc Unit) := Within.bind (Within.perform rfl) fun _ => trivial
  rcases split_at hes₂.symm with ⟨rest',rfl,hrest⟩ | ⟨before₄,rfl,-⟩
  · have hmarks : Roles [.mark] es₄ := hfin.all hend
    rcases Runs.of_bind hfin with ⟨e,hraised,-⟩ | ⟨u',es₅,es₆,hended,h₆,rfl⟩
    · obtain rfl := Runs.of_perform hraised
      refine absurd ?_ (hsane.sure (.handleEnd c) e rfl)
      rw [hes,hrest]
      simp
    · obtain ⟨rfl,rfl⟩ := Runs.of_pure h₆
      obtain rfl := hout _ rfl
      exact ⟨before',rest',_,hp,hrest,hmarks⟩
  · exact absurd rfl (not_replied hfin (unsent_of_within hend (by decide)))

theorem runHandler_heard {s : Option AgentSession} {history : List Message} {out : Except Exn AgentTurn} (hsane : Sane es)
    (h : Runs (runHandler d inp conv agent s history) es out) (hes : es = before ++ reply ch text t g auth bot :: rest) :
    Heard bot rest out ∧ s.isSome = true := by
  rcases Runs.of_bind h with ⟨e,hm,-⟩ | ⟨r,es₁,es₂,hm,h₂,rfl⟩
  · obtain ⟨r,-,hr⟩ := Runs.of_attempt hm
    cases hr
  obtain ⟨r',hrun,hr⟩ := Runs.of_attempt hm
  obtain rfl := Except.ok.inj hr
  rcases split_at hes with ⟨rest₁,hes₁,rfl⟩ | ⟨before₂,rfl,-⟩
  · obtain ⟨before',rest',ms,hp,rfl,hms⟩ := marked_heard (hsane.mono (List.subset_append_left es₁ es₂)) hrun hes₁
    obtain ⟨hheard,hsome⟩ := handle_heard hp rfl
    have hpoll : ¬ PollRaised ms := not_pollRaised hms (by decide)
    refine ⟨?_,by simpa using hsome⟩
    split at h₂
    · rename_i turn
      obtain ⟨rfl,rfl⟩ := Runs.of_pure h₂
      refine ⟨?_,by simp⟩
      rintro turn ⟨⟩
      obtain ⟨hno,htext,hdelta⟩ := hheard.ok turn rfl
      exact ⟨by simp [hno,hpoll],htext,hdelta⟩
    · -- the handler's only failure after a reply is the poll's, which is no timeout of a turn
      rename_i lastStep
      obtain ⟨sid,hmem⟩ := hheard.error _ rfl
      refine absurd ?_ (hsane.poll sid lastStep)
      rw [hes]
      simp [hmem]
    · rename_i e _
      obtain ⟨rfl,rfl⟩ := Runs.of_throw h₂
      refine ⟨by simp,?_⟩
      rintro e' ⟨⟩
      obtain ⟨sid,hmem⟩ := hheard.error _ rfl
      exact ⟨sid,by simp [hmem]⟩
  · -- a recovery sends nothing
    split at h₂
    · exact absurd rfl (not_replied h₂ trivial)
    · refine absurd rfl (not_replied h₂ (All.bind ?_ ?_))
      · exact unsent_of_within (recoverTimedOutTurn_calls ..).within (by decide)
      · rintro (_ | turn) <;> trivial
    · exact absurd rfl (not_replied h₂ trivial)

/-- What a turn does once its reply was handled: the reply is stored where the session's change and a
finalisation return, the reply is numbered and its insertion does not raise. -/
theorem settled_stores {turn : AgentTurn} {decision : RouteDecision} {s : Option AgentSession}
    {delta : SessionDelta} {hs es₁ es₂ : CallTrace} {out : Except Exn Unit}
    (hroles : Roles [.read,.channel,.pop,.mark] hs) (hpoll : ¬ PollRaised hs)
    (hturn : turn.sessionDelta = some delta) (hdelta : delta.state = .awaitingUser)
    (hsettle : Runs (settleTurn d inp agent turn (some session)) es₁ (.ok s))
    (hstore : Runs (storeReply inp conv decision agent turn s) es₂ out) :
    Stored turn.text (hs ++ (es₁ ++ es₂)) ↔ Unhindered (hs ++ (es₁ ++ es₂)) := by
  obtain ⟨hchanged,hfinal⟩ := (settle_returns hturn hdelta hsettle).mp ⟨s,rfl⟩
  obtain ⟨hstored,hpoll₂⟩ := storeReply_stores hstore
  have hquiet : Quiet hs := hroles.quiet (by decide)
  have hbeside : Beside hs := hroles.beside (by decide) (not_changed hroles (by decide))
  have hroles₁ : Roles [.claim,.query,.record,.pop,.story,.report,.apply,.unpin] es₁ :=
    hsettle.all (settleTurn_calls ..).within
  have hquiet₁ : Quiet es₁ := fun e he => Op.adds_of_calm (hsettle.all (settleTurn_calm ..) e he)
  have hroles₂ : Roles [.record,.read] es₂ := hstore.all (storeReply_calls ..).within
  have hbeside₂ : Beside es₂ := hroles₂.beside (by decide) (not_changed hroles₂ (by decide))
  have hfinalized : FinalizeReturned (hs ++ (es₁ ++ es₂)) := by
    rw [finalizeReturned_beside hbeside fun e => List.mem_append.trans or_comm]
    rwa [finalizeReturned_beside hbeside₂ fun e => List.mem_append]
  have hpoll₁ : ¬ PollRaised es₁ := not_pollRaised hroles₁ (by decide)
  simp [unhindered_iff,hstored,hquiet.not_stored,hquiet₁.not_stored,hquiet.numbered,hquiet₁.numbered,hpoll,hpoll₁,
    hpoll₂,hchanged,hfinalized,hquiet.not_insertRaised,hquiet₁.not_insertRaised]

/-- A turn that holds the lock keeps its reply exactly where nothing after the reply hinders it. -/
theorem rest_stores {decision : RouteDecision} {s : Option AgentSession} {history : List Message} {result : AgentTurn → Option AgentSession → TurnResult}
    {out : Except Exn TurnResult} (hsane : Sane es)
    (h : Runs (do
      let turn ← runHandler d inp conv agent s history
      let session ← settleTurn d inp agent turn s
      storeReply inp conv decision agent turn session
      let _ ← perform Op.commit
      pure (result turn session)) es out)
    (hes : es = before ++ reply ch text t g auth bot :: rest) : Stored bot.text rest ↔ Unhindered rest := by
  have hsub : ∀ {xs : CallTrace}, rest = xs → xs ⊆ es := by
    rintro xs rfl e he
    rw [hes]
    exact List.mem_append_right _ (List.mem_cons_of_mem _ he)
  rcases Runs.of_bind h with ⟨e,hrun,-⟩ | ⟨turn,es₁,es₂,hrun,h₂,rfl⟩
  · -- the handler raised after the reply
    have hquiet : Quiet rest := fun e he => Op.adds_of_calm (hrun.all (runHandler_calm ..) e (hsub rfl he))
    obtain ⟨sid,hmem⟩ := (runHandler_heard hsane hrun hes).1.error e rfl
    exact iff_of_false hquiet.not_stored fun hun => hun.polled ⟨sid,e,hmem⟩
  rcases split_at hes with ⟨hs,hes₁,rfl⟩ | ⟨before₂,rfl,-⟩
  · obtain ⟨hheard,hsome⟩ := runHandler_heard (hsane.mono (List.subset_append_left es₁ es₂)) hrun hes₁
    obtain ⟨hpoll,htext,delta,hturn,hdelta⟩ := hheard.ok turn rfl
    obtain ⟨session,rfl⟩ := Option.isSome_iff_exists.mp hsome
    have hroles : Roles [.read,.channel,.pop,.mark] hs := by
      intro e he
      refine hrun.all (runHandler_calls ..).within e ?_
      rw [hes₁]
      exact List.mem_append_right _ (List.mem_cons_of_mem _ he)
    rw [← htext]
    rcases Runs.of_bind h₂ with ⟨e,hsettle,-⟩ | ⟨s,es₃,es₄,hsettle,h₄,rfl⟩
    · have hquiet : Quiet hs := hroles.quiet (by decide)
      have hquiet₂ : Quiet es₂ := fun e he => Op.adds_of_calm (hsettle.all (settleTurn_calm ..) e he)
      have hbeside : Beside hs := hroles.beside (by decide) (not_changed hroles (by decide))
      have hchanged : ¬ Changed .awaitingUser hs := not_changed hroles (by decide)
      refine iff_of_false (by simp [hquiet.not_stored,hquiet₂.not_stored]) fun hun => ?_
      have hfinal := (finalizeReturned_beside hbeside fun e => List.mem_append.trans or_comm).mp hun.finalized
      have happlied := (changed_append.mp hun.applied).resolve_left hchanged
      simpa using (settle_returns hturn hdelta hsettle).mpr ⟨happlied,hfinal⟩
    rcases Runs.of_bind h₄ with ⟨e,hstore,rfl⟩ | ⟨u,es₅,es₆,hstore,h₆,rfl⟩
    · exact settled_stores hroles hpoll hturn hdelta hsettle hstore
    · have hcommit : Roles [.commit,.unlock,.mark] es₆ := by
        have hw : Within [.commit] (do
            let _ ← perform Op.commit
            pure (result turn s) : Proc TurnResult) := Within.bind (Within.perform rfl) fun _ => trivial
        exact h₆.all (hw.mono (by decide))
      have hkept := settled_stores hroles hpoll hturn hdelta hsettle hstore
      obtain ⟨hstored,hun⟩ := @Roles.aside (hs ++ (es₃ ++ es₅)) es₆ hcommit turn.text
      simp only [List.append_assoc] at hstored hun
      rw [hstored,hun]
      exact hkept
  · refine absurd rfl (not_replied h₂ (All.bind ?_ fun s' => All.bind ?_ fun _ => ?_))
    · exact unsent_of_within (settleTurn_calls ..).within (by decide)
    · exact unsent_of_within (storeReply_calls ..).within (by decide)
    · exact All.bind ((all_perform _).mpr fun _ _ _ _ _ h => by cases h) fun _ => trivial

theorem handleTurnLocked_stores {out : Except Exn TurnResult} (hsane : Sane es)
    (h : Runs (handleTurnLocked d inp conv) es out) (hes : es = before ++ reply ch text t g auth bot :: rest) :
    Stored bot.text rest ↔ Unhindered rest := by
  obtain ⟨u,es₁,before₁,-,h₁,rfl⟩ :=
    reply_after h (unsent_of_within (recordUserMessage_calls ..).within (by decide)) hes
  obtain ⟨⟨decision,agent⟩,es₂,before₂,-,h₂,rfl⟩ :=
    reply_after h₁ (unsent_of_within (routeTurn_within ..) (by decide)) rfl
  obtain ⟨⟨s,history⟩,es₃,before₃,-,h₃,rfl⟩ :=
    reply_after h₂ (unsent_of_within (admitTurn_calls ..).within (by decide)) rfl
  obtain ⟨u',es₄,before₄,-,h₄,rfl⟩ :=
    reply_after h₃ ((all_perform _).mpr fun _ _ _ _ _ h => by cases h) rfl
  refine rest_stores (hsane.mono ?_) h₄ rfl
  intro e he
  rw [hes]
  simp only [List.append_assoc]
  exact List.mem_append_right _ (List.mem_append_right _ (List.mem_append_right _ (List.mem_append_right _ he)))

/-- Of a turn of which Mitra's reply was received, the text is inserted as an assistant's message exactly where
nothing between the reply and its insertion hinders it: the poll did not raise, the session was changed, a
finalisation that was begun returned, and the message was numbered and inserted. -/
theorem reply_kept_iff {out : Except Exn TurnResult} (hsane : Sane (before ++ reply ch text t g auth bot :: rest))
    (h : Runs (handleTurn d inp) (before ++ reply ch text t g auth bot :: rest) out) :
    Stored bot.text rest ↔ Unhindered rest := by
  obtain ⟨conv,es₁,before₁,-,h₁,rfl⟩ :=
    reply_after h (unsent_of_within (ConversationRepository.getOrCreate_calls ..).within (by decide)) rfl
  have hlock : Within [.lock] (tryLockConversation d conv.id) := Within.stmt rfl
  obtain ⟨locked,es₂,before₂,-,h₂,rfl⟩ := reply_after h₁ (unsent_of_within hlock (by decide)) rfl
  split at h₂
  · obtain ⟨r,r',es₃,es₄,hp,hfin,hes,-⟩ := Runs.of_ensuring h₂
    have hunlock : Roles [.commit,.unlock,.mark] es₄ :=
      hfin.all ((unlockConversation_within d conv.id).mono (by decide))
    rcases split_at hes.symm with ⟨rest',rfl,rfl⟩ | ⟨before₄,rfl,-⟩
    · obtain ⟨hstored,hun⟩ := @Roles.aside rest' es₄ hunlock bot.text
      rw [hstored,hun]
      refine handleTurnLocked_stores (hsane.mono ?_) hp rfl
      intro e he
      simp only [List.append_assoc]
      exact List.mem_append_right _ (List.mem_append_right _ (by simpa using List.mem_append_left es₄ he))
    · exact absurd rfl (not_replied hfin (unsent_of_within (unlockConversation_within d conv.id) (by decide)))
  · exact absurd rfl (not_replied h₂ trivial)

end Reply

/-- Every call goes through; this is what the poll answers. -/
def answers (poll : Except Exn Bool) : (o : Op) → Except Exn o.Ans
  | .isSessionCompleted _ => poll
  | .stmt (.getScoped ..) => .ok [Endings.conversation]
  | .stmt (.getOpenForConversation _) => .ok [Endings.interview]
  | .stmt (.recent ..) => .ok []
  | .stmt (.countRecentUser _) => .ok (0 : ℕ)
  | .stmt (.pin ..) => .ok ()
  | .stmt (.replacePlaceholderTitle ..) => .ok ()
  | .stmt (.tryAdvisoryLock _) => .ok true
  | .stmt (.advisoryUnlock _) => .ok true
  | o => Endings.answers o

/-- Mitra's REST interface is not available. -/
def refused : Exn := .mitra (.http "GET" "/api/companychat/" 503 none)

def turn : Proc TurnResult := handleTurn Sample.deployment Endings.input

/-- The text that the call inserts as an assistant's message. -/
def inserted : Op → Option String
  | .stmt (.insertMessage m) =>
    match m.role,m.content with
    | .assistant,.str text => some text
    | _,_ => none
  | _ => none

theorem inserted_eq_some_iff {o : Op} {text : String} :
    inserted o = some text ↔ ∃ m, o = .stmt (.insertMessage m) ∧ m.role = .assistant ∧ m.content = .str text := by
  unfold inserted
  constructor
  · intro h
    split at h
    · rename_i m
      split at h
      · rename_i text' hrole hcontent
        exact ⟨m,rfl,hrole,Option.some.inj h ▸ hcontent⟩
      · cases h
    · cases h
  · rintro ⟨m,rfl,hrole,hcontent⟩
    simp [hrole,hcontent]

/-- The calls from the one that sends the text. -/
def sent (poll : Except Exn Bool) : List Op := (turn.calls (answers poll)).dropWhile fun o => !Endings.sendsText o

/-- The run in which every call goes through: the reply, and the calls after it. -/
theorem turn_heard {poll : Except Exn Bool} (h : ((sent poll).head?.any Endings.sendsText) = true) :
    ∃ before ch text t g auth, (turn.calls (answers poll)).map (fun o => ⟨o,answers poll o⟩) =
      before ++ reply ch text t g auth { text := "Thank you." } ::
        (sent poll).tail.map fun o => Sigma.mk o (answers poll o) := by
  cases hsent : sent poll with
  | nil => simp [hsent] at h
  | cons o os =>
    rw [hsent] at h
    cases o with
    | sendAndAwaitTurn ch text t g auth =>
      refine ⟨((turn.calls (answers poll)).takeWhile fun o => !Endings.sendsText o).map fun o => ⟨o,answers poll o⟩,
        ch,text,t,g,auth,?_⟩
      nth_rewrite 1 [← @List.takeWhile_append_dropWhile _ (fun o => !Endings.sendsText o) (turn.calls (answers poll))]
      change List.map _ (_ ++ sent poll) = _
      rw [hsent,List.map_append,List.map_cons]
      rfl
    | _ => cases h

theorem sane_answers {α : Type} (p : Proc α) {poll : Except Exn Bool}
    (h : ∀ step, poll ≠ .error (.mitra (.turnTimeout step))) :
    Sane ((p.calls (answers poll)).map fun o => ⟨o,answers poll o⟩) := by
  have hanswer : ∀ {o : Op} {r : Except Exn o.Ans},
      ⟨o,r⟩ ∈ (p.calls (answers poll)).map (fun o => Sigma.mk o (answers poll o)) → answers poll o = r := by
    intro o r he
    obtain ⟨o',-,heq⟩ := List.mem_map.mp he
    cases heq
    rfl
  refine ⟨fun o e ho he => ?_,fun sid step he => h step (hanswer he)⟩
  have heq := hanswer he
  cases o with
  | stmt s => cases ho
  | _ => first | (cases ho; done) | cases heq

end ReplyKept

open ReplyKept

/-- Where every call goes through the reply is stored. -/
theorem reply_kept : ∃ rest, Stored "Thank you." rest ∧ Unhindered rest := by
  have hsent : (sent (.ok false)).head?.any Endings.sendsText = true := by decide +kernel
  obtain ⟨before,ch,text,t,g,auth,heq⟩ := turn_heard hsent
  have hrun := Runs.answered (answers (.ok false)) turn
  have hsane := @sane_answers _ turn (.ok false) (by simp)
  rw [heq] at hrun hsane
  have hstored : Stored "Thank you." ((sent (.ok false)).tail.map fun o => Sigma.mk o (answers (.ok false) o)) := by
    have hinsert : (sent (.ok false)).tail.any (fun o => inserted o = some "Thank you.") = true := by decide +kernel
    obtain ⟨o,hm,ho⟩ := List.any_eq_true.mp hinsert
    obtain ⟨m,rfl,hrole,hcontent⟩ := inserted_eq_some_iff.mp (of_decide_eq_true ho)
    exact ⟨m,hrole,hcontent,(3 : ℕ),List.mem_map.mpr ⟨_,hm,rfl⟩⟩
  exact ⟨_,hstored,(reply_kept_iff hsane hrun).mp hstored⟩

/-- The poll raises, and the reply is stored nowhere. -/
theorem reply_lost : ∃ before ch text t g auth bot rest out,
    Runs (handleTurn Sample.deployment Endings.input) (before ++ reply ch text t g auth bot :: rest) out ∧
    Sane (before ++ reply ch text t g auth bot :: rest) ∧ bot.text ≠ "" ∧ ¬ Stored bot.text rest := by
  have hsent : (sent (.error refused)).head?.any Endings.sendsText = true := by decide +kernel
  obtain ⟨before,ch,text,t,g,auth,heq⟩ := turn_heard hsent
  have hrun := Runs.answered (answers (.error refused)) turn
  have hsane := @sane_answers _ turn (.error refused) (by simp [refused])
  rw [heq] at hrun hsane
  refine ⟨before,ch,text,t,g,auth,_,_,_,hrun,hsane,by simp,?_⟩
  have hnone : (sent (.error refused)).tail.all (fun o => inserted o = none) = true := by decide +kernel
  rintro ⟨m,hrole,hcontent,k,hmem⟩
  obtain ⟨o,ho,hopen⟩ := List.mem_map.mp hmem
  obtain rfl : o = .stmt (.insertMessage m) := congrArg Sigma.fst hopen
  have hinserted := inserted_eq_some_iff.mpr ⟨m,rfl,hrole,hcontent⟩
  simpa [hinserted] using List.all_eq_true.mp hnone _ ho

end Saarathi
