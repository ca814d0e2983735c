import Saarathi.Appending
import Saarathi.Numbering
import Saarathi.TurnLock

/-!
# Numbered messages

A turn and a recovery raise their conversation's `message_count` and insert a
message with the new count as its `seq`. The notes say which number a request
owes, which turns were admitted in which order, and which turn each message
was inserted in.
-/

namespace Saarathi

open ReadCommitted Machine Program Program.Prog Interleaving

/-- A conversation counts its messages. -/
def messageNumbering : Numbering Conversation Message where
  count := Conversation.messageCount
  parent m := m.new.conversationId
  number m := m.new.seq

namespace Conversation

def Keyed (k : ℕ) (v : Conversation) : Prop := v.id = k

/-- A conversation is created under its id, and keeps it. -/
def KeepsId (k : ℕ) (o : Option Conversation) (v : Conversation) : Prop :=
  match o with
  | none => v.id = k
  | some u => v.id = u.id

theorem kept_keyed : Table.Kept KeepsId Keyed := by
  intro k o v h hk
  cases o with
  | none => exact h
  | some u => exact h.trans (hk u rfl)

abbrev Consistent (t : Table Conn Conversation) : Prop := Table.Consistent constraints KeepsId Keyed t

end Conversation

theorem Stmt.ConversationStep.keepsId {p : Pick} {s : Stmt} {k : ℕ} {o : Option Conversation} {v : Conversation}
    (h : s.ConversationStep p k o v) : Conversation.KeepsId k o v := by
  rcases h with ⟨user,-,rfl,rfl⟩ | ⟨u,rfl,-,hid,-⟩
  · rfl
  · exact hid

namespace Database

variable (db : Database)

/-- The `seq` values of a conversation's committed messages, in the order of insertion. -/
def seqs (c : ConversationId) : List ℕ :=
  db.messages.keys.filterMap fun k => messageNumbering.numberIn c (db.messages.committed k)

/-- The committed `message_count`. -/
def messageCount (c : ConversationId) : ℕ := messageNumbering.total (db.conversations.committed c)

/-- The messages of every conversation have the numbers from 1 to its count, each once. -/
def MessagesNumbered : Prop := ∀ c, (db.seqs c).Perm (List.range' 1 (db.messageCount c))

end Database

/-- A message that was inserted: its conversation's lock, and the turn that inserted it; a recovery
has none. -/
structure Appended where
  id : ℕ
  key : ℤ
  turn : Option ℕ

/-- The number that each request owes, the turns in the order of their admission, each with the lock
that admitted it, and the messages in the order of their insertion. -/
structure Admissions where
  owed : Conn → Option (ConversationId × ℕ) := fun _ => none
  admitted : ℕ := 0
  turn : Conn → Option (ℕ × ℤ) := fun _ => none
  appended : List Appended := []

namespace Op

/-- A number is owed from the bump of the count to the insert; a transaction that is undone owes nothing. -/
def owedAfter (owed : Option (ConversationId × ℕ)) : (o : Op) → Except Exn o.Ans → Option (ConversationId × ℕ)
  | .stmt (.nextSeqForUpdate c),.ok [n] => some (c,n)
  | .stmt (.insertMessage _),.ok _ => none
  | .stmt _,.error _ => none
  | .rollback,_ => none
  | _,_ => owed

/-- A turn is admitted by its lock, and over when the lock is given back. -/
def turnAfter (admitted : ℕ) (turn : Option (ℕ × ℤ)) : (o : Op) → Except Exn o.Ans → Option (ℕ × ℤ)
  | .stmt (.tryAdvisoryLock key),.ok true => some (admitted,key)
  | .stmt (.advisoryUnlock _),_ => none
  | _,_ => turn

def admits : (o : Op) → Except Exn o.Ans → ℕ
  | .stmt (.tryAdvisoryLock _),.ok true => 1
  | _,_ => 0

def appends (d : Deployment) (turn : Option (ℕ × ℤ)) : (o : Op) → Except Exn o.Ans → List Appended
  | .stmt (.insertMessage m),.ok id => [⟨id,d.turnLockKey m.conversationId,turn.map (·.1)⟩]
  | _,_ => []

/-- The calls that the notes follow. -/
def numbers : Op → Bool
  | .stmt (.nextSeqForUpdate _) => true
  | .stmt (.insertMessage _) => true
  | .stmt (.tryAdvisoryLock _) => true
  | .stmt (.advisoryUnlock _) => true
  | _ => false

theorem numbers_of_calm {o : Op} (h : o.calm = true) : o.numbers = false := by
  cases o with
  | stmt s => cases s <;> first | rfl | cases h
  | _ => rfl

variable {o : Op}

theorem owedAfter_of_not_numbers (h : o.numbers = false) (r : Except Exn o.Ans) : o.owedAfter none r = none := by
  cases o with
  | stmt s => cases s <;> first | (cases r <;> rfl) | cases h
  | _ => rfl

theorem turnAfter_of_not_numbers {n : ℕ} {turn : Option (ℕ × ℤ)} (h : o.numbers = false) (r : Except Exn o.Ans) :
    o.turnAfter n turn r = turn := by
  cases o with
  | stmt s => cases s <;> first | rfl | cases h
  | _ => rfl

theorem appends_of_not_numbers {d : Deployment} {turn : Option (ℕ × ℤ)} (h : o.numbers = false)
    (r : Except Exn o.Ans) : o.appends d turn r = [] := by
  cases o with
  | stmt s => cases s <;> first | rfl | cases h
  | _ => rfl

theorem owedAfter_error {s : Stmt} {e : Exn} (owed : Option (ConversationId × ℕ)) :
    Op.owedAfter owed (.stmt s) (.error e) = none := by
  cases s <;> rfl

end Op

def Admissions.after (d : Deployment) (x : Conn) (o : Op) (r : Except Exn o.Ans) (s : Admissions) : Admissions where
  owed := Function.update s.owed x (o.owedAfter (s.owed x) r)
  admitted := s.admitted + o.admits r
  turn := Function.update s.turn x (o.turnAfter s.admitted (s.turn x) r)
  appended := s.appended ++ o.appends d (s.turn x) r

/-- All requests, with notes of the messages' numbers. -/
def admissions (d : Deployment) :
    Interp (World × Admissions) Conn Req Choice World.EnvAct Op Op.Ans Exn Response :=
  (system d).noting fun _ x o r s => s.after d x o r

namespace MessageNumbers

variable {d : Deployment} {α : Type}

/-- What the notes say about one request. -/
structure Notes where
  owed : Option (ConversationId × ℕ)
  turn : Option (ℕ × ℤ)

/-- A message is inserted with the number that is owed to its conversation, and in a turn under the
conversation's lock. -/
def spec (d : Deployment) : Spec Op Op.Ans Exn Notes where
  pre o n := match o with
    | .stmt (.nextSeqForUpdate _) => n.owed = none
    | .stmt (.insertMessage m) => n.owed = some (m.conversationId,m.seq) ∧
        ∀ p, n.turn = some p → p.2 = d.turnLockKey m.conversationId
    | .stmt (.tryAdvisoryLock _) => n.turn = none
    | .commit => n.owed = none
    | _ => True
  post o n r n' := (o.sure = true → ∃ a, r = .ok a) ∧ n'.owed = o.owedAfter n.owed r ∧
    ∃ k, n'.turn = o.turnAfter k n.turn r

/-- Nothing is owed, and the turn is this one. -/
def Paid (turn : Option (ℕ × ℤ)) (n : Notes) : Prop := n.owed = none ∧ n.turn = turn

section Calls

variable {turn : Option (ℕ × ℤ)} {c : ConversationId}

theorem pre_of_not_numbers {o : Op} {n : Notes} (h : o.numbers = false) (hn : n.owed = none) :
    (spec d).pre o n := by
  cases o with
  | stmt s =>
    cases s with
    | nextSeqForUpdate c => cases h
    | insertMessage m => cases h
    | tryAdvisoryLock key => cases h
    | _ => trivial
  | commit => exact hn
  | _ => trivial

theorem call_paid {o : Op} (h : o.numbers = false) : Keeps.Call (spec d) (Paid turn) o := by
  rintro n ⟨hn,ht⟩ n₁ h₁
  obtain rfl : n = n₁ := h₁
  refine ⟨pre_of_not_numbers h hn,?_⟩
  rintro r n₂ ⟨-,hn₂,k,ht₂⟩
  rw [hn,Op.owedAfter_of_not_numbers h] at hn₂
  rw [Op.turnAfter_of_not_numbers h] at ht₂
  exact ⟨hn₂,ht₂.trans ht⟩

theorem calm_paid {p : Proc α} (h : Calm p) : Keeps (spec d) (Paid turn) p :=
  h.keeps fun _ ho => call_paid (Op.numbers_of_calm ho)

theorem stmt_paid {s : Stmt} (h : Op.numbers (.stmt s) = false) : Keeps (spec d) (Paid turn) (stmt s) :=
  Keeps.perform (call_paid h)

/-- The bump and the insert that follows it. -/
theorem append_paid {m : ℕ → NewMessage} {f : ℕ → Proc α} (hc : ∀ n, (m n).conversationId = c)
    (hseq : ∀ n, (m n).seq = n) (ht : ∀ p, turn = some p → p.2 = d.turnLockKey c)
    (hf : ∀ id, Keeps (spec d) (Paid turn) (f id)) : Keeps (spec d) (Paid turn) (do
      let seq ← ConversationRepository.nextSeqForUpdate c
      let id ← MessageRepository.insert (m seq)
      f id) := by
  intro n hn
  have hseq' : wp (spec d) (ConversationRepository.nextSeqForUpdate c) (fun r n' => match r with
      | .ok seq => n'.owed = some (c,seq) ∧ n'.turn = turn
      | .error _ => Paid turn n') n := by
    refine wp_bind.mpr (wp_perform.mpr fun n₁ h₁ => ?_)
    obtain rfl : n = n₁ := h₁
    refine ⟨hn.1,?_⟩
    rintro r n₂ ⟨-,hn₂,k,ht₂⟩
    have ht' : n₂.turn = turn := ht₂.trans hn.2
    rw [hn.1] at hn₂
    rcases r with e | (_ | ⟨seq,_ | ⟨seq',rest⟩⟩)
    · exact ⟨hn₂,ht'⟩
    · exact ⟨hn₂,ht'⟩
    · exact ⟨hn₂,ht'⟩
    · exact ⟨hn₂,ht'⟩
  refine wp_bind.mpr (wp_mono hseq' ?_)
  rintro (e | seq) n₁ h₁
  · exact h₁
  obtain ⟨ho,ht'⟩ := h₁
  refine wp_bind.mpr (wp_perform.mpr fun n₂ h₂ => ?_)
  obtain rfl : n₁ = n₂ := h₂
  refine ⟨⟨by rw [ho,hc,hseq],fun p hp => by rw [hc]; exact ht p (ht'.symm.trans hp)⟩,?_⟩
  rintro r n₃ ⟨-,hn₃,k,ht₃⟩
  have hpaid : Paid turn n₃ := by
    refine ⟨?_,ht₃.trans ht'⟩
    cases r <;> exact hn₃
  cases r with
  | error e => exact hpaid
  | ok id => exact hf id n₃ hpaid

end Calls

section Programs

variable {turn : Option (ℕ × ℤ)} {conv : Conversation}

theorem recordUserMessage_paid (inp : TurnInput) (ht : ∀ p, turn = some p → p.2 = d.turnLockKey conv.id) :
    Keeps (spec d) (Paid turn) (OrchestrationService.recordUserMessage inp conv) := by
  refine append_paid (fun n => rfl) (fun n => rfl) ht fun id => ?_
  split
  · exact stmt_paid rfl
  · have htitle : Keeps (spec d) (Paid turn) (OrchestrationService.conversationTitle inp.text) :=
      calm_paid (OrchestrationService.conversationTitle_calm _)
    exact Keeps.bind htitle fun title => Keeps.bind (stmt_paid rfl) fun _ =>
      Keeps.bind htitle fun title' => stmt_paid rfl

theorem storeReply_paid (inp : TurnInput) (decision : RouteDecision) (agent : RegisteredAgent) (turn' : AgentTurn)
    (session : Option AgentSession) (ht : ∀ p, turn = some p → p.2 = d.turnLockKey conv.id) :
    Keeps (spec d) (Paid turn) (OrchestrationService.storeReply inp conv decision agent turn' session) := by
  refine append_paid (fun n => rfl) (fun n => rfl) ht fun id => Keeps.bind ?_ fun _ => ?_
  · exact calm_paid (Calm.branch (OrchestrationService.bulkInsert_calm ..) (.pure _))
  split
  · refine Keeps.bind (stmt_paid rfl) fun _ => ?_
    exact Keeps.bind (calm_paid (OrchestrationService.agentFallbackTitle_calm agent)) fun title => stmt_paid rfl
  · exact Keeps.bind (calm_paid (OrchestrationService.conversationTitle_calm _)) fun title => stmt_paid rfl

theorem storeRecovered_paid (session : AgentSession) (agent : RegisteredAgent) (result : Reconciliation) :
    Keeps (spec d) (Paid none) (OrchestrationService.storeRecovered session agent result) := by
  refine append_paid (fun n => rfl) (fun n => rfl) (fun p hp => by cases hp) fun id => ?_
  have happly := (SessionService.apply_calls session { state := .awaitingUser }).within
  refine Keeps.bind (calm_paid (.of_within happly (by decide))) fun updated => ?_
  refine Keeps.bind (stmt_paid rfl) fun _ => ?_
  exact Keeps.bind (calm_paid (.perform rfl)) fun _ => Keeps.pure _

theorem handleTurnLocked_paid (inp : TurnInput) (ht : ∀ p, turn = some p → p.2 = d.turnLockKey conv.id) :
    Keeps (spec d) (Paid turn) (OrchestrationService.handleTurnLocked d inp conv) := by
  have hcommit : Keeps (spec d) (Paid turn) (perform Op.commit : Proc Unit) := calm_paid (.perform rfl)
  refine Keeps.bind (recordUserMessage_paid inp ht) fun _ => ?_
  refine Keeps.bind (calm_paid (OrchestrationService.routeTurn_calm ..)) ?_
  rintro ⟨decision,agent⟩
  refine Keeps.bind (calm_paid (OrchestrationService.admitTurn_calm ..)) ?_
  rintro ⟨session,history⟩
  refine Keeps.bind hcommit fun _ => ?_
  refine Keeps.bind (calm_paid (OrchestrationService.runHandler_calm ..)) fun turn' => ?_
  refine Keeps.bind (calm_paid (OrchestrationService.settleTurn_calm ..)) fun session => ?_
  refine Keeps.bind (storeReply_paid inp decision agent turn' session ht) fun _ => ?_
  exact Keeps.bind hcommit fun _ => Keeps.pure _

/-- The lock is given back, whether that succeeds or not. -/
theorem unlock_paid (n : Notes) (hn : n.owed = none) :
    wp (spec d) (OrchestrationService.unlockConversation d conv.id) (fun _ n' => Paid none n') n := by
  refine wp_bind.mpr (wp_attempt.mpr (wp_perform.mpr fun n₁ h₁ => ⟨trivial,?_⟩))
  obtain rfl : n = n₁ := h₁
  rintro r n₂ ⟨-,hn₂,k,ht₂⟩
  refine ⟨?_,ht₂⟩
  cases r with
  | error e => exact hn₂
  | ok b => exact hn₂.trans hn

theorem handleTurn_paid (inp : TurnInput) : Keeps (spec d) (Paid none) (OrchestrationService.handleTurn d inp) := by
  have hget : Keeps (spec d) (Paid none) (ConversationRepository.getOrCreate inp.conversationId inp.user) :=
    calm_paid (.of_within (ConversationRepository.getOrCreate_calls ..).within (by decide))
  refine Keeps.bind hget fun conv n hn => ?_
  refine wp_bind.mpr (wp_perform.mpr fun n₁ h₁ => ?_)
  obtain rfl : n = n₁ := h₁
  refine ⟨hn.2,?_⟩
  rintro r n₂ ⟨-,hn₂,k,ht₂⟩
  rw [hn.1] at hn₂
  rw [hn.2] at ht₂
  rcases r with e | locked
  · exact ⟨hn₂,ht₂⟩
  cases locked with
  | false => exact ⟨hn₂,ht₂⟩
  | true =>
    have hin : Paid (some (k,d.turnLockKey conv.id)) n₂ := ⟨hn₂,ht₂⟩
    have hkey : ∀ p, some (k,d.turnLockKey conv.id) = some p → p.2 = d.turnLockKey conv.id := by
      rintro p ⟨⟩
      rfl
    refine wp_ensuring.mpr (wp_mono (handleTurnLocked_paid inp hkey n₂ hin) fun r' n₃ h₃ => ?_)
    refine wp_mono (unlock_paid n₃ h₃.1) ?_
    rintro (e | u) n₄ h₄
    · exact h₄
    · exact h₄

theorem sure : Routes.Sure (spec d) := by
  rintro o n r n' ho ⟨hsure,-⟩
  exact hsure ho

theorem prog_paid (req : Req) : Keeps (spec d) (Paid none) (req.prog d) :=
  Req.keeps_prog sure (fun _ ho => call_paid (Op.numbers_of_calm ho)) handleTurn_paid storeRecovered_paid req

end Programs

end MessageNumbers

/-- Of two messages, the second was not inserted in an earlier turn of the same lock. -/
def Appended.Follows (e e' : Appended) : Prop :=
  e.key = e'.key → ∀ n n', e.turn = some n → e'.turn = some n' → n ≤ n'

/-- The notes are those of this database: what is owed, who holds which lock, and that the messages
are numbered in the order of their insertion. -/
structure Admissions.Fit (d : Deployment) (db : Database) (s : Admissions) : Prop where
  conversations : Conversation.Consistent db.conversations
  numbered : Numbered messageNumbering db.conversations db.messages s.owed
  stopped : ∀ x, db.tx x ≠ .active → s.owed x = none
  locked : ∀ x n key, s.turn x = some (n,key) → 0 < db.locks.held x key
  admitted : ∀ x n key, s.turn x = some (n,key) → n < s.admitted
  past : ∀ e ∈ s.appended, ∀ n, e.turn = some n → n < s.admitted
  latest : ∀ x n key, s.turn x = some (n,key) → ∀ e ∈ s.appended, e.key = key → ∀ n', e.turn = some n' → n' ≤ n
  listed : ∀ e ∈ s.appended, e.id ∈ db.messages.keys
  key : ∀ e ∈ s.appended, ∀ m, db.messages.Version e.id m → e.key = d.turnLockKey m.new.conversationId
  ordered : s.appended.Pairwise fun e e' => messageNumbering.Before db.messages e.id e'.id ∧ e.Follows e'

namespace Admissions

variable {d : Deployment} {x : Conn} {db db' : Database} {s : Admissions} {o : Op} {r : Except Exn o.Ans}

/-- Nothing was ever numbered, or all of it was committed. -/
theorem fit_start {w : World} (hw : w.AtRest) (hconv : w.db.conversations.Settled Conversation.constraints Conversation.Keyed)
    (hnum : w.db.MessagesNumbered) : Fit d w.db {} where
  conversations := hconv.consistent
  numbered := by
    refine Numbered.of_clean hw.messages hw.conversations fun c => ?_
    refine Tally.of_perm (hnum c) fun k n hk => ?_
    by_contra hmem
    have hnone : w.db.messages.committed k = none := by
      simp [Table.committed,Numbered.row_of_not_mem hmem]
    rw [hnone] at hk
    cases hk
  stopped _ _ := rfl
  locked _ _ _ h := by cases h
  admitted _ _ _ h := by cases h
  past _ h := by cases h
  latest _ _ _ h := by cases h
  listed _ h := by cases h
  key _ h := by cases h
  ordered := List.Pairwise.nil

/-- A statement that is no bump leaves the counts alone. -/
theorem keepsCount_of_effect {s : Stmt} {p : Pick} {a : s.Ans} (h : s.effect d.adapt db x p = .ok (a,db'))
    (hs : ∀ c, s ≠ .nextSeqForUpdate c) : Table.Wrote Conversation.constraints
      (fun _ o v => messageNumbering.count v = messageNumbering.total o) x db.conversations db'.conversations := by
  rcases hc : s.conversation with _ | c
  · refine (Stmt.frame_of_effect s h).conversations.wrote.mono ?_
    rintro k o v (⟨user,rfl,rfl,rfl⟩ | ⟨u,-,hu,-⟩)
    · rfl
    · rw [hc] at hu
      cases hu
  · obtain ⟨cs,hu⟩ := Stmt.updateWhere_of_effect hc h
    refine (Table.once_of_updateWhere hu).wrote.mono ?_
    rintro k o v ⟨u,rfl,-,rfl⟩
    cases s with
    | nextSeqForUpdate c' => exact absurd rfl (hs c')
    | touch c' titleFrom => cases titleFrom <;> rfl
    | _ => rfl

/-- A statement that is no insert leaves the messages alone. -/
theorem messages_of_effect {s : Stmt} {p : Pick} {a : s.Ans} (h : s.effect d.adapt db x p = .ok (a,db'))
    (hs : ∀ m, s ≠ .insertMessage m) : db'.messages = db.messages :=
  (Stmt.frame_of_effect s h).messages.wrote.eq fun _ _ _ hv => hs _ hv.1

/-- The bump raises the count of the conversation's row, if there is one, and answers with it. -/
theorem numbered_bump {p : Pick} {c : ConversationId} {rows : List ℕ} (hf : s.Fit d db) (ho : s.owed x = none)
    (h : (Stmt.nextSeqForUpdate c).effect d.adapt db x p = .ok (rows,db')) :
    Numbered messageNumbering db'.conversations db'.messages
      (Function.update s.owed x (Op.owedAfter none (.stmt (.nextSeqForUpdate c)) (.ok rows))) := by
  have hmsg : db'.messages = db.messages := messages_of_effect h fun m hm => by cases hm
  obtain ⟨cs,t,ht,hrows,rfl⟩ := Database.updateConversations_ok h
  have hsame : Function.update s.owed x none = s.owed := by
    rw [← ho]
    exact Function.update_eq_self x s.owed
  have hone : ∀ k u, db.conversations.view x k = some u → decide (u.id = c) = true → k = c := fun k u hu hk => by
    have hkey : u.id = k := (hf.conversations.written x k u hu).2
    rw [← hkey]
    exact of_decide_eq_true hk
  rcases Table.updateWhere_one hone ht with ⟨rfl,-,hrow⟩ | ⟨u,hu,-,rfl,hrow,hother⟩
  · subst hrows
    change Numbered _ _ _ (Function.update s.owed x none)
    rw [hsame]
    exact hf.numbered.of_rows hrow
  · subst hrows
    change Numbered _ _ _ (Function.update s.owed x (some (c,u.messageCount + 1)))
    have hl : (db.conversations.row c).lockedFor x = false :=
      (Table.once_of_updateWhere ht).wrote.not_lockedFor hrow
    have htaken := hf.numbered.take (v := { u with messageCount := u.messageCount + 1 }) hl ho
      (by rw [hu]; rfl)
    refine htaken.of_rows fun k => ?_
    by_cases hk : k = c
    · subst hk
      rw [hrow,Table.row_put_self]
    · rw [hother k hk,Table.row_put_of_ne x db.conversations _ hk]

/-- What an insert adds to the messages. -/
theorem insert_ok {p : Pick} {m : NewMessage} {id : ℕ}
    (h : (Stmt.insertMessage m).effect d.adapt db x p = .ok (id,db')) :
    ∃ v : Message, v.new = m ∧ id ∉ db.messages.keys ∧ db'.messages = db.messages.put x id v ∧
      db'.conversations = db.conversations := by
  simp only [Stmt.effect] at h
  split at h
  · cases h
  · rename_i content hcontent
    obtain ⟨t,ht,rfl⟩ := Database.onMessages_ok h
    obtain ⟨rfl,hid,hw⟩ := Database.insertRow_ok ht
    exact ⟨_,rfl,hid,(Table.write_ok hw).1,rfl⟩

/-- The invariant of the numbers, over one call. -/
theorem numbered_call (hf : s.Fit d db) (hpre : (MessageNumbers.spec d).pre o ⟨s.owed x,s.turn x⟩)
    (h : DbMove d.adapt x db o r db') :
    Numbered messageNumbering db'.conversations db'.messages (Function.update s.owed x (o.owedAfter (s.owed x) r)) := by
  have hsame : ∀ owed, owed = s.owed x → Function.update s.owed x owed = s.owed := by
    rintro owed rfl
    exact Function.update_eq_self x s.owed
  cases h with
  | @stmt st p a db' htx h =>
    cases st with
    | nextSeqForUpdate c =>
      have ho : s.owed x = none := hpre
      rw [ho]
      exact numbered_bump hf ho h
    | insertMessage m =>
      obtain ⟨v,rfl,hid,hmsg,hconv⟩ := insert_ok h
      rw [hmsg,hconv]
      exact hf.numbered.give hid hpre.1
    | _ =>
      rw [messages_of_effect h (fun m hm => by cases hm)]
      change Numbered _ _ _ (Function.update s.owed x (s.owed x))
      rw [hsame _ rfl]
      exact hf.numbered.keep (keepsCount_of_effect h fun c hc => by cases hc)
  | rejected htx =>
    rw [Op.owedAfter_error]
    exact hf.numbered.rollback x
  | refused htx =>
    rw [Op.owedAfter_error,hsame _ (hf.stopped x htx).symm]
    exact hf.numbered
  | commit htx =>
    change Numbered _ _ _ (Function.update s.owed x (s.owed x))
    rw [hsame _ rfl]
    exact hf.numbered.commit hpre
  | commitRejected htx =>
    have ho : s.owed x = none := hpre
    change Numbered _ _ _ (Function.update s.owed x (s.owed x))
    rw [ho]
    exact hf.numbered.rollback x
  | commitAborted htx =>
    have ho : s.owed x = none := hpre
    change Numbered _ _ _ (Function.update s.owed x (s.owed x))
    rw [ho]
    exact hf.numbered.rollback x
  | commitRefused htx =>
    change Numbered _ _ _ (Function.update s.owed x (s.owed x))
    rw [hsame _ rfl]
    exact hf.numbered
  | rollback => exact hf.numbered.rollback x
  | other hs hc hr =>
    have howed : o.owedAfter (s.owed x) r = s.owed x := by
      cases o with
      | stmt st => exact absurd rfl (hs st)
      | commit => exact absurd rfl hc
      | rollback => exact absurd rfl hr
      | _ => rfl
    rw [howed,hsame _ rfl]
    exact hf.numbered

/-- A transaction that has stopped owes nothing. -/
theorem stopped_call (hf : s.Fit d db) (hpre : (MessageNumbers.spec d).pre o ⟨s.owed x,s.turn x⟩)
    (h : DbMove d.adapt x db o r db') (y : Conn) (hy : db'.tx y ≠ .active) :
    Function.update s.owed x (o.owedAfter (s.owed x) r) y = none := by
  by_cases hyx : y = x
  · subst hyx
    rw [Function.update_self]
    cases h with
    | stmt htx h => exact absurd (by rw [(Stmt.frame_of_effect _ h).tx,htx]) hy
    | rejected htx => exact Op.owedAfter_error _
    | refused htx => exact Op.owedAfter_error _
    | commit htx => exact absurd htx hy
    | commitRejected htx => exact hpre
    | commitAborted htx => exact hpre
    | commitRefused htx => exact hpre
    | rollback => rfl
    | other hs hc hr =>
      have ho : s.owed y = none := hf.stopped y hy
      rw [ho]
      cases o with
      | stmt st => exact absurd rfl (hs st)
      | commit => exact absurd rfl hc
      | rollback => exact absurd rfl hr
      | _ => rfl
  · rw [Function.update_of_ne hyx]
    exact hf.stopped y (by rwa [← h.tx_of_ne hyx])

/-- Where the turn of a request comes from. -/
theorem turnAfter_cases {n k : ℕ} {turn : Option (ℕ × ℤ)} {key : ℤ} (h : o.turnAfter k turn r = some (n,key)) :
    (n = k ∧ o.lockAnswer r = some (key,true) ∧ o.admits r = 1) ∨
      (turn = some (n,key) ∧ ∀ key', o ≠ .stmt (.advisoryUnlock key')) := by
  cases o with
  | stmt st =>
    cases st with
    | tryAdvisoryLock key' =>
      rcases r with e | (_ | _)
      · exact .inr ⟨h,fun _ hs => by cases hs⟩
      · exact .inr ⟨h,fun _ hs => by cases hs⟩
      · obtain ⟨rfl,rfl⟩ := Prod.mk.inj (Option.some.inj h)
        exact .inl ⟨rfl,rfl,rfl⟩
    | advisoryUnlock key' => cases h
    | _ => exact .inr ⟨h,fun _ hs => by cases hs⟩
  | _ => exact .inr ⟨h,fun _ hs => by cases hs⟩

/-- Whoever is in a turn holds its lock. -/
theorem locked_call (hf : s.Fit d db) (h : DbMove d.adapt x db o r db') (y : Conn) (n : ℕ) (key : ℤ)
    (hy : Function.update s.turn x (o.turnAfter s.admitted (s.turn x) r) y = some (n,key)) :
    0 < db'.locks.held y key := by
  by_cases hyx : y = x
  · subst hyx
    rw [Function.update_self] at hy
    rcases turnAfter_cases hy with ⟨-,hlock,-⟩ | ⟨hturn,ho⟩
    · rw [h.held_of_lockAnswer hlock]
      omega
    · exact lt_of_lt_of_le (hf.locked y n key hturn) (h.held_le ho)
  · rw [Function.update_of_ne hyx] at hy
    rw [h.held_of_ne hyx]
    exact hf.locked y n key hy

theorem admitted_call (hf : s.Fit d db) (y : Conn) (n : ℕ) (key : ℤ)
    (hy : Function.update s.turn x (o.turnAfter s.admitted (s.turn x) r) y = some (n,key)) :
    n < s.admitted + o.admits r := by
  by_cases hyx : y = x
  · subst hyx
    rw [Function.update_self] at hy
    rcases turnAfter_cases hy with ⟨rfl,-,hone⟩ | ⟨hturn,-⟩
    · omega
    · have hn := hf.admitted y n key hturn
      omega
  · rw [Function.update_of_ne hyx] at hy
    have hn := hf.admitted y n key hy
    omega

/-- No message that was there before is of a later turn than the one that the lock admits. -/
theorem latest_call (hf : s.Fit d db) (y : Conn) (n : ℕ) (key : ℤ)
    (hy : Function.update s.turn x (o.turnAfter s.admitted (s.turn x) r) y = some (n,key)) (e : Appended)
    (he : e ∈ s.appended) (hkey : e.key = key) (n' : ℕ) (hn' : e.turn = some n') : n' ≤ n := by
  have hpast := hf.past e he n' hn'
  by_cases hyx : y = x
  · subst hyx
    rw [Function.update_self] at hy
    rcases turnAfter_cases hy with ⟨rfl,-,-⟩ | ⟨hturn,-⟩
    · omega
    · exact hf.latest y n key hturn e he hkey n' hn'
  · rw [Function.update_of_ne hyx] at hy
    exact hf.latest y n key hy e he hkey n' hn'

/-- A call that inserts no message leaves no new version of one. -/
theorem version_call (h : DbMove d.adapt x db o r db') (happ : ∀ turn, o.appends d turn r = []) {k : ℕ}
    {m : Message} (hm : db'.messages.Version k m) : db.messages.Version k m := by
  have hmove : ∀ {t : Table Conn Message}, Table.Move Message.constraints (fun _ _ _ => False) x db.messages t →
      t.Version k m → db.messages.Version k m := fun ht hv => by
    rcases ht.version hv with hold | ⟨-,hfalse⟩
    · exact hold
    · exact hfalse.elim
  cases h with
  | @stmt st p a db' htx h =>
    rw [messages_of_effect h] at hm
    · exact hm
    · rintro m' rfl
      cases happ none
  | refused htx => exact hm
  | commit htx => exact hmove .commit hm
  | commitRefused htx => exact hm
  | other hs hc hr => exact hm
  | _ => exact hmove .rollback hm

theorem mem_keys_call (h : DbMove d.adapt x db o r db') {k : ℕ} (hk : k ∈ db.messages.keys) :
    k ∈ db'.messages.keys :=
  (h.messages (T := fun _ _ _ => True) fun _ _ _ _ _ _ => trivial).mem_keys hk

/-- The calls that insert no message. -/
theorem fit_call_of_not_appends (hf : s.Fit d db) (hpre : (MessageNumbers.spec d).pre o ⟨s.owed x,s.turn x⟩)
    (h : DbMove d.adapt x db o r db') (happ : ∀ turn, o.appends d turn r = []) :
    (s.after d x o r).Fit d db' := by
  have hsame : (s.after d x o r).appended = s.appended := by
    simp only [after,happ,List.append_nil]
  refine ⟨?_,numbered_call hf hpre h,stopped_call hf hpre h,locked_call hf h,admitted_call hf,?_,?_,?_,?_,?_⟩
  · exact hf.conversations.move Conversation.kept_keyed (h.conversations fun _ _ _ _ _ _ hv => hv.keepsId)
  · intro e he n hn
    rw [hsame] at he
    exact Nat.lt_of_lt_of_le (hf.past e he n hn) (Nat.le_add_right ..)
  · intro y n key hy e he
    rw [hsame] at he
    exact latest_call hf y n key hy e he
  · intro e he
    rw [hsame] at he
    exact mem_keys_call h (hf.listed e he)
  · intro e he m hm
    rw [hsame] at he
    exact hf.key e he m (version_call h happ hm)
  · rw [hsame]
    exact hf.ordered.imp fun hb =>
      ⟨hb.1.of_versions (fun _ => version_call h happ) fun _ => version_call h happ,hb.2⟩

/-- An insert: the message gets the largest number of its conversation, in the latest turn of its lock. -/
theorem fit_call_insert {m : NewMessage} {id : ℕ} (hf : s.Fit d db)
    (hpre : (MessageNumbers.spec d).pre (.stmt (.insertMessage m)) ⟨s.owed x,s.turn x⟩)
    (h : DbMove d.adapt x db (.stmt (.insertMessage m)) (.ok id) db') :
    (s.after d x (.stmt (.insertMessage m)) (.ok id)).Fit d db' := by
  obtain ⟨v,rfl,hid,hmsg,-⟩ : ∃ v : Message, v.new = m ∧ id ∉ db.messages.keys ∧
      db'.messages = db.messages.put x id v ∧ db'.conversations = db.conversations := by
    generalize hr : (Except.ok id : Except Exn (Op.Ans (.stmt (.insertMessage m)))) = r at h
    cases h with
    | stmt htx h =>
      obtain rfl := Except.ok.inj hr
      exact insert_ok h
    | rejected htx => cases hr
    | refused htx => cases hr
    | other hs hc hr => exact absurd rfl (hs _)
  obtain ⟨howed,hturn⟩ := hpre
  let e' : Appended := ⟨id,d.turnLockKey v.new.conversationId,(s.turn x).map (·.1)⟩
  have hlist : (s.after d x (.stmt (.insertMessage v.new)) (.ok id)).appended = s.appended ++ [e'] := rfl
  have hne : ∀ e ∈ s.appended, e.id ≠ id := fun e he heq => hid (heq ▸ hf.listed e he)
  have hold : ∀ e ∈ s.appended, ∀ m', db'.messages.Version e.id m' → db.messages.Version e.id m' := by
    intro e he m' hm'
    rw [hmsg] at hm'
    rcases Table.version_put hm' with hm' | ⟨heq,-⟩
    · exact hm'
    · exact absurd heq (hne e he)
  refine ⟨?_,numbered_call hf ⟨howed,hturn⟩ h,stopped_call hf ⟨howed,hturn⟩ h,locked_call hf h,admitted_call hf,?_,?_,?_,?_,?_⟩
  · exact hf.conversations.move Conversation.kept_keyed (h.conversations fun _ _ _ _ _ _ hv => hv.keepsId)
  · intro e he n hn
    rw [hlist] at he
    rcases List.mem_append.mp he with he | he
    · exact hf.past e he n hn
    · obtain rfl := List.mem_singleton.mp he
      obtain ⟨p,hp,rfl⟩ := Option.map_eq_some_iff.mp hn
      exact hf.admitted x p.1 p.2 hp
  · intro y n key hy e he hkey n' hn'
    rw [hlist] at he
    rcases List.mem_append.mp he with he | he
    · exact latest_call hf y n key hy e he hkey n' hn'
    · obtain rfl := List.mem_singleton.mp he
      obtain ⟨p,hp,rfl⟩ := Option.map_eq_some_iff.mp hn'
      have hsame : (s.after d x (.stmt (.insertMessage v.new)) (.ok id)).turn = s.turn := Function.update_eq_self ..
      rw [hsame] at hy
      -- nobody else is in a turn of this lock
      have hpkey : p.2 = key := (hturn p hp).trans hkey
      have hyx : y = x := by
        refine Locks.holder_unique (hf.locked y n key hy) ?_
        rw [← hpkey]
        exact hf.locked x p.1 p.2 hp
      subst hyx
      rw [hp] at hy
      obtain rfl := Option.some.inj hy
      exact le_rfl
  · intro e he
    rw [hlist] at he
    rcases List.mem_append.mp he with he | he
    · exact mem_keys_call h (hf.listed e he)
    · obtain rfl := List.mem_singleton.mp he
      exact Table.mem_keys_of_view (y := x) (v := v) (by rw [hmsg]; exact Table.view_put_self ..)
  · intro e he m' hm'
    rw [hlist] at he
    rcases List.mem_append.mp he with he | he
    · exact hf.key e he m' (hold e he m' hm')
    · obtain rfl := List.mem_singleton.mp he
      rw [hmsg] at hm'
      rcases Table.version_put hm' with hm' | ⟨-,rfl⟩
      · simp [Table.Version,e',Numbered.row_of_not_mem hid] at hm'
      · rfl
  · rw [hlist]
    refine List.pairwise_append.mpr ⟨?_,List.pairwise_singleton ..,?_⟩
    · refine hf.ordered.imp_of_mem fun he₁ he₂ hb => ⟨hb.1.of_versions (hold _ he₁) (hold _ he₂),hb.2⟩
    · intro e he e₂ he₂
      obtain rfl := List.mem_singleton.mp he₂
      refine ⟨?_,fun hkey n n' hn hn' => ?_⟩
      · rw [hmsg]
        exact hf.numbered.before_of_owed howed hid (hne e he)
      · obtain ⟨p,hp,rfl⟩ := Option.map_eq_some_iff.mp hn'
        exact hf.latest x p.1 p.2 hp e he (hkey.trans (hturn p hp).symm) n hn

/-- Every call keeps the notes those of the database. -/
theorem fit_call (hf : s.Fit d db) (hpre : (MessageNumbers.spec d).pre o ⟨s.owed x,s.turn x⟩)
    (h : DbMove d.adapt x db o r db') : (s.after d x o r).Fit d db' := by
  by_cases hn : o.numbers = true
  · cases o with
    | stmt st =>
      cases st with
      | insertMessage m =>
        cases r with
        | error e => exact fit_call_of_not_appends hf hpre h fun _ => rfl
        | ok id => exact fit_call_insert hf hpre h
      | nextSeqForUpdate c => exact fit_call_of_not_appends hf hpre h fun _ => rfl
      | tryAdvisoryLock key => exact fit_call_of_not_appends hf hpre h fun _ => rfl
      | advisoryUnlock key => exact fit_call_of_not_appends hf hpre h fun _ => rfl
      | _ => cases hn
    | _ => cases hn
  · exact fit_call_of_not_appends hf hpre h fun _ => Op.appends_of_not_numbers (by simpa using hn) r

end Admissions

namespace MessageNumbers

variable {d : Deployment}

/-- Each request is verified against what the notes say about it. -/
def outline (d : Deployment) : Outline (admissions d) anyAct Notes where
  loc w x := ⟨w.2.owed x,w.2.turn x⟩
  spec _ := spec d
  G w := w.2.Fit d w.1.db
  Free _ n := Paid none n
  Q _ _ n := Paid none n
  rely_refl _ _ := rfl
  rely_trans _ _ _ _ h h' := h.trans h'
  free_rely _ _ _ h hr := by
    obtain rfl := hr
    exact h
  free_end _ _ _ h := h
  begin_ok c x req hG hfree _ := ⟨hG,prog_paid req _ hfree,fun _ _ => rfl⟩
  exec_ok := by
    intro c x o k ch r w hG hx _ hpre he
    obtain ⟨he,hw⟩ := exec_noting he
    have hdb := World.dbMove_of_exec he
    refine ⟨?_,⟨fun hsure => ?_,?_,c.world.2.admitted,?_⟩,fun y hy => ?_⟩
    · rw [hw]
      exact Admissions.fit_call hG hpre hdb
    · obtain ⟨done,w₁,hp,-⟩ := World.performed_of_exec he
      exact hp.sure hsure
    · rw [hw]
      exact Function.update_self ..
    · rw [hw]
      exact Function.update_self ..
    · rw [hw]
      simp only [spec,Admissions.after,Function.update_of_ne hy]
  env_ok := by
    intro c e w hG _ he
    obtain ⟨he,hw⟩ := env_noting he
    have hf := World.envFrame he
    rw [hw,hf.db]
    exact ⟨hG,fun y => rfl⟩

end MessageNumbers

/-- In every committed state of every run, the messages of a conversation have the numbers from 1 to its
`message_count`, each once, and those of a turn that was admitted later have larger ones. -/
theorem messages_numbered {d : Deployment} {w : World} {c : Interleaving.Config (World × Admissions) Conn Op Op.Ans Exn Response}
    (hw : w.AtRest) (hconv : w.db.conversations.Settled Conversation.constraints Conversation.Keyed)
    (hnum : w.db.MessagesNumbered) (h : Reach (step (admissions d)) anyAct (idle (w,{})) c) :
    c.world.1.db.MessagesNumbered ∧
      ∀ e ∈ c.world.2.appended, ∀ e' ∈ c.world.2.appended, ∀ n n', e.turn = some n → e'.turn = some n' → n < n' →
        ∀ m m', c.world.1.db.messages.committed e.id = some m → c.world.1.db.messages.committed e'.id = some m' →
          m.new.conversationId = m'.new.conversationId → m.new.seq < m'.new.seq := by
  have hf : c.world.2.Fit d c.world.1.db :=
    ((MessageNumbers.outline d).inv_of_reach h (Admissions.fit_start hw hconv hnum) fun _ => ⟨rfl,rfl⟩).1
  refine ⟨hf.numbered.perm,?_⟩
  intro e he e' he' n n' hn hn' hlt m m' hm hm' hc
  have hkey : e.key = e'.key := by
    rw [hf.key e he m (.inl hm),hf.key e' he' m' (.inl hm'),hc]
  have hne : e ≠ e' := by
    rintro rfl
    rw [hn] at hn'
    have := Option.some.inj hn'
    omega
  -- one of the two was inserted first, and it was not the one of the later turn
  let R (e e' : Appended) : Prop := messageNumbering.Before c.world.1.db.messages e.id e'.id ∧ e.Follows e'
  have hsymm : Std.Symm fun a b => R a b ∨ R b a := ⟨fun a b hab => hab.symm⟩
  have hpair : c.world.2.appended.Pairwise fun a b => R a b ∨ R b a := hf.ordered.imp fun hab => .inl hab
  rcases hpair.forall he he' hne with ⟨hbefore,-⟩ | ⟨-,hfollows⟩
  · exact hbefore m m' (.inl hm) (.inl hm') hc
  · have hle := hfollows hkey.symm n' n hn' hn
    omega

/-- Two turns on one conversation. -/
theorem messages_numbered_twice : ∃ c : Interleaving.Config (World × Admissions) Conn Op Op.Ans Exn Response,
    (c.world.1.db.seqs 0 = [1,2,3,4] ∧ c.world.2.appended.map (·.turn) = [some 0,some 0,some 1,some 1]) ∧
      c.world.1.db.MessagesNumbered := by
  let answer (w : World × Admissions) (o : Op) : Choice := Sample.smooth w.1 o
  have hrun : ((play (admissions Sample.deployment) anyAct
      [.act (.start 0 (Sample.turn "hi" "assistant" .absent)),.serve 0 answer 60,
        .act (.start 1 (Sample.turn "again" "assistant" (.id 0))),.serve 1 answer 60]
      (idle (Sample.world,{}))).any fun c => decide (c.world.1.db.seqs 0 = [1,2,3,4]) &&
        decide (c.world.2.appended.map (·.turn) = [some 0,some 0,some 1,some 1])) = true := by
    decide +kernel
  obtain ⟨c,hr,hP⟩ := exists_reach_of_play hrun
  have hw : Sample.world.AtRest := by constructor <;> intro <;> rfl
  exact ⟨c,by simpa using hP,(messages_numbered hw Table.settled_empty (fun _ => List.Perm.refl _) hr).1⟩

end Saarathi
