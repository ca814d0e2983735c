import Saarathi.MessageNumbers
import Mathlib.Data.List.DropRight

/-!
# The message of a turn

A turn stores its user's message before it is routed, in the transaction that
then counts the conversation's messages and reads its history. The notes follow
the message to the commit that admits the turn, and record what was counted.
-/

namespace Saarathi

open ReadCommitted Machine Program Program.Prog Interleaving

/-- The user says `text` in the conversation. -/
structure Message.Says (c : ConversationId) (text : Json) (m : Message) : Prop where
  role : m.new.role = .user
  conversationId : m.new.conversationId = c
  content : m.new.content = text

/-- How far a request is with the message of a turn: it is stored, the history is read after `before`,
all of it is committed. -/
inductive TurnStage where
  | idle
  | failed
  | stored (m : Message)
  | read (m : Message) (before : List Message)
  | committed (m : Message) (before : List Message)

namespace TurnStage

/-- The message that the transaction has stored. -/
def live : TurnStage → Option Message
  | .stored m => some m
  | .read m _ => some m
  | _ => none

/-- What a commit leaves. -/
def settled : TurnStage → TurnStage
  | .read m before => .committed m before
  | _ => .idle

variable {l : TurnStage} {m : Message} {c : ConversationId}

@[simp] theorem live_settled : l.settled.live = none := by cases l <;> rfl

/-- The turn has stored its message, or its transaction has stopped. -/
def Ready (c : ConversationId) (text : Json) (l : TurnStage) : Prop :=
  l = .failed ∨ ∃ m, l.live = some m ∧ m.Says c text

end TurnStage

/-- The messages of the conversation that come before `m`, as `x` sees them. -/
def Database.earlier (db : Database) (x : Conn) (m : Message) : List Message :=
  (db.transcript x m.new.conversationId).filter fun m' => m'.new.seq < m.new.seq

/-- One answered count of a turn's rate check, after the messages `before` the turn's own. -/
structure RateCheck where
  message : Message
  before : List Message
  count : ℕ

/-- What the notes say about each request, and the rate checks in the order of their counts. -/
structure TurnNotes where
  stage : Conn → TurnStage := fun _ => .idle
  checks : List RateCheck := []

namespace Op

/-- The stage of `x` after a call that has left the database as `db`. -/
def turnStage (db : Database) (x : Conn) (l : TurnStage) : (o : Op) → Except Exn o.Ans → TurnStage
  | .stmt (.insertMessage m),.ok id =>
    if m.role = .user then (db.messages.view x id).elim l .stored else l
  | .stmt (.recent _ _),.ok _ => l.live.elim l fun m => .read m (db.earlier x m)
  | .stmt _,.error _ => .failed
  | .commit,.ok _ => l.settled
  | .commit,.error _ => .failed
  | .rollback,_ => .idle
  | _,_ => l

def rateChecks (db : Database) (x : Conn) (l : TurnStage) : (o : Op) → Except Exn o.Ans → List RateCheck
  | .stmt (.countRecentUser _),.ok count => l.live.elim [] fun m => [⟨m,db.earlier x m,count⟩]
  | _,_ => []

theorem turnStage_error {db : Database} {x : Conn} {l : TurnStage} {s : Stmt} {e : Exn} :
    Op.turnStage db x l (.stmt s) (.error e) = .failed := by
  cases s <;> rfl

end Op

def TurnNotes.after (db : Database) (x : Conn) (o : Op) (r : Except Exn o.Ans) (s : TurnNotes) : TurnNotes where
  stage := Function.update s.stage x (o.turnStage db x (s.stage x) r)
  checks := s.checks ++ o.rateChecks db x (s.stage x) r

/-- All requests, with notes of their turns' messages. -/
def turnMessages (d : Deployment) :
    Interp ((World × Admissions) × TurnNotes) Conn Req Choice World.EnvAct Op Op.Ans Exn Response :=
  (admissions d).observing fun _ x o r w s => s.after w.1.db x o r

namespace TurnMessages

/-- The handler of the turn is run on its user's message and what came before. -/
def Admitted (c : ConversationId) (run : HandlerRun) (l : TurnStage) : Prop :=
  0 < run.agent.spec.historyTurns → ∃ m before, l = .committed m before ∧ m.Says c run.text ∧
    run.history = (before ++ [m]).rtake run.agent.spec.historyTurns

/-- What a call makes of a request's stage. -/
def Moves (l l' : TurnStage) : (o : Op) → Except Exn o.Ans → Prop
  | .stmt (.insertMessage m),.ok _ => l ≠ .failed ∧ if m.role = .user then ∃ v, l' = .stored v ∧ v.new = m else l' = l
  | .stmt (.recent c limit),.ok rows => l ≠ .failed ∧ (l.live = none → l' = l) ∧
      ∀ m, l.live = some m → ∃ before, l' = .read m before ∧
        (m.new.conversationId = c → rows = (before ++ [m]).rtake limit)
  | .stmt _,.ok _ => l ≠ .failed ∧ l' = l
  | .stmt _,.error _ => l' = .failed
  | .commit,.ok _ => l' = l.settled
  | .commit,.error _ => l' = .failed
  | .rollback,_ => l' = .idle
  | _,_ => l' = l

theorem moves_error {l l' : TurnStage} {s : Stmt} {e : Exn} : Moves l l' (.stmt s) (.error e) ↔ l' = .failed := by
  cases s <;> rfl

/-- The count is taken and the handler run in a turn whose message is stored; no number is taken in between. -/
def spec : Spec Op Op.Ans Exn TurnStage where
  pre o l := match o with
    | .stmt (.nextSeqForUpdate _) => l.live = none
    | .stmt (.insertMessage _) => l.live = none
    | .stmt (.countRecentUser c) => ∃ text, l.Ready c text
    | .handleBegin c run => Admitted c run l
    | _ => True
  post o l r l' := (o.sure = true → ∃ a, r = .ok a) ∧ Moves l l' o r

end TurnMessages

/-- The turn's message is the last of its conversation, and the transaction holds the conversation's row. -/
structure TurnStage.Fit (db : Database) (x : Conn) (l : TurnStage) : Prop where
  stopped : l = .failed → db.tx x ≠ .active
  stored : ∀ m, l.live = some m → m.new.role = .user ∧ ∃ k, (db.messages.row k).dirty = some (x,m)
  latest : ∀ m, l.live = some m →
    ∃ v, (db.conversations.row m.new.conversationId).dirty = some (x,v) ∧ v.messageCount = m.new.seq

namespace TurnStage

variable {d : Deployment} {x y : Conn} {db db' : Database} {s : Admissions} {o : Op} {r : Except Exn o.Ans}
  {l : TurnStage} {m : Message}

/-- A request with no message of its own in the transaction. -/
theorem fit_of_live (hl : l.live = none) (hstopped : l = .failed → db.tx x ≠ .active) : l.Fit db x :=
  ⟨hstopped,fun m hm => by simp [hl] at hm,fun m hm => by simp [hl] at hm⟩

/-- In a list by increasing numbers, what comes before the last element. -/
theorem eq_filter_append {A : Type} {f : A → ℕ} {a : A} : ∀ {as : List A}, as.Pairwise (fun b b' => f b < f b') → a ∈ as →
    (∀ b ∈ as, f b ≤ f a) → as = (as.filter fun b => f b < f a) ++ [a]
  | b :: bs,hsorted,hmem,hle => by
    obtain ⟨hb,hsorted⟩ := List.pairwise_cons.mp hsorted
    rcases List.mem_cons.mp hmem with rfl | hmem
    · have hnil : bs = [] := List.eq_nil_iff_forall_not_mem.mpr fun b' hb' => by
        have hlt := hb b' hb'
        have hge := hle b' (List.mem_cons_of_mem a hb')
        omega
      simp [hnil]
    · have hrest := eq_filter_append hsorted hmem fun b' hb' => hle b' (List.mem_cons_of_mem b hb')
      rw [List.filter_cons_of_pos (by simpa using hb a hmem),List.cons_append,← hrest]

/-- The transcript that a turn sees ends with its own message. -/
theorem Fit.transcript (h : l.Fit db x) (hf : s.Fit d db) (hm : l.live = some m) :
    db.transcript x m.new.conversationId = db.earlier x m ++ [m] := by
  obtain ⟨-,k,hdirty⟩ := h.stored m hm
  obtain ⟨v,hv,hcount⟩ := h.latest m hm
  have hselect : ∀ {m'}, m' ∈ db.transcript x m.new.conversationId ↔
      m' ∈ db.messages.select x fun m' => m'.new.conversationId = m.new.conversationId :=
    List.mem_insertionSort _
  refine eq_filter_append (f := fun m' : Message => m'.new.seq) ?_ ?_ ?_
  · have hle := List.pairwise_insertionSort (fun m m' : Message => m.new.seq ≤ m'.new.seq)
      (db.messages.select x fun m' => m'.new.conversationId = m.new.conversationId)
    have hne := hf.numbered.select_pairwise x m.new.conversationId
    rw [← (List.perm_insertionSort (fun m m' : Message => m.new.seq ≤ m'.new.seq) _).pairwise_iff
      fun hab => Ne.symm hab] at hne
    exact hle.imp₂ (fun a b hab hab' => lt_of_le_of_ne hab hab') hne
  · exact hselect.mpr (Table.mem_select.mpr ⟨k,Row.view_of_dirty hdirty,by simp⟩)
  · intro m' hm'
    obtain ⟨k',hk',hc⟩ := Table.mem_select.mp (hselect.mp hm')
    have hle := hf.numbered.le_total hk'
    have hview : db.conversations.view x m.new.conversationId = some v := Row.view_of_dirty hv
    have hparent : messageNumbering.parent m' = m.new.conversationId := of_decide_eq_true hc
    rw [hparent,hview] at hle
    exact hle.trans hcount.le

/-- What others do leaves a turn's message as it is. -/
theorem Fit.of_other (h : l.Fit db y) (hy : y ≠ x) (hm : DbMove d.adapt x db o r db') : l.Fit db' y := by
  refine ⟨fun hl => ?_,fun m hlive => ?_,fun m hlive => ?_⟩
  · rw [hm.tx_of_ne hy]
    exact h.stopped hl
  · obtain ⟨hrole,k,hd⟩ := h.stored m hlive
    have hmove := hm.messages (T := fun _ _ _ => True) fun _ _ _ _ _ _ => trivial
    exact ⟨hrole,k,by rw [hmove.row_of_dirty hy hd,hd]⟩
  · obtain ⟨v,hd,hcount⟩ := h.latest m hlive
    have hmove := hm.conversations (T := fun _ _ _ => True) fun _ _ _ _ _ _ _ => trivial
    exact ⟨v,by rw [hmove.row_of_dirty hy hd,hd],hcount⟩

/-- A statement that appends no message keeps the turn's own the last one. -/
theorem Fit.of_effect {st : Stmt} {p : Pick} {a : st.Ans} (h : l.Fit db x)
    (he : st.effect d.adapt db x p = .ok (a,db')) (hinsert : ∀ m, st ≠ .insertMessage m)
    (hbump : ∀ c, st ≠ .nextSeqForUpdate c) : l.Fit db' x := by
  refine ⟨fun hl => ?_,fun m hm => ?_,fun m hm => ?_⟩
  · rw [(Stmt.frame_of_effect st he).tx]
    exact h.stopped hl
  · rw [Admissions.messages_of_effect he hinsert]
    exact h.stored m hm
  · obtain ⟨v,hv,hcount⟩ := h.latest m hm
    obtain ⟨v',hv',hcount'⟩ := (Admissions.keepsCount_of_effect he hbump).count_of_dirty hv
    exact ⟨v',hv',hcount'.trans hcount⟩

/-- The user's message is stored under the number that the request owes. -/
theorem Fit.insert {new : NewMessage} {id : ℕ} {p : Pick} (h : l.Fit db x) (hf : s.Fit d db)
    (ho : s.owed x = some (new.conversationId,new.seq)) (hl : l.live = none)
    (he : (Stmt.insertMessage new).effect d.adapt db x p = .ok (id,db')) :
    (Op.turnStage db' x l (.stmt (.insertMessage new)) (.ok id)).Fit db' x ∧
      if new.role = .user then
        ∃ v, Op.turnStage db' x l (.stmt (.insertMessage new)) (.ok id) = .stored v ∧ v.new = new
      else Op.turnStage db' x l (.stmt (.insertMessage new)) (.ok id) = l := by
  have htx := (Stmt.frame_of_effect _ he).tx
  obtain ⟨v,rfl,-,hmsg,hconv⟩ := Admissions.insert_ok he
  have hview : db'.messages.view x id = some v := by
    rw [hmsg]
    exact Table.view_put_self ..
  by_cases hrole : v.new.role = .user
  · have hstage : Op.turnStage db' x l (.stmt (.insertMessage v.new)) (.ok id) = .stored v := by
      simp only [Op.turnStage,if_pos hrole,hview]
      rfl
    rw [if_pos hrole,hstage]
    refine ⟨⟨fun hfail => (by cases hfail),fun m hm => ?_,fun m hm => ?_⟩,v,rfl,rfl⟩
    · obtain rfl : v = m := Option.some.inj hm
      exact ⟨hrole,id,by rw [hmsg,Table.row_put_self,Row.put_dirty]⟩
    · obtain rfl : v = m := Option.some.inj hm
      obtain ⟨-,w,hw,hcount⟩ := hf.numbered.owes x _ _ ho
      rw [hconv]
      exact ⟨w,hw,hcount⟩
  · have hstage : Op.turnStage db' x l (.stmt (.insertMessage v.new)) (.ok id) = l := by
      simp only [Op.turnStage,if_neg hrole]
    rw [if_neg hrole,hstage]
    exact ⟨fit_of_live hl fun hfail => by rw [htx]; exact h.stopped hfail,rfl⟩

/-- The history ends with the turn's own message. -/
theorem Fit.recent {c : ConversationId} {limit : ℕ} {rows : List Message} {p : Pick} (h : l.Fit db x)
    (hf : s.Fit d db) (he : (Stmt.recent c limit).effect d.adapt db x p = .ok (rows,db')) :
    (Op.turnStage db' x l (.stmt (.recent c limit)) (.ok rows)).Fit db' x ∧
      (l.live = none → Op.turnStage db' x l (.stmt (.recent c limit)) (.ok rows) = l) ∧
      ∀ m, l.live = some m →
        ∃ before, Op.turnStage db' x l (.stmt (.recent c limit)) (.ok rows) = .read m before ∧
          (m.new.conversationId = c → rows = (before ++ [m]).rtake limit) := by
  obtain ⟨hrows,rfl⟩ := Prod.mk.inj (Effect.ok.inj he)
  rcases hl : l.live with _ | m
  · have hstage : Op.turnStage db x l (.stmt (.recent c limit)) (.ok rows) = l := by
      simp only [Op.turnStage,hl]
      rfl
    rw [hstage]
    exact ⟨h,fun _ => rfl,fun m hm => by cases hm⟩
  · have hstage : Op.turnStage db x l (.stmt (.recent c limit)) (.ok rows) = .read m (db.earlier x m) := by
      simp only [Op.turnStage,hl]
      rfl
    rw [hstage]
    refine ⟨⟨fun hfail => (by cases hfail),fun m' hm' => ?_,fun m' hm' => ?_⟩,fun hnone => (by cases hnone),?_⟩
    · exact h.stored m' (hl.trans hm')
    · exact h.latest m' (hl.trans hm')
    · intro m' hm'
      obtain rfl := Option.some.inj hm'
      refine ⟨_,rfl,fun hc => ?_⟩
      rw [← hrows,← hc,h.transcript hf hl]
      rfl

/-- A call of the request's own. -/
theorem Fit.call (h : l.Fit db x) (hf : s.Fit d db)
    (hnum : (MessageNumbers.spec d).pre o ⟨s.owed x,s.turn x⟩) (hpre : TurnMessages.spec.pre o l)
    (hm : DbMove d.adapt x db o r db') :
    (o.turnStage db' x l r).Fit db' x ∧ TurnMessages.Moves l (o.turnStage db' x l r) o r := by
  have hfailed : ∀ {db' : Database}, db'.tx x ≠ .active → TurnStage.failed.Fit db' x := fun htx =>
    fit_of_live rfl fun _ => htx
  have hdiscard : ∀ {status : TxStatus}, status ≠ .active → (db.discard x status).tx x ≠ .active := fun hs => by
    simpa [Database.discard] using hs
  have hsettled : ∀ {db' : Database}, l.settled.Fit db' x := fun {db'} =>
    fit_of_live live_settled fun hl => by cases l <;> cases hl
  cases hm with
  | @stmt st p a db' htx he =>
    have hne : l ≠ .failed := fun hl => h.stopped hl htx
    cases st with
    | insertMessage new =>
      obtain ⟨hfit,hstage⟩ := h.insert hf hnum.1 hpre he
      exact ⟨hfit,hne,hstage⟩
    | recent c limit =>
      obtain ⟨hfit,hstage⟩ := h.recent hf he
      exact ⟨hfit,hne,hstage⟩
    | nextSeqForUpdate c =>
      have hl : l.live = none := hpre
      exact ⟨fit_of_live hl fun hfail => absurd hfail hne,hne,rfl⟩
    | _ => exact ⟨h.of_effect he (fun _ hm => by cases hm) (fun _ hc => by cases hc),hne,rfl⟩
  | rejected htx =>
    rw [Op.turnStage_error]
    refine ⟨hfailed (hdiscard ?_),?_⟩
    · split <;> simp
    · exact TurnMessages.moves_error.mpr rfl
  | refused htx =>
    rw [Op.turnStage_error]
    exact ⟨hfailed htx,TurnMessages.moves_error.mpr rfl⟩
  | commit htx => exact ⟨hsettled,rfl⟩
  | commitRejected htx => exact ⟨hfailed (hdiscard (by simp)),rfl⟩
  | commitAborted htx => exact ⟨hsettled,rfl⟩
  | commitRefused htx => exact ⟨hfailed (by simp [htx]),rfl⟩
  | rollback => exact ⟨fit_of_live rfl (by rintro ⟨⟩),rfl⟩
  | other hs hc hr =>
    have hsame : o.turnStage db x l r = l ∧ TurnMessages.Moves l l o r := by
      cases o with
      | stmt st => exact absurd rfl (hs st)
      | commit => exact absurd rfl hc
      | rollback => exact absurd rfl hr
      | _ => exact ⟨rfl,rfl⟩
    rw [hsame.1]
    exact ⟨h,hsame.2⟩

end TurnStage

namespace TurnMessages

variable {d : Deployment} {α : Type} {c : ConversationId} {text : Json} {l l' : TurnStage} {o : Op}

/-- The transaction holds no message of a turn. -/
def Rest (l : TurnStage) : Prop := l.live = none

section Calls

/-- The calls that append a message. -/
def appending : Op → Bool
  | .stmt (.nextSeqForUpdate _) => true
  | .stmt (.insertMessage _) => true
  | _ => false

theorem appending_of_calm (h : o.calm = true) : appending o = false := by
  cases o with
  | stmt s => cases s <;> first | rfl | cases h
  | _ => rfl

theorem pre_of_not_ofTurn (h : appending o = false) (hrole : ¬ o.role.ofTurn) (l : TurnStage) : spec.pre o l := by
  cases o with
  | stmt s =>
    cases s with
    | nextSeqForUpdate c => cases h
    | insertMessage m => cases h
    | countRecentUser c => exact absurd (show Role.count ∈ _ by decide) hrole
    | _ => trivial
  | handleBegin c run => exact absurd (show Role.mark ∈ _ by decide) hrole
  | _ => trivial

/-- A call inside a transaction that appends no message. -/
theorem moves_of_not_appending {r : Except Exn o.Ans} (h : appending o = false) (hc : o ≠ .commit) (hr : o ≠ .rollback)
    (hm : Moves l l' o r) : l' = .failed ∨ l' = l ∨ l ≠ .failed ∧ l'.live = l.live := by
  cases o with
  | stmt s =>
    cases r with
    | error e => exact .inl (moves_error.mp hm)
    | ok a =>
      cases s with
      | nextSeqForUpdate c => cases h
      | insertMessage m => cases h
      | recent c limit =>
        obtain ⟨hne,hnone,hsome⟩ := hm
        rcases hl : l.live with _ | m
        · exact .inr (.inl (hnone hl))
        · obtain ⟨before,rfl,-⟩ := hsome m hl
          exact .inr (.inr ⟨hne,rfl⟩)
      | _ => exact .inr (.inl hm.2)
  | commit => exact absurd rfl hc
  | rollback => exact absurd rfl hr
  | _ => exact .inr (.inl hm)

theorem call_rest (h : appending o = false) (hpre : ∀ l, Rest l → spec.pre o l) : Keeps.Call spec Rest o := by
  rintro l hl l₁ rfl
  refine ⟨hpre l hl,?_⟩
  rintro r l' ⟨-,hm⟩
  by_cases hc : o = .commit
  · subst hc
    cases r with
    | error e =>
      obtain rfl : l' = .failed := hm
      rfl
    | ok a =>
      obtain rfl : l' = l.settled := hm
      exact TurnStage.live_settled
  by_cases hr : o = .rollback
  · subst hr
    obtain rfl : l' = .idle := hm
    rfl
  rcases moves_of_not_appending h hc hr hm with rfl | rfl | ⟨-,hsame⟩
  · rfl
  · exact hl
  · exact hsame.trans hl

theorem call_ready (h : appending o = false) (hpre : ∀ l, l.Ready c text → spec.pre o l) (hc : o ≠ .commit)
    (hr : o ≠ .rollback) : Keeps.Call spec (TurnStage.Ready c text) o := by
  rintro l hl l₁ rfl
  refine ⟨hpre l hl,?_⟩
  rintro r l' ⟨-,hm⟩
  rcases moves_of_not_appending h hc hr hm with rfl | rfl | ⟨hne,hsame⟩
  · exact .inl rfl
  · exact hl
  · rcases hl with rfl | ⟨m,hm,hconv⟩
    · exact absurd rfl hne
    · exact .inr ⟨m,hsame.trans hm,hconv⟩

theorem calm_rest {R : List Role} {p : Proc α} (hp : Calm p) (hw : Within R p) (hR : ∀ r ∈ R, ¬ r.ofTurn) :
    Keeps spec Rest p :=
  hp.keeps_within hw hR fun _ ho hrole => call_rest (appending_of_calm ho) fun l _ =>
    pre_of_not_ofTurn (appending_of_calm ho) hrole l

/-- A calm program inside a turn's transaction. -/
theorem calm_ready {R : List Role} {p : Proc α} (hp : Calm p) (hw : Within R p)
    (hR : ∀ r ∈ R, r ∉ [Role.count,.mark,.commit,.rollback]) : Keeps spec (TurnStage.Ready c text) p := by
  refine Keeps.of_all (hp.and hw) fun o ho => ?_
  have happ := appending_of_calm ho.1
  have hrole := hR _ ho.2
  refine call_ready happ (fun l _ => pre_of_not_ofTurn happ (fun h => hrole ?_) l) ?_ ?_
  · exact (by decide : [Role.count,.mark] ⊆ [Role.count,.mark,.commit,.rollback]) h
  · rintro rfl
    exact hrole (by decide)
  · rintro rfl
    exact hrole (by decide)

theorem stmt_ready {s : Stmt} (h : appending (.stmt s) = false) (hpre : ∀ l, l.Ready c text → spec.pre (.stmt s) l) :
    Keeps spec (TurnStage.Ready c text) (stmt s) :=
  Keeps.perform (call_ready h hpre nofun nofun)

theorem stmt_rest {s : Stmt} (h : appending (.stmt s) = false) (hpre : ∀ l, Rest l → spec.pre (.stmt s) l) :
    Keeps spec Rest (stmt s) :=
  Keeps.perform (call_rest h hpre)

end Calls

section Programs

open OrchestrationService

theorem nextSeq_rest (c : ConversationId) : Keeps spec Rest (ConversationRepository.nextSeqForUpdate c) := by
  have hcall : Keeps.Call spec Rest (.stmt (.nextSeqForUpdate c)) := by
    rintro l hl l₁ rfl
    refine ⟨hl,?_⟩
    rintro (e | rows) l' ⟨-,hm⟩
    · obtain rfl : l' = .failed := hm
      rfl
    · obtain rfl : l' = l := hm.2
      exact hl
  refine Keeps.bind (Keeps.perform hcall) fun rows => ?_
  rcases rows with _ | ⟨seq,_ | ⟨seq',rest⟩⟩
  · exact Keeps.throw _
  · exact Keeps.pure _
  · exact Keeps.throw _

theorem insert_rest {m : NewMessage} (h : m.role ≠ .user) : Keeps spec Rest (MessageRepository.insert m) := by
  refine Keeps.perform ?_
  rintro l hl l₁ rfl
  refine ⟨hl,?_⟩
  rintro (e | id) l' ⟨-,hm⟩
  · obtain rfl : l' = .failed := hm
    rfl
  · have hsame := hm.2
    rw [if_neg h] at hsame
    rw [hsame]
    exact hl

theorem recordUserMessage_ready (inp : TurnInput) (conv : Conversation) :
    Triple spec Rest (recordUserMessage inp conv) fun _ => TurnStage.Ready conv.id inp.text := by
  refine Triple.bind (Triple.of_keeps (nextSeq_rest _)) fun seq => ?_
  refine Triple.bind (P := fun _ => TurnStage.Ready conv.id inp.text) (Triple.perform fun l hl l₁ h₁ => ?_) fun id =>
    Triple.of_keeps ?_
  · obtain rfl : l = l₁ := h₁
    refine ⟨hl,?_⟩
    rintro id l' ⟨-,-,v,rfl,hv⟩
    exact .inr ⟨v,rfl,by rw [hv],by rw [hv],by rw [hv]⟩
  have htitle : Keeps spec (TurnStage.Ready conv.id inp.text) (conversationTitle inp.text) :=
    calm_ready (R := []) (conversationTitle_calm _) (conversationTitle_calls _).within (by decide)
  split
  · exact stmt_ready rfl fun _ _ => trivial
  · exact Keeps.bind htitle fun title => Keeps.bind (stmt_ready rfl fun _ _ => trivial) fun _ =>
      Keeps.bind htitle fun title' => stmt_ready rfl fun _ _ => trivial

/-- The conversation's history is read up to the turn's own message. -/
def Counted (c : ConversationId) (text : Json) (agent : RegisteredAgent) (history : List Message) (l : TurnStage) : Prop :=
  0 < agent.spec.historyTurns → ∃ m before, l = .read m before ∧ m.Says c text ∧
    history = (before ++ [m]).rtake agent.spec.historyTurns

theorem checkRateLimits_ready (c : ConversationId) (limits : LimitsSpec) :
    Keeps spec (TurnStage.Ready c text) (checkRateLimits c limits) := by
  have hmax := (checkMaxTurns_calls c limits.maxTurns).within
  refine Keeps.bind (calm_ready (.of_within hmax (by decide)) hmax (by decide)) fun _ => ?_
  unfold checkRate
  split
  · exact Keeps.pure _
  · refine Keeps.bind (stmt_ready rfl fun l hl => ⟨text,hl⟩) fun recent => ?_
    split
    · exact Keeps.throw _
    · exact Keeps.pure _

theorem recent_counted (c : ConversationId) (agent : RegisteredAgent) :
    Triple spec (TurnStage.Ready c text) (MessageRepository.recent c agent.spec.historyTurns) (Counted c text agent) := by
  by_cases hzero : agent.spec.historyTurns = 0
  · have hnone : MessageRepository.recent c agent.spec.historyTurns = pure [] := if_pos hzero
    rw [hnone]
    exact Triple.pure fun l _ hpos => absurd hzero (Nat.ne_of_gt hpos)
  · have hrecent : MessageRepository.recent c agent.spec.historyTurns = stmt (.recent c agent.spec.historyTurns) :=
      if_neg hzero
    rw [hrecent]
    refine Triple.perform fun l hl l₁ h₁ => ?_
    obtain rfl : l = l₁ := h₁
    refine ⟨trivial,?_⟩
    rintro rows l' ⟨-,hne,-,hread⟩ -
    rcases hl with rfl | ⟨m,hm,hc⟩
    · exact absurd rfl hne
    · obtain ⟨before,rfl,hrows⟩ := hread m hm
      exact ⟨m,before,rfl,hc,hrows hc.conversationId⟩

theorem admitTurn_counted (conv : Conversation) (agent : RegisteredAgent) :
    Triple spec (TurnStage.Ready conv.id text) (admitTurn d conv agent) fun out => Counted conv.id text agent out.2 := by
  refine Triple.bind (Triple.of_keeps (checkRateLimits_ready _ _)) fun _ => ?_
  have hopen : Within [.query,.abandon,.unpin,.record,.pop,.create]
      (SessionService.openFor conv.id agent (closeRemoteChannel d conv.id)) :=
    (SessionService.openFor_calls (closeRemoteChannel_calls d conv.id)).within
  have hopen' : Keeps spec (TurnStage.Ready conv.id text)
      (SessionService.openFor conv.id agent (closeRemoteChannel d conv.id)) :=
    calm_ready (SessionService.openFor_calm (closeRemoteChannel_calm conv.id)) hopen (by decide)
  refine Triple.bind (Triple.of_keeps hopen') fun session => ?_
  have hpin : Keeps spec (TurnStage.Ready conv.id text)
      (if agent.spec.routing.pinSession then ConversationRepository.pin conv.id agent.id else pure () : Proc Unit) := by
    split
    · exact stmt_ready rfl fun _ _ => trivial
    · exact Keeps.pure _
  refine Triple.bind (Triple.of_keeps hpin) fun _ => ?_
  exact Triple.bind (recent_counted _ _) fun rows => Triple.pure fun _ h => h

/-- The marks around a handler that is run as the turn was admitted. -/
theorem wp_marked {run : HandlerRun} {p : Proc α} (hp : Keeps spec Rest p) (hl : Rest l) (ha : Admitted c run l) :
    wp spec (marked c run p) (fun _ l' => Rest l') l := by
  refine wp_bind.mpr (wp_perform.mpr fun l₁ h₁ => ?_)
  obtain rfl : l = l₁ := h₁
  refine ⟨ha,?_⟩
  rintro r l' ⟨-,hm⟩
  obtain rfl : l' = l := hm
  cases r with
  | error e => exact hl
  | ok u =>
    have hend : Keeps.Call spec Rest (.handleEnd c) := call_rest rfl fun _ _ => trivial
    exact Keeps.ensuring hp (Keeps.bind (Keeps.perform hend) fun _ => Keeps.pure _) l' hl

theorem runHandler_rest (inp : TurnInput) (conv : Conversation) (agent : RegisteredAgent)
    (session : Option AgentSession) (history : List Message) :
    Triple spec (fun l => Rest l ∧ Admitted conv.id ⟨agent,session.map (·.id),inp.text,history⟩ l)
      (runHandler d inp conv agent session history) fun _ => Rest := by
  have hhandle := (handle_calls d conv.id agent inp.user (session.map (·.toSessionView)) inp.text).within
  have hhandle' := calm_rest (.of_within hhandle (by decide)) hhandle (by decide)
  have hrecover := (recoverTimedOutTurn_calls d agent session inp.text).within
  refine Triple.bind (P := fun _ => Rest) (fun l hl => ?_) fun r => Triple.of_keeps ?_
  · exact wp_attempt.mpr (wp_mono (wp_marked hhandle' hl.1 hl.2) fun _ _ h _ _ => h)
  split
  · exact Keeps.pure _
  · refine Keeps.bind (calm_rest (.of_within hrecover (by decide)) hrecover (by decide)) ?_
    rintro (_ | turn)
    · exact Keeps.throw _
    · exact Keeps.pure _
  · exact Keeps.throw _

theorem storeReply_rest (inp : TurnInput) (conv : Conversation) (decision : RouteDecision) (agent : RegisteredAgent)
    (turn : AgentTurn) (session : Option AgentSession) :
    Keeps spec Rest (storeReply inp conv decision agent turn session) := by
  refine Keeps.bind (nextSeq_rest _) fun seq => Keeps.bind (insert_rest (by simp)) fun id => ?_
  have htraces := (ToolExecutionRepository.bulkInsert_calls id agent.id turn.toolTraces).within
  refine Keeps.bind ?_ fun _ => ?_
  · split
    · exact calm_rest (bulkInsert_calm ..) htraces (by decide)
    · exact Keeps.pure _
  split
  · refine Keeps.bind (stmt_rest rfl fun _ _ => trivial) fun _ => ?_
    exact Keeps.bind (calm_rest (agentFallbackTitle_calm agent) (agentFallbackTitle_calls agent).within (by decide))
      fun title => stmt_rest rfl fun _ _ => trivial
  · exact Keeps.bind (calm_rest (R := []) (conversationTitle_calm _) (conversationTitle_calls _).within (by decide))
      fun title => stmt_rest rfl fun _ _ => trivial

theorem storeRecovered_rest (session : AgentSession) (agent : RegisteredAgent) (result : Reconciliation) :
    Keeps spec Rest (storeRecovered session agent result) := by
  refine Keeps.bind (nextSeq_rest _) fun seq => Keeps.bind (insert_rest (by simp)) fun id => ?_
  have happly := (SessionService.apply_calls session { state := .awaitingUser }).within
  refine Keeps.bind (calm_rest (.of_within happly (by decide)) happly (by decide)) fun updated => ?_
  refine Keeps.bind (stmt_rest rfl fun _ _ => trivial) fun _ => ?_
  exact Keeps.bind (Keeps.perform (call_rest rfl fun _ _ => trivial)) fun _ => Keeps.pure _

/-- The commit that admits the turn. -/
theorem commit_admitted (c : ConversationId) (text : Json) (agent : RegisteredAgent) (session : Option SessionId)
    (history : List Message) : Triple spec (Counted c text agent history) (perform Op.commit : Proc Unit) fun _ l =>
      Rest l ∧ Admitted c ⟨agent,session,text,history⟩ l := by
  refine Triple.perform fun l hl l₁ h₁ => ?_
  obtain rfl : l = l₁ := h₁
  refine ⟨trivial,?_⟩
  rintro u l' ⟨-,hm⟩
  obtain rfl : l' = l.settled := hm
  refine ⟨TurnStage.live_settled,fun hpos => ?_⟩
  obtain ⟨m,before,rfl,hc,hhistory⟩ := hl hpos
  exact ⟨m,before,rfl,hc,hhistory⟩

theorem handleTurnLocked_triple (inp : TurnInput) (conv : Conversation) :
    Triple spec Rest (handleTurnLocked d inp conv) fun _ _ => True := by
  refine Triple.bind (recordUserMessage_ready inp conv) fun _ => ?_
  have hroute : Keeps spec (TurnStage.Ready conv.id inp.text) (routeTurn d inp conv) :=
    calm_ready (routeTurn_calm inp conv) (routeTurn_within d inp conv) (by decide)
  refine Triple.bind (Triple.of_keeps hroute) ?_
  rintro ⟨decision,agent⟩
  refine Triple.bind (admitTurn_counted conv agent) ?_
  rintro ⟨session,history⟩
  refine Triple.bind (commit_admitted conv.id inp.text agent (session.map (·.id)) history) fun _ => ?_
  refine Triple.bind (runHandler_rest inp conv agent session history) fun turn => ?_
  have hsettle := calm_rest (settleTurn_calm (d := d) inp agent turn session)
    (settleTurn_calls d inp agent turn session).within (by decide)
  refine Triple.bind (Triple.of_keeps hsettle) fun session => ?_
  refine Triple.bind (Triple.of_keeps (storeReply_rest inp conv decision agent turn session)) fun _ => ?_
  have hcommit : Keeps spec Rest (perform Op.commit : Proc Unit) := Keeps.perform (call_rest rfl fun _ _ => trivial)
  exact Triple.bind (Triple.of_keeps hcommit) fun _ => Triple.pure fun _ _ => trivial

theorem wp_handleTurn (inp : TurnInput) (hl : Rest l) : wp spec (handleTurn d inp) (fun _ _ => True) l := by
  have hget := (ConversationRepository.getOrCreate_calls inp.conversationId inp.user).within
  have hget' : Keeps spec Rest (ConversationRepository.getOrCreate inp.conversationId inp.user) :=
    calm_rest (.of_within hget (by decide)) hget (by decide)
  refine wp_bind.mpr (wp_mono (hget' l hl) ?_)
  rintro (e | conv) l₁ h₁
  · trivial
  have hlock : Keeps spec Rest (tryLockConversation d conv.id) := stmt_rest rfl fun _ _ => trivial
  refine wp_bind.mpr (wp_mono (hlock l₁ h₁) ?_)
  rintro (e | locked) l₂ h₂
  · trivial
  cases locked with
  | false => trivial
  | true =>
    refine wp_ensuring.mpr (wp_mono (handleTurnLocked_triple inp conv l₂ h₂) fun r l₃ _ => ?_)
    refine wp_bind.mpr (wp_attempt.mpr (wp_perform.mpr fun l₄ _ => ⟨trivial,?_⟩))
    rintro r' l₅ -
    exact trivial

theorem sure : Routes.Sure spec := fun _ _ _ _ ho h => h.1 ho

/-- The end of a transaction leaves no message in it. -/
theorem end_rest (ho : o = .commit ∨ o = .rollback) (l : TurnStage) :
    wp spec (perform o : Proc o.Ans) (fun _ l' => Rest l') l := by
  refine wp_perform.mpr fun l₁ h₁ => ?_
  obtain rfl : l = l₁ := h₁
  rcases ho with rfl | rfl
  · refine ⟨trivial,?_⟩
    rintro (e | u) l' ⟨-,hm⟩
    · obtain rfl : l' = .failed := hm
      rfl
    · obtain rfl : l' = l.settled := hm
      exact TurnStage.live_settled
  · refine ⟨trivial,?_⟩
    rintro r l' ⟨-,hm⟩
    obtain rfl : l' = .idle := hm
    rfl

theorem prog_rest (req : Req) : Keeps spec Rest (req.prog d) := by
  by_cases hreq : ∀ body user, req ≠ .chat body user
  · exact Req.keeps_prog_of_ne_chat sure (fun o ho hrole => call_rest (appending_of_calm ho) fun l _ =>
      pre_of_not_ofTurn (appending_of_calm ho) hrole l) storeRecovered_rest req hreq
  push Not at hreq
  obtain ⟨body,user,rfl⟩ := hreq
  intro l hl
  refine Routes.wp_withDb_of (C := fun _ _ => True) (B := Rest) sure (fun l hl => ?_) ?_ (fun _ l _ => end_rest (.inl rfl) l)
    (fun _ l _ => end_rest (.inr rfl) l) (fun l _ => end_rest (.inr rfl) l) hl
  · refine Routes.wp_chat (A := Rest) (B := fun _ => True) (fun inp l hl => wp_handleTurn inp hl) (fun _ _ => trivial) ?_ hl
    rintro o ho l - l₁ rfl
    refine ⟨?_,fun _ _ _ => trivial⟩
    have happ : appending o = false := by
      cases o with
      | stmt s => cases s <;> first | rfl | cases ho
      | _ => rfl
    refine pre_of_not_ofTurn happ ?_ l
    rw [ho]
    decide
  · rintro o (rfl | rfl)
    · exact call_rest rfl fun _ _ => trivial
    · exact call_rest rfl fun _ _ => trivial

end Programs

/-- Each request is verified against what the notes say of its message, where all messages are numbered. -/
def outline (d : Deployment) :
    Outline (turnMessages d) (fun c a => anyAct c a ∧ (MessageNumbers.outline d).Inv c.forget) TurnStage where
  loc w x := w.2.stage x
  spec _ := spec
  G w := ∀ x, (w.2.stage x).Fit w.1.1.db x
  Free _ l := Rest l
  Q _ _ l := Rest l
  rely_refl _ _ := rfl
  rely_trans _ _ _ _ h h' := h.trans h'
  free_rely _ _ _ h hr := by
    obtain rfl := hr
    exact h
  free_end _ _ _ h := h
  begin_ok c x req hG hfree _ := ⟨hG,prog_rest req _ hfree,fun _ _ => rfl⟩
  exec_ok := by
    intro c x o k ch r w hG hx hok hpre he
    obtain ⟨he,hw⟩ := exec_observing he
    obtain ⟨he,-⟩ := exec_noting he
    have hdb := World.dbMove_of_exec he
    have hf : c.world.1.2.Fit d c.world.1.1.db := hok.2.1
    have hnum : (MessageNumbers.spec d).pre o ⟨c.world.1.2.owed x,c.world.1.2.turn x⟩ :=
      (MessageNumbers.outline d).pre_of_call hok.2 (x := x) hx
    obtain ⟨hfit,hmoves⟩ := (hG x).call hf hnum hpre hdb
    have hself : w.2.stage x = o.turnStage w.1.1.db x (c.world.2.stage x) r := by
      rw [hw]
      exact Function.update_self ..
    have hother : ∀ y, y ≠ x → w.2.stage y = c.world.2.stage y := fun y hy => by
      rw [hw]
      exact Function.update_of_ne hy ..
    refine ⟨fun y => ?_,⟨fun hsure => ?_,?_⟩,fun y hy => (hother y hy).symm⟩
    · by_cases hy : y = x
      · subst hy
        rw [hself]
        exact hfit
      · rw [hother y hy]
        exact (hG y).of_other hy hdb
    · obtain ⟨done,w₁,hp,-⟩ := World.performed_of_exec he
      exact hp.sure hsure
    · rw [hself]
      exact hmoves
  env_ok := by
    intro c e w hG _ he
    obtain ⟨he,hw⟩ := env_observing he
    obtain ⟨he,-⟩ := env_noting he
    have hf := World.envFrame he
    rw [hw,hf.db]
    exact ⟨hG,fun y => rfl⟩

variable {w : World} {ok : Interleaving.Config ((World × Admissions) × TurnNotes) Conn Op Op.Ans Exn Response → Action → Prop}
  {k : Interleaving.Config ((World × Admissions) × TurnNotes) Conn Op Op.Ans Exn Response}

/-- In every run the messages are numbered, and the notes are those of the turns. -/
theorem inv_of_reach (hw : w.AtRest) (hconv : w.db.conversations.Settled Conversation.constraints Conversation.Keyed)
    (hnum : w.db.MessagesNumbered) (h : Reach (step (turnMessages d)) ok (idle ((w,{}),{})) k) :
    (MessageNumbers.outline d).Inv k.forget ∧ (outline d).Inv k := by
  have hany : Reach (step (turnMessages d)) anyAct (idle ((w,{}),{})) k := h.mono fun _ _ _ => trivial
  have hbegin : (MessageNumbers.outline d).Inv (Config.forget (idle ((w,{}),({} : TurnNotes)))) :=
    ⟨Admissions.fit_start hw hconv hnum,fun _ => ⟨rfl,rfl⟩⟩
  have hstep : ∀ (k : Interleaving.Config ((World × Admissions) × TurnNotes) Conn Op Op.Ans Exn Response) a k',
      (MessageNumbers.outline d).Inv k.forget → anyAct k a → step (turnMessages d) k a = some k' →
        (MessageNumbers.outline d).Inv k'.forget := fun k a k' hi _ hs =>
    (MessageNumbers.outline d).inv_step hi trivial (stepped_of_step (step_forget_observing hs))
  exact ⟨hany.invariant hbegin hstep,(outline d).inv_of_reach (hany.with_invariant hbegin hstep)
    (fun x => TurnStage.fit_of_live rfl nofun) fun _ => rfl⟩

end TurnMessages

end Saarathi
