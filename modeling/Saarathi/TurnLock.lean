import Saarathi.Statements

/-!
# The turn lock

A handler runs only while its connection holds the conversation's advisory lock.
Commits leave the lock alone, and no other connection can release it.
-/

namespace Saarathi

open Machine Program Program.Prog Interleaving ReadCommitted

/-- The lock that a call has tried, and whether it obtained it. -/
def Op.lockAnswer : (o : Op) → Except Exn o.Ans → Option (ℤ × Bool)
  | .stmt (.tryAdvisoryLock key),r => match (r : Except Exn Bool) with
    | .ok b => some (key,b)
    | .error _ => none
  | _,_ => none

theorem Op.lockAnswer_of_role {o : Op} (ho : o.role ≠ .lock) (r : Except Exn o.Ans) :
    o.lockAnswer r = none := by
  cases o with
  | stmt s =>
    cases s with
    | tryAdvisoryLock key => exact absurd rfl ho
    | _ => rfl
  | _ => rfl

theorem DbMove.held_of_lockAnswer {adapt : Json → Option String} {x : Conn} {db db' : Database} {o : Op}
    {r : Except Exn o.Ans} {key : ℤ} (h : DbMove adapt x db o r db')
    (hg : o.lockAnswer r = some (key,true)) :
    db'.locks.held x key = db.locks.held x key + 1 := by
  cases o with
  | stmt s =>
    cases s with
    | tryAdvisoryLock key' =>
      simp only [Op.lockAnswer] at hg
      split at hg
      · obtain ⟨rfl,rfl⟩ := Prod.mk.inj (Option.some.inj hg)
        exact h.held_of_granted
      · cases hg
    | _ => cases hg
  | _ => cases hg

/-- What a request knows of its locks and of its handler. -/
structure LockView where
  held : ℤ → ℕ
  handling : Option ConversationId

namespace LockView

def of (w : World) (x : Conn) : LockView := ⟨w.db.locks.held x,w.handling x⟩

/-- Locks are only lost by an unlock, which no running handler's request issues. -/
def spec (d : Deployment) : Spec Op Op.Ans Exn LockView where
  pre o l := match o with
    | .handleBegin c _ => 0 < l.held (d.turnLockKey c)
    | .stmt (.advisoryUnlock _) => l.handling = none
    | _ => True
  post o l r l' := l'.handling = o.marks l.handling ∧
    (o.sure = true → ∃ a, r = .ok a) ∧
    ((∀ key, o ≠ .stmt (.advisoryUnlock key)) → ∀ key, l.held key ≤ l'.held key) ∧
    ∀ key, o.lockAnswer r = some (key,true) → 0 < l'.held key

/-- The handler of `h` runs, and the lock of `c` is held. -/
def Turn (d : Deployment) (c : ConversationId) (h : Option ConversationId) (l : LockView) : Prop :=
  l.handling = h ∧ 0 < l.held (d.turnLockKey c)

def Idle (l : LockView) : Prop := l.handling = none

variable {d : Deployment} {α : Type}

theorem marks_of_role {o : Op} {h : Option ConversationId} (ho : o.role ≠ .mark) :
    o.marks h = h := by
  cases o with
  | handleBegin c run => exact absurd rfl ho
  | handleEnd c => exact absurd rfl ho
  | _ => rfl

theorem pre_of_role {o : Op} {l : LockView} (ho : o.role ≠ .mark) (hu : o.role ≠ .unlock) :
    (spec d).pre o l := by
  cases o with
  | handleBegin c run => exact absurd rfl ho
  | stmt s =>
    cases s with
    | advisoryUnlock key => exact absurd rfl hu
    | _ => trivial
  | _ => trivial

theorem idle_of_within {rs : List Role} {p : Proc α} (h : Within rs p) (hs : Role.mark ∉ rs) :
    Keeps (spec d) Idle p := by
  refine Keeps.of_all h fun o ho l hl l₁ hr => ?_
  obtain rfl : l = l₁ := hr
  have hm : o.role ≠ .mark := fun e => hs (e ▸ ho)
  refine ⟨?_,fun r l₂ h₂ => h₂.1.trans ((marks_of_role hm).trans hl)⟩
  by_cases hu : o.role = .unlock
  · cases o with
    | stmt s =>
      cases s with
      | advisoryUnlock key => exact hl
      | _ => trivial
    | handleBegin c run => exact absurd rfl hm
    | _ => trivial
  · exact pre_of_role hm hu

theorem turn_of_within {rs : List Role} {p : Proc α} {c : ConversationId}
    {h : Option ConversationId} (hp : Within rs p) (hs : Role.mark ∉ rs) (hu : Role.unlock ∉ rs) :
    Keeps (spec d) (Turn d c h) p := by
  refine Keeps.of_all hp fun o ho l hl l₁ hr => ?_
  obtain rfl : l = l₁ := hr
  have hm : o.role ≠ .mark := fun e => hs (e ▸ ho)
  have hn : o.role ≠ .unlock := fun e => hu (e ▸ ho)
  refine ⟨pre_of_role hm hn,fun r l₂ h₂ => ⟨h₂.1.trans ((marks_of_role hm).trans hl.1),?_⟩⟩
  exact lt_of_lt_of_le hl.2 (h₂.2.2.1 (fun key e => hn (by rw [e]; rfl)) _)

/-- The marks around a handler that keeps the lock. -/
theorem keeps_marked {c : ConversationId} {run : HandlerRun} {p : Proc α} (hp : Keeps (spec d) (Turn d c (some c)) p) :
    Keeps (spec d) (Turn d c none) (marked c run p) := by
  intro l hl
  refine wp_bind.mpr (wp_perform.mpr fun l₁ hr => ?_)
  obtain rfl : l = l₁ := hr
  refine ⟨hl.2,fun r l₂ h₂ => ?_⟩
  have hheld : 0 < l₂.held (d.turnLockKey c) := lt_of_lt_of_le hl.2 (h₂.2.2.1 (by simp) _)
  obtain ⟨u,rfl⟩ := h₂.2.1 rfl
  refine wp_ensuring.mpr (wp_mono (hp l₂ ⟨h₂.1,hheld⟩) fun r l₃ h₃ => ?_)
  refine wp_bind.mpr (wp_perform.mpr fun l₄ hr => ?_)
  obtain rfl : l₃ = l₄ := hr
  refine ⟨trivial,fun r' l₅ h₅ => ?_⟩
  have hheld' : 0 < l₅.held (d.turnLockKey c) := lt_of_lt_of_le h₃.2 (h₅.2.2.1 (by simp) _)
  rcases r' with e | u
  · exact ⟨h₅.1,hheld'⟩
  · exact ⟨h₅.1,hheld'⟩

open OrchestrationService

theorem keeps_runHandler (inp : TurnInput) (conv : Conversation) (agent : RegisteredAgent)
    (session : Option AgentSession) (history : List Message) :
    Keeps (spec d) (Turn d conv.id none) (runHandler d inp conv agent session history) := by
  refine Keeps.bind (Keeps.attempt (keeps_marked
    (turn_of_within (handle_calls ..).within (by decide) (by decide)))) fun r => ?_
  split
  · exact Keeps.pure _
  · refine Keeps.bind (turn_of_within (recoverTimedOutTurn_calls ..).within (by decide) (by decide)) ?_
    rintro (_ | turn)
    · exact Keeps.throw _
    · exact Keeps.pure _
  · exact Keeps.throw _

theorem keeps_handleTurnLocked (inp : TurnInput) (conv : Conversation) :
    Keeps (spec d) (Turn d conv.id none) (handleTurnLocked d inp conv) := by
  refine Keeps.bind (turn_of_within (recordUserMessage_calls ..).within (by decide) (by decide)) fun _ => ?_
  refine Keeps.bind (turn_of_within (routeTurn_within ..) (by decide) (by decide)) ?_
  rintro ⟨decision,agent⟩
  refine Keeps.bind (turn_of_within (admitTurn_calls ..).within (by decide) (by decide)) ?_
  rintro ⟨session,history⟩
  have hcall : Within [.commit] (perform Op.commit : Proc Unit) := Within.perform rfl
  have hcommit : Keeps (spec d) (Turn d conv.id none) (perform Op.commit : Proc Unit) :=
    turn_of_within hcall (by decide) (by decide)
  refine Keeps.bind hcommit fun _ => ?_
  refine Keeps.bind (keeps_runHandler inp conv agent session history) fun turn => ?_
  refine Keeps.bind (turn_of_within (settleTurn_calls ..).within (by decide) (by decide)) fun session => ?_
  refine Keeps.bind (turn_of_within (storeReply_calls ..).within (by decide) (by decide)) fun _ => ?_
  exact Keeps.bind hcommit fun _ => Keeps.pure _

theorem keeps_handleTurn (inp : TurnInput) : Keeps (spec d) Idle (handleTurn d inp) := by
  refine Keeps.bind (idle_of_within (ConversationRepository.getOrCreate_calls ..).within (by decide))
    fun conv l hl => ?_
  refine wp_bind.mpr (wp_perform.mpr fun l₁ hr => ?_)
  obtain rfl : l = l₁ := hr
  refine ⟨trivial,fun r l₂ h₂ => ?_⟩
  have hidle : l₂.Idle := h₂.1.trans hl
  rcases r with e | _ | _
  · exact hidle
  · exact hidle
  have hturn : Turn d conv.id none l₂ := ⟨hidle,h₂.2.2.2 _ rfl⟩
  refine wp_ensuring.mpr (wp_mono (keeps_handleTurnLocked inp conv l₂ hturn) fun r l₃ h₃ => ?_)
  refine wp_mono (idle_of_within (unlockConversation_within ..) (by decide) l₃ h₃.1) ?_
  rintro (e | u) l₄ h₄
  · exact h₄
  · exact h₄

theorem keeps_prog (req : Req) : Keeps (spec d) Idle (req.prog d) := by
  have hread : ∀ o : Op, o.role ∈ [Role.read,.query,.commit,.rollback] → Keeps.Call (spec d) Idle o := by
    intro o ho l hl l₁ hr
    have hp : Within [.read,.query,.commit,.rollback] (perform o : Proc o.Ans) := (all_perform o).mpr ho
    have h := wp_perform.mp (idle_of_within (d := d) hp (by decide) l hl) l₁ hr
    exact h
  have hS : Routes.Sure (spec d) := fun o l r l' ho h => h.2.1 ho
  cases req with
  | chat body user =>
    exact Routes.keeps_withDb hS (Routes.keeps_chat keeps_handleTurn fun o ho => hread o (by simp [ho]))
      hread
  | finalize sid user =>
    exact Routes.keeps_withDb hS (idle_of_within (Routes.finalizeSession_calls ..).within (by decide)) hread
  | resume sid user =>
    exact Routes.keeps_withDb hS (idle_of_within (Routes.resumeSession_calls ..).within (by decide)) hread
  | abandon sid user =>
    exact Routes.keeps_withDb hS (idle_of_within (Routes.abandonSession_calls ..).within (by decide)) hread
  | reset c user =>
    exact Routes.keeps_withDb hS (idle_of_within (Routes.reset_calls ..).within (by decide)) hread
  | sweep olderThan =>
    exact Routes.keeps_withDb hS (idle_of_within (Routes.sweep_calls _).within (by decide)) hread

theorem of_exec {w w' : World} {x y : Conn} {o : Op} {ch : Choice} {r : Except Exn o.Ans}
    (h : w.exec d x o ch = some (r,w')) (hy : y ≠ x) : of w y = of w' y := by
  obtain ⟨done,w₁,hp,rfl⟩ := World.performed_of_exec h
  have hheld : w₁.db.locks.held y = w.db.locks.held y := funext fun key => hp.db.held_of_ne hy
  have hh : w₁.handling y = w.handling y := by rw [hp.handling,Function.update_of_ne hy]
  simp only [of,World.record,hheld,hh]

theorem post_of_exec {w w' : World} {x : Conn} {o : Op} {ch : Choice} {r : Except Exn o.Ans}
    (h : w.exec d x o ch = some (r,w')) : (spec d).post o (of w x) r (of w' x) := by
  obtain ⟨done,w₁,hp,rfl⟩ := World.performed_of_exec h
  refine ⟨by simp [of,World.record,hp.handling],hp.sure,fun ho key => hp.db.held_le ho,?_⟩
  intro key hg
  have hheld := hp.db.held_of_lockAnswer hg
  simp only [of,World.record,hheld]
  omega

/-- Whoever runs a handler holds its conversation's lock. -/
def outline (d : Deployment) : Outline (system d) anyAct LockView where
  loc := of
  spec _ := spec d
  G w := ∀ x c, w.handling x = some c → 0 < w.db.locks.held x (d.turnLockKey c)
  Free _ l := l.Idle
  Q _ _ l := l.Idle
  rely_refl _ _ := rfl
  rely_trans _ _ _ _ h₁ h₂ := h₁.trans h₂
  free_rely x l l' hl hr := by
    obtain rfl : l = l' := hr
    exact hl
  free_end _ _ _ h := h
  begin_ok c x req hG hfree _ := ⟨hG,keeps_prog req _ hfree,fun _ _ => rfl⟩
  exec_ok c x o k ch r w hG _ _ hpre he := by
    refine ⟨?_,post_of_exec he,fun y hy => of_exec he hy⟩
    intro y conv hy
    by_cases hyx : y = x
    · subst hyx
      have hpost := post_of_exec he
      have hmarks : w.handling y = o.marks (c.world.handling y) := hpost.1
      cases o with
      | handleBegin c' run =>
        obtain rfl : c' = conv := Option.some.inj (hmarks.symm.trans hy)
        exact lt_of_lt_of_le hpre (hpost.2.2.1 (by simp) _)
      | handleEnd c' =>
        rw [hmarks] at hy
        cases hy
      | stmt s =>
        have hold := hG y conv (hmarks.symm.trans hy)
        refine lt_of_lt_of_le hold (hpost.2.2.1 ?_ _)
        rintro key he
        obtain rfl := Op.stmt.inj he
        have hnone : c.world.handling y = none := hpre
        rw [hmarks,hnone] at hy
        cases hy
      | _ => exact lt_of_lt_of_le (hG y conv (hmarks.symm.trans hy)) (hpost.2.2.1 (by simp) _)
    · have heq := of_exec he hyx
      have hheld : w.db.locks.held y = c.world.db.locks.held y := (congrArg held heq).symm
      have hh : w.handling y = c.world.handling y := (congrArg handling heq).symm
      rw [hheld]
      exact hG y conv (hh ▸ hy)
  env_ok c e w hG _ he := by
    have hf := World.envFrame he
    refine ⟨?_,fun y => ?_⟩
    · rw [hf.handling,hf.db]
      exact hG
    · simp only [of,hf.db,hf.handling]
      rfl

end LockView

/-- The calls of a request that its conversation's lock has been refused. -/
def refusedRoles : List Role := [.read,.query,.newConversation,.lock,.commit,.rollback]

/-- The request was refused with `ConcurrentTurnError`: its try for the lock failed. -/
def Refused (es : List Event) : Prop := ∃ e ∈ es, ∃ key, e.op.lockAnswer e.answer = some (key,false)

/-- The open transaction of `x` would add no message, no session and no pin: at most a new
conversation. -/
structure AddsNothing (db : Database) (x : Conn) : Prop where
  sessions : ∀ k v, (db.sessions.row k).dirty ≠ some (x,v)
  messages : ∀ k v, (db.messages.row k).dirty ≠ some (x,v)
  conversations : ∀ k v, (db.conversations.row k).dirty = some (x,v) →
    db.conversations.committed k = none ∧ v.pinnedAgentId = none

namespace AddsNothing

variable {adapt : Json → Option String} {x y : Conn} {db db' : Database} {o : Op}
  {r : Except Exn o.Ans}

theorem of_ne (ha : AddsNothing db y) (h : DbMove adapt x db o r db') (hy : y ≠ x) :
    AddsNothing db' y where
  sessions k v hd := ha.sessions k v ((h.sessions (T := fun _ _ _ => True)
    (fun _ _ _ _ _ _ _ => trivial)).dirty_of_ne hy hd)
  messages k v hd := ha.messages k v ((h.messages (T := fun _ _ _ => True)
    (fun _ _ _ _ _ _ => trivial)).dirty_of_ne hy hd)
  conversations k v hd := by
    have hm := h.conversations (T := fun _ _ _ => True) (fun _ _ _ _ _ _ _ => trivial)
    have hd₀ := hm.dirty_of_ne hy hd
    rw [Table.committed,hm.row_of_dirty hy hd₀]
    exact ha.conversations k v hd₀

theorem of_rollback {status : TxStatus} : AddsNothing (db.discard x status) x where
  sessions := Table.not_dirty_rollback
  messages := Table.not_dirty_rollback
  conversations k v hd := absurd hd (Table.not_dirty_rollback k v)

theorem of_commit : AddsNothing (db.commit x) x where
  sessions := Table.not_dirty_commit
  messages := Table.not_dirty_commit
  conversations k v hd := absurd hd (Table.not_dirty_commit k v)

/-- A statement of a refused request at most creates a conversation, without a pin. -/
theorem of_frame {p : Pick} {s : Stmt} (ha : AddsNothing db x) (h : Stmt.Frame p s x db db')
    (hs : s.role ∈ refusedRoles) : AddsNothing db' x where
  sessions k v hd := by
    rcases h.sessions.row k with hr | ⟨u,-,hu⟩
    · exact ha.sessions k v (hr ▸ hd)
    · exact absurd hs ((by decide : ∀ r ∈ [Role.create,.apply,.forced,.claim,.abandon],
        r ∉ refusedRoles) _ hu.role)
  messages k v hd := by
    rcases h.messages.row k with hr | ⟨u,-,hu⟩
    · exact ha.messages k v (hr ▸ hd)
    · exact absurd hs (by rw [hu.role]; decide)
  conversations k v hd := by
    have hc : db'.conversations.committed k = db.conversations.committed k :=
      h.conversations.wrote.committed k
    rcases h.conversations.row k with hr | ⟨u,hr,hu⟩
    · rw [hc]
      exact ha.conversations k v (hr ▸ hd)
    · rw [hr,Row.put_dirty] at hd
      obtain rfl : u = v := (Prod.mk.inj (Option.some.inj hd)).2
      rcases hu with ⟨user,rfl,hnone,rfl⟩ | ⟨u',-,hconv,-⟩
      · exact ⟨hc.trans (Row.committed_of_view_none hnone),rfl⟩
      · exact absurd hs ((by decide : ∀ r ∈ [Role.record,.pin,.unpin], r ∉ refusedRoles) _
          (Stmt.role_of_conversation hconv))

theorem of_role (ha : AddsNothing db x) (h : DbMove adapt x db o r db')
    (ho : o.role ∈ refusedRoles) : AddsNothing db' x := by
  cases h with
  | stmt htx h => exact ha.of_frame (Stmt.frame_of_effect _ h) ho
  | refused htx => exact ha
  | commitRefused htx => exact ha
  | other hs hc hr => exact ha
  | commit htx => exact of_commit
  | _ => exact of_rollback

end AddsNothing

/-- What a request knows of its calls so far and of its open transaction. -/
structure CallView where
  events : List Event
  addsNothing : Prop

namespace CallView

def of (w : World) (x : Conn) : CallView := ⟨w.events x,AddsNothing w.db x⟩

/-- A refused request makes only the calls of one, and whoever tries the lock has made no other. -/
def spec : Spec Op Op.Ans Exn CallView where
  pre o l := (Refused l.events → o.role ∈ refusedRoles) ∧
    (o.role = .lock → ∀ e ∈ l.events, e.op.role ∈ refusedRoles)
  post o l r l' := (∃ done, l'.events = l.events ++ [⟨o,r,done⟩]) ∧
    (o.role ∈ refusedRoles → l.addsNothing → l'.addsNothing) ∧
    (o.role = .rollback → l'.addsNothing) ∧ (o.sure = true → ∃ a, r = .ok a)
  rely l l' := l'.events = l.events ∧ (l.addsNothing → l'.addsNothing)

/-- As long as every call is one of a refused request's, nothing is added. -/
def Quiet (l : CallView) : Prop :=
  (∀ e ∈ l.events, e.op.role ∈ refusedRoles) → l.addsNothing

/-- The lock has not been tried yet. -/
def Before (l : CallView) : Prop :=
  l.Quiet ∧ (∀ e ∈ l.events, e.op.role ∈ refusedRoles) ∧ ¬ Refused l.events

/-- The lock has not been refused. -/
def Open (l : CallView) : Prop := l.Quiet ∧ ¬ Refused l.events

/-- A refused request makes only the calls of one. -/
def Settled (l : CallView) : Prop :=
  l.Quiet ∧ (Refused l.events → ∀ e ∈ l.events, e.op.role ∈ refusedRoles)

theorem Before.open {l : CallView} (h : l.Before) : l.Open := ⟨h.1,h.2.2⟩

theorem Open.settled {l : CallView} (h : l.Open) : l.Settled := ⟨h.1,fun hr => absurd hr h.2⟩

theorem Quiet.rely {l l' : CallView} (h : l.Quiet) (hr : spec.rely l l') : l'.Quiet := by
  intro he
  rw [hr.1] at he
  exact hr.2 (h he)

theorem Quiet.post {l l' : CallView} {o : Op} {r : Except Exn o.Ans} (h : l.Quiet)
    (hp : spec.post o l r l') : l'.Quiet := by
  obtain ⟨⟨done,he⟩,hadd,-,-⟩ := hp
  intro hall
  rw [he] at hall
  exact hadd (hall ⟨o,r,done⟩ (by simp)) (h fun e hm => hall e (by simp [hm]))

theorem refused_append {es : List Event} {o : Op} {r : Except Exn o.Ans} {done : Bool} :
    Refused (es ++ [⟨o,r,done⟩]) ↔ Refused es ∨ ∃ key, o.lockAnswer r = some (key,false) := by
  simp [Refused,or_and_right,exists_or]

theorem not_refused_append {es : List Event} {o : Op} {r : Except Exn o.Ans} {done : Bool}
    (ho : o.role ≠ .lock) : Refused (es ++ [⟨o,r,done⟩]) ↔ Refused es := by
  simp [refused_append,Op.lockAnswer_of_role ho]

theorem before_of_within {α : Type} {p : Proc α} (h : Within [.read,.query,.newConversation] p) :
    Keeps spec Before p := by
  refine Keeps.of_all h fun o ho l hl l₁ hr => ?_
  have hl₁ : o.role ≠ .lock := fun e => (by decide : Role.lock ∉ [Role.read,.query,.newConversation]) (e ▸ ho)
  refine ⟨⟨fun href => absurd (hr.1 ▸ href) hl.2.2,fun e => absurd e hl₁⟩,fun r l₂ h₂ => ?_⟩
  have hq : l₂.Quiet := (hl.1.rely hr).post h₂
  obtain ⟨⟨done,he⟩,-⟩ := h₂
  refine ⟨hq,?_,?_⟩
  · rw [he,hr.1]
    simp only [List.mem_append,List.mem_singleton]
    rintro e (hm | rfl)
    · exact hl.2.1 e hm
    · exact (by decide : [Role.read,.query,.newConversation] ⊆ refusedRoles) ho
  · rw [he,hr.1,not_refused_append hl₁]
    exact hl.2.2

theorem open_of_within {α : Type} {rs : List Role} {p : Proc α} (h : Within rs p)
    (hs : Role.lock ∉ rs) : Keeps spec Open p := by
  refine Keeps.of_all h fun o ho l hl l₁ hr => ?_
  have hl₁ : o.role ≠ .lock := fun e => hs (e ▸ ho)
  refine ⟨⟨fun href => absurd (hr.1 ▸ href) hl.2,fun e => absurd e hl₁⟩,fun r l₂ h₂ => ?_⟩
  refine ⟨(hl.1.rely hr).post h₂,?_⟩
  obtain ⟨⟨done,he⟩,-⟩ := h₂
  rw [he,hr.1,not_refused_append hl₁]
  exact hl.2

theorem settled_of_within {α : Type} {p : Proc α} (h : Within [.read,.query,.commit,.rollback] p) :
    Keeps spec Settled p := by
  refine Keeps.of_all h fun o ho l hl l₁ hr => ?_
  have hl₁ : o.role ≠ .lock := fun e => (by decide : Role.lock ∉ [Role.read,.query,.commit,.rollback]) (e ▸ ho)
  have hmem : o.role ∈ refusedRoles :=
    (by decide : [Role.read,.query,.commit,.rollback] ⊆ refusedRoles) ho
  refine ⟨⟨fun _ => hmem,fun e => absurd e hl₁⟩,fun r l₂ h₂ => ⟨(hl.1.rely hr).post h₂,?_⟩⟩
  obtain ⟨⟨done,he⟩,-⟩ := h₂
  rw [he,hr.1,not_refused_append hl₁]
  simp only [List.mem_append,List.mem_singleton]
  rintro href e (hm | rfl)
  · exact hl.2 href e hm
  · exact hmem

open OrchestrationService in
theorem settled_handleTurn {d : Deployment} (inp : TurnInput) {l : CallView} (hl : l.Before) :
    wp spec (handleTurn d inp) (fun _ l' => l'.Settled) l := by
  refine wp_bind.mpr (wp_mono (before_of_within
    ((ConversationRepository.getOrCreate_calls ..).within.mono (by decide)) l hl) ?_)
  rintro (e | conv) l₁ hl₁
  · exact hl₁.open.settled
  refine wp_bind.mpr (wp_perform.mpr fun l₂ h₂ => ?_)
  refine ⟨⟨fun href => absurd (h₂.1 ▸ href) hl₁.2.2,fun _ => h₂.1 ▸ hl₁.2.1⟩,fun r l₃ h₃ => ?_⟩
  have hq : l₃.Quiet := (hl₁.1.rely h₂).post h₃
  obtain ⟨⟨done,he⟩,-⟩ := h₃
  have hroles : ∀ e ∈ l₃.events, e.op.role ∈ refusedRoles := by
    rw [he,h₂.1]
    simp only [List.mem_append,List.mem_singleton]
    rintro e (hm | rfl)
    · exact hl₁.2.1 e hm
    · exact (by decide : Role.lock ∈ refusedRoles)
  rcases r with e | _ | _
  · exact ⟨hq,fun _ => hroles⟩
  · exact ⟨hq,fun _ => hroles⟩
  have hopen : l₃.Open := by
    refine ⟨hq,?_⟩
    rw [he,h₂.1,refused_append]
    rintro (h | ⟨key,h⟩)
    · exact hl₁.2.2 h
    · simp [Op.lockAnswer] at h
  have hturn : Keeps spec Open ((handleTurnLocked d inp conv).ensuring
      (unlockConversation d conv.id)) :=
    Keeps.ensuring (open_of_within (handleTurnLocked_within ..) (by decide))
      (open_of_within (unlockConversation_within ..) (by decide))
  exact wp_mono (hturn l₃ hopen) fun _ _ h => h.settled

/-- A route between the request's start and the rollback that ends it. -/
theorem settled_withDb {route : Proc Response}
    (h : ∀ l : CallView, l.Before → wp spec route (fun _ l' => l'.Settled) l) {l : CallView}
    (hl : l.Before) :
    wp spec (Routes.withDb route) (fun _ l' => l'.Settled ∧ l'.addsNothing) l := by
  have hcall : ∀ o : Op, o.role ∈ [Role.read,.query,.commit,.rollback] → Keeps.Call spec Settled o :=
    fun o ho l hl l₁ h₁ => wp_perform.mp (settled_of_within ((all_perform o).mpr ho) l hl) l₁ h₁
  refine Routes.wp_withDb (A := Before) (B := Settled) ?_ h ?_ (hcall _ (by decide))
    (hcall _ (by decide)) ?_ hl
  · exact fun o l r l' ho hp => hp.2.2.2 ho
  · intro o ho l hl l₁ h₁
    have hmem : o.role ∈ [Role.read,.query,.newConversation] := by rcases ho with rfl | rfl <;> decide
    exact wp_perform.mp (before_of_within ((all_perform o).mpr hmem) l hl) l₁ h₁
  · intro l hl
    refine wp_perform.mpr fun l₁ h₁ => ?_
    have hs := wp_perform.mp (settled_of_within (Within.perform (o := Op.rollback) rfl) l hl) l₁ h₁
    exact ⟨hs.1,fun r l₂ h₂ => ⟨hs.2 r l₂ h₂,h₂.2.2.1 rfl⟩⟩

theorem settled_prog {d : Deployment} (req : Req) {l : CallView} (hl : l.Before) :
    wp spec (req.prog d) (fun _ l' => l'.Settled ∧ l'.addsNothing) l := by
  have hother : ∀ {rs : List Role} {p : Proc Response}, Within rs p → Role.lock ∉ rs →
      ∀ l : CallView, l.Before → wp spec p (fun _ l' => l'.Settled) l := fun hp hs l hl =>
    wp_mono (open_of_within hp hs l hl.open) fun _ _ h => h.settled
  cases req with
  | chat body user =>
    refine settled_withDb (fun l hl => ?_) hl
    exact Routes.wp_chat (fun inp l hl => settled_handleTurn inp hl) (fun l hl => hl.open.settled)
      (fun o ho l hl l₁ h₁ => wp_perform.mp
        (settled_of_within ((all_perform o).mpr (by simp [ho])) l hl) l₁ h₁) hl
  | finalize sid user => exact settled_withDb (hother (Routes.finalizeSession_calls ..).within (by decide)) hl
  | resume sid user => exact settled_withDb (hother (Routes.resumeSession_calls ..).within (by decide)) hl
  | abandon sid user => exact settled_withDb (hother (Routes.abandonSession_calls ..).within (by decide)) hl
  | reset c user => exact settled_withDb (hother (Routes.reset_calls ..).within (by decide)) hl
  | sweep olderThan => exact settled_withDb (hother (Routes.sweep_calls _).within (by decide)) hl

theorem rely_of_exec {d : Deployment} {w w' : World} {x y : Conn} {o : Op} {ch : Choice}
    {r : Except Exn o.Ans} (h : w.exec d x o ch = some (r,w')) (hy : y ≠ x) :
    spec.rely (of w y) (of w' y) := by
  obtain ⟨done,w₁,hp,rfl⟩ := World.performed_of_exec h
  refine ⟨?_,fun ha => AddsNothing.of_ne ha hp.db hy⟩
  simp [of,World.record,hp.events,Function.update_of_ne hy]

theorem post_of_exec {d : Deployment} {w w' : World} {x : Conn} {o : Op} {ch : Choice}
    {r : Except Exn o.Ans} (h : w.exec d x o ch = some (r,w')) :
    spec.post o (of w x) r (of w' x) := by
  obtain ⟨done,w₁,hp,rfl⟩ := World.performed_of_exec h
  refine ⟨⟨done,by simp [of,World.record,hp.events]⟩,fun ho ha => AddsNothing.of_role ha hp.db ho,
    ?_,hp.sure⟩
  intro ho
  obtain rfl := Op.eq_rollback ho
  change AddsNothing w₁.db x
  rw [hp.db.rollback_eq]
  exact AddsNothing.of_rollback

theorem Settled.rely {l l' : CallView} (h : l.Settled) (hr : spec.rely l l') : l'.Settled :=
  ⟨h.1.rely hr,by rw [hr.1]; exact h.2⟩

theorem Settled.post {l l' : CallView} {o : Op} {r : Except Exn o.Ans} (h : l.Settled)
    (hpre : spec.pre o l) (hp : spec.post o l r l') : l'.Settled := by
  refine ⟨h.1.post hp,?_⟩
  obtain ⟨⟨done,he⟩,-⟩ := hp
  rw [he,refused_append]
  simp only [List.mem_append,List.mem_singleton]
  rintro (href | ⟨key,hkey⟩) e (hm | rfl)
  · exact h.2 href e hm
  · exact hpre.1 href
  · by_cases hl : o.role = .lock
    · exact hpre.2 hl e hm
    · simp [Op.lockAnswer_of_role hl] at hkey
  · by_cases hl : o.role = .lock
    · rw [hl]
      decide
    · simp [Op.lockAnswer_of_role hl] at hkey

/-- Every request is settled at every moment. -/
def outline (d : Deployment) : Outline (system d) anyAct CallView where
  loc := of
  spec _ := spec
  G w := ∀ x, (of w x).Settled
  Free _ l := l.addsNothing
  Q _ _ l := l.Settled ∧ l.addsNothing
  rely_refl _ _ := ⟨rfl,id⟩
  rely_trans _ _ _ _ h₁ h₂ := ⟨h₂.1.trans h₁.1,h₂.2 ∘ h₁.2⟩
  free_rely x l l' hl hr := hr.2 hl
  free_end _ _ _ h := h.2
  begin_ok c x req hG hfree _ := by
    have hbefore : (of ((system d).begin c.world x req) x).Before := by
      simp only [Before,Quiet,Refused,of,system,Function.update_self]
      exact ⟨fun _ => hfree,by simp,by simp⟩
    have hrely : ∀ y, y ≠ x → spec.rely (of c.world y) (of ((system d).begin c.world x req) y) :=
      fun y hy => ⟨by simp [of,system,Function.update_of_ne hy],id⟩
    refine ⟨fun y => ?_,settled_prog req hbefore,hrely⟩
    by_cases hy : y = x
    · subst hy
      exact hbefore.open.settled
    · exact (hG y).rely (hrely y hy)
  exec_ok c x o k ch r w hG _ _ hpre he := by
    refine ⟨fun y => ?_,post_of_exec he,fun y hy => rely_of_exec he hy⟩
    by_cases hy : y = x
    · subst hy
      exact (hG y).post hpre (post_of_exec he)
    · exact (hG y).rely (rely_of_exec he hy)
  env_ok c e w hG _ he := by
    have hf := World.envFrame he
    have hof : ∀ y, of w y = of c.world y := fun y => by simp only [of,hf.events,hf.db]
    exact ⟨fun y => hof y ▸ hG y,fun y => hof y ▸ ⟨rfl,id⟩⟩

end CallView


/-- No request is being served and no transaction is open. -/
structure World.AtRest (w : World) : Prop where
  handling : ∀ x, w.handling x = none
  events : ∀ x, w.events x = []
  tx : ∀ x, w.db.tx x = .active
  sessions : ∀ k, (w.db.sessions.row k).dirty = none
  conversations : ∀ k, (w.db.conversations.row k).dirty = none
  messages : ∀ k, (w.db.messages.row k).dirty = none

theorem World.AtRest.addsNothing {w : World} (h : w.AtRest) (x : Conn) : AddsNothing w.db x where
  sessions k v hd := by simp [h.sessions k] at hd
  messages k v hd := by simp [h.messages k] at hd
  conversations k v hd := by simp [h.conversations k] at hd

/-- Over every interleaving of requests: two connections never run a handler of one conversation
at a time, and a request that is refused the lock only queries and at most creates its
conversation, so that its transaction never holds a message, a session or a pin. -/
theorem turns_exclude {d : Deployment} {w : World} {c : Config} (hw : w.AtRest)
    (h : Reach (step (system d)) anyAct (idle w) c) :
    (∀ x y conv, c.world.handling x = some conv → c.world.handling y = some conv → x = y) ∧
    (∀ x, Refused (c.world.events x) → ∀ e ∈ c.world.events x, e.op.role ∈ refusedRoles) ∧
    ∀ x, (∀ e ∈ c.world.events x, e.op.role ∈ refusedRoles) → AddsNothing c.world.db x := by
  refine ⟨?_,?_⟩
  · have hG := ((LockView.outline d).inv_of_reach h (fun x c hx => by simp [hw.handling x] at hx)
      hw.handling).1
    intro x y conv hx hy
    exact Locks.holder_unique (hG x conv hx) (hG y conv hy)
  · have hstart : ∀ x, (CallView.of w x).Settled := fun x =>
      ⟨fun _ => hw.addsNothing x,fun ⟨e,he,_⟩ => by simp [CallView.of,hw.events x] at he⟩
    have hG := ((CallView.outline d).inv_of_reach h hstart hw.addsNothing).1
    exact ⟨fun x => (hG x).2,fun x => (hG x).1⟩

/-- While one connection runs the handler, another's turn on the conversation is refused. -/
theorem turns_exclude_second : ∃ c : Config,
    (c.world.handling 0 = some 0 ∧ Refused (c.world.events 1)) ∧ c.world.handling 1 ≠ some 0 ∧
      (∀ e ∈ c.world.events 1, e.op.role ∈ refusedRoles) ∧ AddsNothing c.world.db 1 := by
  have hrun : ((play (system Sample.deployment) anyAct
      [.act (.start 0 (Sample.turn "hello" "story" .absent)),.serve 0 Sample.smooth 22,
        .act (.start 1 (Sample.turn "again" "story" (.id 0))),.serve 1 Sample.smooth 40]
      (idle Sample.world)).any fun c => decide (c.world.handling 0 = some 0) &&
        (c.world.events 1).any fun e => e.op.lockAnswer e.answer = some (Sample.deployment.turnLockKey 0,false)) =
      true := by
    decide +kernel
  obtain ⟨c,hr,hP⟩ := exists_reach_of_play hrun
  simp only [Bool.and_eq_true,decide_eq_true_eq,List.any_eq_true] at hP
  obtain ⟨h₀,e,he,hkey⟩ := hP
  have hw : Sample.world.AtRest := by constructor <;> intro <;> rfl
  obtain ⟨hex,hcalls,hadds⟩ := turns_exclude hw hr
  have href : Refused (c.world.events 1) := ⟨e,he,_,hkey⟩
  refine ⟨c,⟨h₀,href⟩,fun h₁ => absurd (hex 0 1 0 h₀ h₁) (by decide),hcalls 1 href,?_⟩
  exact hadds 1 (hcalls 1 href)

end Saarathi
