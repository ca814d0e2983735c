import Saarathi.Footprints
import Saarathi.Lasting
import Saarathi.Lifecycle
import Saarathi.TurnLock

/-!
# Between requests

However a request ends, its transaction is over: nothing that it has not
committed is left on its connection for the next one.
-/

namespace Saarathi

open Machine Program Program.Prog Interleaving ReadCommitted

/-- The connection has written nothing since its last commit, and may issue statements. -/
structure Database.Idle (db : Database) (x : Conn) : Prop where
  sessions : ∀ k v, (db.sessions.row k).dirty ≠ some (x,v)
  conversations : ∀ k v, (db.conversations.row k).dirty ≠ some (x,v)
  messages : ∀ k v, (db.messages.row k).dirty ≠ some (x,v)
  tx : db.tx x = .active

theorem World.AtRest.idle {w : World} (h : w.AtRest) (x : Conn) : w.db.Idle x where
  sessions k v hd := by simp [h.sessions k] at hd
  conversations k v hd := by simp [h.conversations k] at hd
  messages k v hd := by simp [h.messages k] at hd
  tx := h.tx x

namespace Leftovers

variable {d : Deployment} {x y : Conn} {w w' : World}

theorem idle_discard {db : Database} : (db.discard x .active).Idle x where
  sessions := Table.not_dirty_rollback
  conversations := Table.not_dirty_rollback
  messages := Table.not_dirty_rollback
  tx := by simp [Database.discard]

/-- The calls of others leave an idle connection so. -/
theorem idle_of_ne {adapt : Json → Option String} {db db' : Database} {o : Op} {r : Except Exn o.Ans}
    (hi : db.Idle y) (h : DbMove adapt x db o r db') (hy : y ≠ x) : db'.Idle y where
  sessions k v hd := hi.sessions k v
    ((h.sessions (T := fun _ _ _ => True) fun _ _ _ _ _ _ _ => trivial).dirty_of_ne hy hd)
  conversations k v hd := hi.conversations k v
    ((h.conversations (T := fun _ _ _ => True) fun _ _ _ _ _ _ _ => trivial).dirty_of_ne hy hd)
  messages k v hd := hi.messages k v
    ((h.messages (T := fun _ _ _ => True) fun _ _ _ _ _ _ => trivial).dirty_of_ne hy hd)
  tx := (h.tx_of_ne hy).trans hi.tx

def spec (d : Deployment) (x : Conn) : Spec Op Op.Ans Exn World where
  pre _ _ := True
  post o w r w' := ∃ ch, w.exec d x o ch = some (r,w')
  rely w w' := w.db.Idle x → w'.db.Idle x

theorem wp_prog (req : Req) (w : World) : wp (spec d x) (req.prog d) (fun _ w' => w'.db.Idle x) w := by
  have hplain : ∀ o : Op, Keeps.Call (spec d x) (fun _ => True) o := fun _ _ _ _ _ => ⟨trivial,fun _ _ _ => trivial⟩
  have hroute : ∀ route : Proc Response, wp (spec d x) (Routes.withDb route) (fun _ w' => w'.db.Idle x) w := by
    intro route
    refine Routes.wp_withDb (A := fun _ => True) (B := fun _ => True) (D := fun w => w.db.Idle x) ?_
      (fun w _ => wp_any (fun _ _ => trivial) route w) (fun o _ => hplain o) (hplain _) (hplain _) ?_ trivial
    · rintro o w r w' ho ⟨ch,he⟩
      obtain ⟨done,w₁,hp,-⟩ := World.performed_of_exec he
      exact hp.sure ho
    · refine fun w _ => wp_perform.mpr fun w₁ _ => ⟨trivial,?_⟩
      rintro r w₂ ⟨ch,he⟩
      have hm := World.dbMove_of_exec he
      generalize w₂.db = db₂ at hm ⊢
      cases hm with
      | rollback => exact idle_discard
      | other hs hc hr => exact absurd rfl hr
  cases req with
  | chat body user => exact hroute _
  | finalize sid user => exact hroute _
  | resume sid user => exact hroute _
  | abandon sid user => exact hroute _
  | reset c user => exact hroute _
  | sweep olderThan => exact hroute _

/-- A connection that serves no request is idle. -/
def outline (d : Deployment) : Outline (system d) anyAct World where
  loc w _ := w
  spec := spec d
  G _ := True
  Free x w := w.db.Idle x
  Q x _ w := w.db.Idle x
  rely_refl _ _ h := h
  rely_trans _ _ _ _ h₁ h₂ h := h₂ (h₁ h)
  free_rely _ _ _ hi h := h hi
  free_end _ _ _ h := h
  begin_ok _ _ req _ _ _ := ⟨trivial,wp_prog req _,fun _ _ h => h⟩
  exec_ok _ _ _ _ ch _ _ _ _ _ _ he :=
    ⟨trivial,⟨ch,he⟩,fun _ hy hi => idle_of_ne hi (World.dbMove_of_exec he) hy⟩
  env_ok _ _ _ _ _ he := by
    refine ⟨trivial,fun y hi => ?_⟩
    rw [(World.envFrame he).db]
    exact hi

end Leftovers

/-- Whatever a request did and however it ended, also by an exception that escapes or a refused
commit: once it has ended, its connection has nothing uncommitted and may issue statements. -/
theorem requests_leave_nothing {d : Deployment} {w : World} {c : Config} (hw : ∀ x, w.db.Idle x)
    (h : Reach (step (system d)) anyAct (idle w) c) {x : Conn} (hx : c.procs x = none ∨ c.Ended x) :
    c.world.db.Idle x := by
  have hrun := ((Leftovers.outline d).inv_of_reach h trivial hw).2 x
  rcases hx with hx | ⟨p,hx,hcall⟩
  · rwa [hx] at hrun
  · rw [hx] at hrun
    obtain ⟨l,hl,hp⟩ := hrun
    cases p with
    | done a => exact hl hp
    | fail e => exact hl hp
    | call o k => exact absurd rfl (hcall o k)

namespace Sample

/-- Every call goes through, but for the storing of messages. -/
def refusing (w : World) : Op → Choice
  | .stmt (.insertMessage _) => .db .reject
  | o => smooth w o

end Sample

/-- A first turn whose message is rejected: the conversation that it had created is gone. -/
theorem requests_leave_nothing_rejected : ∃ c : Config, c.Ended 0 ∧ c.world.db.conversations.keys = [0] ∧
    c.world.db.Idle 0 := by
  have hrun : ((play (system Sample.deployment) anyAct
      [.act (.start 0 (Sample.turn "hello" "assistant" .absent)),.serve 0 Sample.refusing 60]
      (idle Sample.world)).any fun c => decide (c.Ended 0 ∧ c.world.db.conversations.keys = [0])) = true := by
    decide +kernel
  obtain ⟨c,hr,hP⟩ := exists_reach_of_play hrun
  obtain ⟨hend,hkeys⟩ := of_decide_eq_true hP
  refine ⟨c,hend,hkeys,requests_leave_nothing (fun x => ?_) hr (.inr hend)⟩
  constructor <;> simp [Sample.world]

end Saarathi
