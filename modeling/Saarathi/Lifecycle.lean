import Saarathi.Footprints
import Saarathi.Statements

/-!
# The lifecycle of a session

Each statement moves a session along an edge, whatever the caller had read
before; the constraints and the row locks carry the rest over every interleaving
of the session service.
-/

namespace Saarathi

open Machine Program Program.Prog Interleaving ReadCommitted

/-- The rows that a statement may write: a new session is pending, an existing one moves along
an edge and keeps its identity. -/
def AgentSession.Step (k : ℕ) : Option AgentSession → AgentSession → Prop
  | none,v => v.id = k ∧ v.state = .pending
  | some u,v => u.state.Edge v.state ∧ v.id = u.id ∧ v.conversationId = u.conversationId ∧
      v.agentId = u.agentId

/-- A call that forces no session update. -/
def Op.Lawful (o : Op) : Prop := o.role ≠ .forced

theorem Within.lawful {α : Type} {rs : List Role} {p : Proc α} (h : Within rs p)
    (hs : Role.forced ∉ rs) : All Op.Lawful p :=
  All.mono h fun _ ho he => hs (he ▸ ho)

theorem Stmt.allowed_of_lawful {id : SessionId} {expected : List SessionState} {new : SessionState}
    {fields : FieldUpdates} (h : (Op.stmt (.updateStateAndFields id expected new fields)).Lawful) :
    ∀ s ∈ expected, new ∈ s.allowed := by
  by_contra hn
  exact h (if_neg hn)

theorem Stmt.SessionStep.step {s : Stmt} {p : Pick} {k : ℕ} {o : Option AgentSession}
    {v : AgentSession} (h : s.SessionStep p k o v) (hs : (Op.stmt s).Lawful) : AgentSession.Step k o v := by
  cases s with
  | createPending c agent language =>
    obtain ⟨rfl,rfl⟩ := h
    exact ⟨rfl,rfl⟩
  | updateStateAndFields id expected new fields =>
    obtain ⟨u,rfl,-,hu,rfl⟩ := h
    exact ⟨.inl (Stmt.allowed_of_lawful hs _ hu),rfl,rfl,rfl⟩
  | claimFinalizing id =>
    obtain ⟨u,rfl,-,hu,rfl⟩ := h
    exact ⟨.inr (.inr ⟨hu,rfl⟩),rfl,rfl,rfl⟩
  | abandonOpenSession c reason =>
    obtain ⟨u,rfl,-,hu,rfl⟩ := h
    exact ⟨.inr (.inl ⟨by simpa [AgentSession.isOpen] using hu,rfl⟩),rfl,rfl,rfl⟩
  | sweepAbandonedOlderThan cutoff reason =>
    obtain ⟨u,rfl,hu,-,rfl⟩ := h
    exact ⟨.inr (.inl ⟨by simpa [AgentSession.isOpen] using hu,rfl⟩),rfl,rfl,rfl⟩
  | _ => exact h.elim

namespace AgentSession

/-- Rows are stored under their id. -/
def Keyed (k : ℕ) (v : AgentSession) : Prop := v.id = k

theorem kept_keyed : Table.Kept Step Keyed := by
  intro k o v h ho
  cases o with
  | none => exact h.1
  | some u => exact h.2.1.trans (ho u rfl)

theorem not_step_of_terminal {k : ℕ} {u v : AgentSession} (h : u.state.terminal = true) :
    ¬ Step k (some u) v := fun hs => by simpa [h] using hs.1.not_terminal

/-- The rows are consistent and every change was made along an edge. -/
abbrev Consistent (t : Table Conn AgentSession) : Prop := Table.Consistent constraints Step Keyed t

/-- The facts about rows that the database enforces. -/
structure Sound (rows : ℕ → Option AgentSession) : Prop where
  ended : ∀ k s, rows k = some s → (s.endedAt.isSome = true ↔ s.state.terminal = true)
  result : ∀ k s, rows k = some s → s.state = .completed → s.resultRef.isSome = true
  oneOpen : ∀ k k' s s', rows k = some s → rows k' = some s' → s.isOpen = true → s'.isOpen = true →
    s.conversationId = s'.conversationId → k = k'

theorem sound_of_check {rows : ℕ → Option AgentSession}
    (hc : ∀ k s, rows k = some s → s.check = true)
    (hu : ∀ k k' s s', k ≠ k' → rows k = some s → rows k' = some s' → s.conflict s' = false) :
    Sound rows where
  ended k s h := by rw [ended_iff_terminal (hc k s h)]
  result k s h hs := resultRef_of_completed (hc k s h) hs
  oneOpen k k' s s' h h' ho ho' he := by
    by_contra hk
    have := hu k k' s s' hk h h'
    simp [conflict,ho,ho',he] at this

theorem Consistent.sound_committed {t : Table Conn AgentSession} (h : Consistent t) :
    Sound t.committed :=
  sound_of_check (fun k s hs => (h.written_committed k s hs).1) h.unique

theorem Consistent.sound_view {t : Table Conn AgentSession} (h : Consistent t) (y : Conn) :
    Sound (t.view y) :=
  sound_of_check (fun k s hs => (h.written y k s hs).1) (h.unique_view y)

/-- What one statement of `x` may do to the sessions that it sees. -/
structure Moved (x : Conn) (t t' : Table Conn AgentSession) : Prop where
  edge : ∀ k u v, t.view x k = some u → t'.view x k = some v → v.state ≠ u.state →
    u.state.Edge v.state
  final : ∀ k u, t.view x k = some u → u.state.terminal = true → t'.view x k = some u
  created : ∀ k v, t.view x k = none → t'.view x k = some v → v.state = .pending
  others : ∀ y k, y ≠ x → t'.view y k = t.view y k
  committed : ∀ k, t'.committed k = t.committed k

theorem moved_of_once {x : Conn} {t t' : Table Conn AgentSession} (h : t.Once constraints Step x t') :
    Moved x t t' where
  edge k u v hu hv hne := by
    rcases h.view k with he | ⟨v',hv',hs⟩
    · rw [hv,hu] at he
      exact absurd (congrArg state (Option.some.inj he)) hne
    · rw [hu] at hs
      obtain rfl : v' = v := Option.some.inj (hv'.symm.trans hv)
      exact hs.1
  final k u hu ht := h.wrote.view_of_final hu fun v => not_step_of_terminal ht
  created k v hn hv := by
    rcases h.view k with he | ⟨v',hv',hs⟩
    · simp [he,hn] at hv
    · rw [hn] at hs
      obtain rfl : v' = v := Option.some.inj (hv'.symm.trans hv)
      exact hs.2
  others y k hy := h.wrote.view_of_ne hy k
  committed := h.wrote.committed

end AgentSession

section Systems

variable {Req α : Type} {d : Deployment} {I : Services Req α}
variable {ok : Services.Config α → Services.Action Req → Prop} {w : World} {c c' : Services.Config α}

/-- Programs over the world of the services, whose session updates are all lawful. -/
structure LawfulOver (d : Deployment) (I : Services Req α) : Prop where
  exec : ∀ w x o ch, I.exec w x o ch = w.exec d x o ch
  env : ∀ w e, I.env w e = w.env d e
  begin_db : ∀ w x req, (I.begin w x req).db = w.db
  prog : ∀ x req, All Op.Lawful (I.prog x req)

namespace LawfulOver

/-- What every move of the session table keeps holds in every state reached. -/
theorem invariant (hI : LawfulOver d I) {G : Table Conn AgentSession → Prop}
    (hG : ∀ x t t', t.Move AgentSession.constraints AgentSession.Step x t' → G t → G t')
    (h : Reach (step I) ok c c') (hK : Guarded Op.Lawful c) (hc : G c.world.db.sessions) :
    Guarded Op.Lawful c' ∧ G c'.world.db.sessions := by
  refine invariant_of_all (G := fun w => G w.db.sessions) hI.prog ?_ ?_ ?_ h hK hc
  · intro w x req hw
    rwa [hI.begin_db]
  · intro w x o ch r w' ho hw he
    rw [hI.exec] at he
    exact hG x _ _ ((World.dbMove_of_exec he).sessions fun s p hs k u v hstep =>
      hstep.step (by subst hs; exact ho)) hw
  · intro w e w' hw he
    rw [hI.env] at he
    rwa [(World.envFrame he).db]

theorem consistent (hI : LawfulOver d I)
    (hw : w.db.sessions.Settled AgentSession.constraints AgentSession.Keyed)
    (h : Reach (step I) ok (idle w) c) :
    Guarded Op.Lawful c ∧ AgentSession.Consistent c.world.db.sessions :=
  hI.invariant (fun _ _ _ hm hc => hc.move AgentSession.kept_keyed hm) h (guarded_idle w)
    hw.consistent

/-- A committed session that has ended stays as it is. -/
theorem final (hI : LawfulOver d I) (h : Reach (step I) ok c c') (hK : Guarded Op.Lawful c)
    (hc : AgentSession.Consistent c.world.db.sessions) {k : ℕ} {u : AgentSession}
    (hu : c.world.db.sessions.committed k = some u) (ht : u.state.terminal = true) :
    c'.world.db.sessions.committed k = some u := by
  refine (hI.invariant (G := fun t => AgentSession.Consistent t ∧ t.committed k = some u)
    (fun x t t' hm ⟨hc,hu⟩ => ⟨hc.move AgentSession.kept_keyed hm,?_⟩) h hK ⟨hc,hu⟩).2.2
  exact hc.committed_of_final hu (fun v => AgentSession.not_step_of_terminal ht) hm

/-- A statement that goes through moves sessions along edges. -/
theorem moved {x : Conn} {s : Stmt} {k : Except Exn s.Ans → Proc α} {ch : Choice} {a : s.Ans}
    {w' : World} (hK : Guarded Op.Lawful c) (hx : c.procs x = some (.call (.stmt s) k))
    (he : c.world.exec d x (.stmt s) ch = some (.ok a,w')) :
    AgentSession.Moved x c.world.db.sessions w'.db.sessions := by
  have hs : (Op.stmt s).Lawful := (hK x _ hx).1
  have hm := World.dbMove_of_exec he
  generalize hr : (Except.ok a : Except Exn (Op.Ans (.stmt s))) = r at hm
  generalize w'.db = db' at hm ⊢
  cases hm with
  | stmt htx h =>
    exact AgentSession.moved_of_once ((Stmt.frame_of_effect _ h).sessions.mono fun _ _ _ hv =>
      hv.step hs)
  | rejected htx => cases hr
  | refused htx => cases hr
  | other h₁ h₂ h₃ => exact absurd rfl (h₁ s)

end LawfulOver

end Systems

/-- One call of the session service, or the end of the caller's transaction. -/
inductive ServiceCall where
  | openFor (c : ConversationId) (agent : RegisteredAgent)
  | apply (session : AgentSession) (delta : SessionDelta)
  | claimFinalizing (id : SessionId)
  | abandon (c : ConversationId) (reason actor : String)
  | sweepAbandoned (olderThan : ℕ)
  | commit
  | rollback

namespace ServiceCall

def prog : ServiceCall → Proc Unit
  | openFor c agent => do
    let _ ← SessionService.openFor c agent (MitraSessionManager.close c)
  | apply session delta => do let _ ← SessionService.apply session delta
  | claimFinalizing id => do let _ ← SessionService.claimFinalizing id
  | abandon c reason actor => do let _ ← SessionService.abandon c reason actor
  | sweepAbandoned olderThan => do let _ ← SessionService.sweepAbandoned olderThan
  | commit => perform Op.commit
  | rollback => perform Op.rollback

/-- The calls one after another, each caught. -/
def progs : List ServiceCall → Proc Unit
  | [] => pure ()
  | s :: ss => do
    let _ ← s.prog.attempt
    progs ss

end ServiceCall

/-- Any number of connections that each call the session service, in any order. -/
def sessionServices (d : Deployment) :
    Interp World Conn (List ServiceCall) Choice World.EnvAct Op Op.Ans Exn Unit where
  prog _ calls := ServiceCall.progs calls
  begin w _ _ := w
  exec w x o ch := w.exec d x o ch
  env w e := w.env d e

theorem ServiceCall.progs_within (calls : List ServiceCall) :
    Within OrchestrationService.serviceRoles (ServiceCall.progs calls) := by
  induction calls with
  | nil => trivial
  | cons s ss ih =>
    refine Within.bind (Within.attempt ?_) fun _ => ih
    cases s with
    | openFor c agent =>
      refine Within.bind ((SessionService.openFor_calls ?_).within.mono (by decide)) fun _ => trivial
      exact Straight.bind (Straight.perform rfl) fun _ => ⟨trivial,trivial⟩
    | apply session delta =>
      exact Within.bind ((SessionService.apply_calls ..).within.mono (by decide)) fun _ => trivial
    | claimFinalizing id =>
      exact Within.bind ((SessionService.claimFinalizing_calls _).within.mono (by decide)) fun _ => trivial
    | abandon c reason actor =>
      exact Within.bind ((SessionService.abandon_calls ..).within.mono (by decide)) fun _ => trivial
    | sweepAbandoned olderThan =>
      exact Within.bind ((SessionService.sweepAbandoned_calls _).within.mono (by decide)) fun _ => trivial
    | commit => exact Within.perform rfl
    | rollback => exact Within.perform rfl

theorem sessionServices_lawful (d : Deployment) : LawfulOver d (sessionServices d) :=
  ⟨fun _ _ _ _ => rfl,fun _ _ => rfl,fun _ _ _ => rfl,fun _ calls =>
    (ServiceCall.progs_within calls).lawful (by decide)⟩

theorem system_lawful (d : Deployment) : LawfulOver d (system d) :=
  ⟨fun _ _ _ _ => rfl,fun _ _ => rfl,fun _ _ _ => rfl,fun _ req =>
    (req.prog_within d).lawful (by decide)⟩

/-- Over every interleaving of the session service: the committed rows and every transaction's
own are sound, each statement moves sessions along edges, and an ended session is final. -/
theorem session_lifecycle {d : Deployment} {w : World} {c : Services.Config Unit}
    (hw : w.db.sessions.Settled AgentSession.constraints AgentSession.Keyed)
    (h : Reach (step (sessionServices d)) anyAct (idle w) c) :
    (AgentSession.Sound c.world.db.sessions.committed ∧
      ∀ y, AgentSession.Sound (c.world.db.sessions.view y)) ∧
    (∀ x s k ch a w', c.procs x = some (.call (.stmt s) k) →
      c.world.exec d x (.stmt s) ch = some (.ok a,w') →
      AgentSession.Moved x c.world.db.sessions w'.db.sessions) ∧
    ∀ c' k u, Reach (step (sessionServices d)) anyAct c c' →
      c.world.db.sessions.committed k = some u → u.state.terminal = true →
      c'.world.db.sessions.committed k = some u := by
  have hI := sessionServices_lawful d
  obtain ⟨hK,hc⟩ := hI.consistent hw h
  refine ⟨⟨hc.sound_committed,hc.sound_view⟩,?_,?_⟩
  · intro x s k ch a w' hx he
    exact LawfulOver.moved hK hx he
  · intro c' k u hr hu ht
    exact hI.final hr hK hc hu ht

theorem session_lifecycle_swept : ∃ c : Services.Config Unit,
    (∃ s, c.world.db.sessions.committed 0 = some s ∧ s.state = .abandoned) ∧
      AgentSession.Sound c.world.db.sessions.committed := by
  have hrun : ((run (step (sessionServices Sample.deployment)) anyAct (idle {})
      [.start 0 [.openFor 5 Sample.interviewer,.sweepAbandoned 9,.commit],
        .call 0 (.db (.go {})),.call 0 (.db (.go { now := 7 })),.call 0 (.db (.go { now := 10 })),
        .call 0 (.db (.go {})),.call 0 (.db (.go {})),.call 0 (.db (.go {})),.finish 0]).any
      fun c => (c.world.db.sessions.committed 0).any fun s => s.state = .abandoned) = true := by
    decide +kernel
  obtain ⟨c,hr,hs⟩ := exists_reach_of_run hrun
  refine ⟨c,?_,(session_lifecycle Table.settled_empty hr).1.1⟩
  simpa [Option.any_eq_true] using hs

end Saarathi
