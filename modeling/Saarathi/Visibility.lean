import Saarathi.Lifecycle

/-!
# What a request can rely on

Other requests leave a request's own record, its transaction and the rows it has
written, and a session stays the one it is; its own calls change what they are
for.
-/

namespace Saarathi

open Machine Program Program.Prog Interleaving ReadCommitted

/-- The run of a handler that a call marks. -/
def Op.run : Op → Option HandlerRun
  | .handleBegin _ run => some run
  | _ => none

/-- The registry's snapshot that a call has yielded. -/
def Op.registry : (o : Op) → Except Exn o.Ans → Option AgentRegistry
  | .snapshot,r => match (r : Except Exn AgentRegistry) with
    | .ok registry => some registry
    | .error _ => none
  | _,_ => none

namespace World

variable (w : World) (x : Conn)

/-- The run of a handler in the request on `x`. -/
def run : Option HandlerRun := (w.events x).findSome? fun e => e.op.run

/-- What the request on `x` has read last. -/
def lastRead {α : Type} (f : (o : Op) → Except Exn o.Ans → Option α) : Option α :=
  ((w.events x).filterMap fun e => f e.op e.answer).getLast?

variable {w x} {o : Op} {r : Except Exn o.Ans} {done : Bool}

theorem run_record : (w.record x ⟨o,r,done⟩).run x = (w.run x).or o.run := by
  simp only [run,record,Function.update_self,List.findSome?_append]
  cases h : o.run with
  | none => simp [h]
  | some run => simp [h]

theorem run_of_role (ho : o.role ≠ .mark) : o.run = none := by
  cases o with
  | handleBegin c run => exact absurd rfl ho
  | _ => rfl

theorem lastRead_record {α : Type} (f : (o : Op) → Except Exn o.Ans → Option α) :
    (w.record x ⟨o,r,done⟩).lastRead x f = (f o r).or (w.lastRead x f) := by
  simp only [lastRead,record,Function.update_self,List.filterMap_append]
  cases h : f o r with
  | none => simp [h]
  | some a => simp [h]

end World

/-- The same session, at another time. -/
structure AgentSession.Same (u v : AgentSession) : Prop where
  id : v.id = u.id
  conversationId : v.conversationId = u.conversationId
  agentId : v.agentId = u.agentId

namespace AgentSession

variable {u v : AgentSession}

theorem Same.refl (u : AgentSession) : Same u u := ⟨rfl,rfl,rfl⟩

theorem Same.trans {t : AgentSession} (h₁ : Same t u) (h₂ : Same u v) : Same t v :=
  ⟨h₂.id.trans h₁.id,h₂.conversationId.trans h₁.conversationId,h₂.agentId.trans h₁.agentId⟩

theorem same_of_leads {k : ℕ} {o : Option AgentSession} (h : Table.Leads (Step k) (some u) o) :
    ∃ v, o = some v ∧ Same u v := by
  induction h with
  | refl => exact ⟨u,rfl,.refl u⟩
  | tail _ hstep ih =>
    obtain ⟨v,rfl,hv⟩ := ih
    obtain ⟨v',rfl,hs⟩ := hstep
    exact ⟨v',rfl,hv.trans ⟨hs.2.1,hs.2.2.1,hs.2.2.2⟩⟩

end AgentSession

/-- What everybody else leaves as the request on `x` sees it: its own record and transaction, and
which session a row is. -/
structure Unmoved (x : Conn) (w w' : World) : Prop where
  events : w'.events x = w.events x
  serving : w'.serving x = w.serving x
  tx : w'.db.tx x = w.db.tx x
  own : ∀ k v, (w.db.sessions.row k).dirty = some (x,v) → w'.db.sessions.row k = w.db.sessions.row k
  dirty : ∀ k v, (w'.db.sessions.row k).dirty = some (x,v) →
    (w.db.sessions.row k).dirty = some (x,v)
  same : ∀ k u, w.db.sessions.view x k = some u → ∃ v, w'.db.sessions.view x k = some v ∧ u.Same v

namespace Unmoved

variable {d : Deployment} {x y : Conn} {w w' w'' : World}

theorem of_eq (he : w'.events x = w.events x) (hs : w'.serving x = w.serving x) (hdb : w'.db = w.db) :
    Unmoved x w w' where
  events := he
  serving := hs
  tx := by rw [hdb]
  own k v _ := by rw [hdb]
  dirty k v hd := by rwa [hdb] at hd
  same k u hu := ⟨u,by rwa [hdb],.refl u⟩

theorem refl (w : World) : Unmoved x w w := of_eq rfl rfl rfl

theorem trans (h₁ : Unmoved x w w') (h₂ : Unmoved x w' w'') : Unmoved x w w'' where
  events := h₂.events.trans h₁.events
  serving := h₂.serving.trans h₁.serving
  tx := h₂.tx.trans h₁.tx
  own k v hd := by
    have hr := h₁.own k v hd
    exact (h₂.own k v (hr ▸ hd)).trans hr
  dirty k v hd := h₁.dirty k v (h₂.dirty k v hd)
  same k u hu := by
    obtain ⟨v,hv,huv⟩ := h₁.same k u hu
    obtain ⟨v',hv',hvv⟩ := h₂.same k v hv
    exact ⟨v',hv',huv.trans hvv⟩

/-- A session of which another transaction has a version is still the same one for `x`. -/
theorem same_of_move {t t' : Table Conn AgentSession} {k : ℕ} {u : AgentSession}
    (hc : AgentSession.Consistent t) (hy : y ≠ x)
    (hm : t.Move AgentSession.constraints (fun _ _ _ => True) y t') (hu : t.view x k = some u) :
    ∃ v, t'.view x k = some v ∧ u.Same v := by
  cases hm with
  | wrote hw => exact ⟨u,(hw.view_of_ne hy.symm k).trans hu,.refl u⟩
  | commit =>
    rcases Row.view_commit_cases (r := t.row k) (x := y) x with he | ⟨v,hd,he⟩
    · exact ⟨u,he.trans hu,.refl u⟩
    · have hcommitted : t.view x k = t.committed k := Row.view_of_not_dirty (Row.not_dirty_of_ne hd hy)
      have hleads := hc.leads y k
      have hview : t.view y k = some v := Row.view_of_dirty hd
      rw [← hcommitted,hu,hview] at hleads
      obtain ⟨v',hv',hs⟩ := AgentSession.same_of_leads hleads
      obtain rfl := Option.some.inj hv'
      exact ⟨v,he,hs⟩
  | rollback => exact ⟨u,(Table.view_rollback_of_ne hy.symm).trans hu,.refl u⟩

/-- A call of another request. -/
theorem of_exec {o : Op} {ch : Choice} {r : Except Exn o.Ans} (hy : y ≠ x)
    (hc : AgentSession.Consistent w.db.sessions) (he : w.exec d y o ch = some (r,w')) :
    Unmoved x w w' := by
  obtain ⟨done,w₁,hp,hw⟩ := World.performed_of_exec he
  have hdb : w'.db = w₁.db := by rw [hw]; rfl
  have hm := hp.db.sessions (T := fun _ _ _ => True) fun _ _ _ _ _ _ _ => trivial
  rw [← hdb] at hm
  refine ⟨?_,?_,?_,?_,?_,fun k u hu => same_of_move hc hy hm hu⟩
  · rw [hw]
    simp [World.record,hp.events,Function.update_of_ne hy.symm]
  · rw [hw]
    simp [World.record,hp.serving]
  · rw [hdb]
    exact hp.db.tx_of_ne hy.symm
  · intro k v hd
    exact hm.row_of_dirty hy.symm hd
  · intro k v hd
    exact hm.dirty_of_ne hy.symm hd

theorem of_env {e : World.EnvAct} (he : w.env d e = some w') : Unmoved x w w' := by
  have hf := World.envFrame he
  exact of_eq (by rw [hf.events]) (by rw [hf.serving]) hf.db

theorem of_begin {req : Req} (hy : y ≠ x) : Unmoved x w ((system d).begin w y req) :=
  of_eq (by simp [system,Function.update_of_ne hy.symm]) (by simp [system,Function.update_of_ne hy.symm]) rfl

theorem run (h : Unmoved x w w') : w'.run x = w.run x := by
  simp only [World.run,h.events]

theorem lastRead (h : Unmoved x w w') {α : Type} (f : (o : Op) → Except Exn o.Ans → Option α) :
    w'.lastRead x f = w.lastRead x f := by
  simp only [World.lastRead,h.events]

end Unmoved

/-- `x` changes the session `id` from `u` to `v`, and no other. -/
structure Database.Changes (x : Conn) (id : SessionId) (u v : AgentSession) (db db' : Database) :
    Prop where
  view : db.sessions.view x id = some u
  key : u.id = id
  row : db'.sessions.row id = (db.sessions.row id).put x v
  others : ∀ k, k ≠ id → db'.sessions.row k = db.sessions.row k

namespace Database

variable {x : Conn} {id : SessionId} {u v : AgentSession} {db db' : Database}

/-- The changed row is a version of `x`. -/
theorem Changes.own (h : Changes x id u v db db') : (db'.sessions.row u.id).dirty = some (x,v) := by
  obtain rfl := h.key
  rw [h.row]
  rfl

/-- An update whose condition holds of one session at most. -/
theorem changes_of_updateWhere {q : AgentSession → Bool} {f : AgentSession → AgentSession}
    {rows : List AgentSession} (hc : AgentSession.Consistent db.sessions)
    (hq : ∀ k u, db.sessions.view x k = some u → q u = true → u.id = id)
    (h : db.updateSessions x q f = .ok (rows,db')) :
    (rows = [] ∧ (∀ k u, db.sessions.view x k = some u → q u = false) ∧
      db'.sessions.row = db.sessions.row) ∨
      ∃ u, q u = true ∧ rows = [f u] ∧ Changes x id u (f u) db db' := by
  obtain ⟨t,ht,rfl⟩ := updateSessions_ok h
  have hkey : ∀ k u, db.sessions.view x k = some u → q u = true → k = id := by
    intro k u hu hqu
    exact (hc.written x k u hu).2.symm.trans (hq k u hu hqu)
  rcases Table.updateWhere_one hkey ht with ⟨hrows,hnone,hsame⟩ | ⟨u,hu,hqu,hrows,hput,hsame⟩
  · exact .inl ⟨hrows,hnone,funext hsame⟩
  · exact .inr ⟨u,hqu,hrows,⟨hu,hq id u hu hqu,hput,hsame⟩⟩

theorem changes_of_updateSessions {q : AgentSession → Bool} {f : AgentSession → AgentSession}
    {rows : List AgentSession} (hc : AgentSession.Consistent db.sessions)
    (h : db.updateSessions x (fun s => s.id = id && q s) f = .ok (rows,db')) :
    (rows = [] ∧ (∀ u, db.sessions.view x id = some u → q u = false) ∧
      db'.sessions.row = db.sessions.row) ∨
      ∃ u, q u = true ∧ rows = [f u] ∧ Changes x id u (f u) db db' := by
  have hkey : ∀ k u, db.sessions.view x k = some u → (decide (u.id = id) && q u) = true → u.id = id := by
    intro k u _ hq
    simp only [Bool.and_eq_true,decide_eq_true_eq] at hq
    exact hq.1
  rcases changes_of_updateWhere hc hkey h with ⟨hrows,hnone,hsame⟩ | ⟨u,hq,hrows,hchange⟩
  · refine .inl ⟨hrows,?_,hsame⟩
    intro u hu
    have hid : u.id = id := (hc.written x id u hu).2
    simpa [hid] using hnone id u hu
  · simp only [Bool.and_eq_true] at hq
    exact .inr ⟨u,hq.2,hrows,hchange⟩

end Database

/-- A call of `x`, between two worlds whose rows are consistent. -/
structure Called (d : Deployment) (x : Conn) (o : Op) (w : World) (r : Except Exn o.Ans) (w' : World) :
    Prop where
  before : AgentSession.Consistent w.db.sessions
  after : AgentSession.Consistent w'.db.sessions
  exec : ∃ ch, w.exec d x o ch = some (r,w')

theorem called_of_exec {d : Deployment} {x : Conn} {o : Op} {w w' : World} {ch : Choice}
    {r : Except Exn o.Ans} (hc : AgentSession.Consistent w.db.sessions) (hl : o.Lawful)
    (he : w.exec d x o ch = some (r,w')) : Called d x o w r w' := by
  refine ⟨hc,?_,ch,he⟩
  apply hc.move AgentSession.kept_keyed
  apply (World.dbMove_of_exec he).sessions
  rintro s p rfl k u v hstep
  exact hstep.step hl

namespace Called

variable {d : Deployment} {x : Conn} {o : Op} {w w' : World} {r : Except Exn o.Ans}

theorem performed (h : Called d x o w r w') :
    ∃ done w₁, Performed d x w o r done w₁ ∧ w' = w₁.record x ⟨o,r,done⟩ := by
  obtain ⟨ch,he⟩ := h.exec
  exact World.performed_of_exec he

theorem db (h : Called d x o w r w') : DbMove d.adapt x w.db o r w'.db := by
  obtain ⟨ch,he⟩ := h.exec
  exact World.dbMove_of_exec he

theorem sure (h : Called d x o w r w') (ho : o.sure = true) : ∃ a, r = .ok a := by
  obtain ⟨done,w₁,hp,-⟩ := h.performed
  exact hp.sure ho

theorem serving (h : Called d x o w r w') : w'.serving = w.serving := by
  obtain ⟨done,w₁,hp,hw⟩ := h.performed
  rw [hw]
  exact hp.serving

theorem run (h : Called d x o w r w') : w'.run x = (w.run x).or o.run := by
  obtain ⟨done,w₁,hp,hw⟩ := h.performed
  rw [hw,World.run_record]
  simp only [World.run,hp.events]

theorem lastRead (h : Called d x o w r w') {α : Type} (f : (o : Op) → Except Exn o.Ans → Option α) :
    w'.lastRead x f = (f o r).or (w.lastRead x f) := by
  obtain ⟨done,w₁,hp,hw⟩ := h.performed
  rw [hw,World.lastRead_record]
  simp only [World.lastRead,hp.events]

/-- A statement that goes through. -/
theorem effect {s : Stmt} {a : s.Ans} (h : Called d x (.stmt s) w (.ok a) w') :
    ∃ p, s.effect d.adapt w.db x p = .ok (a,w'.db) := by
  have hm := h.db
  generalize hr : (Except.ok a : Except Exn (Op.Ans (.stmt s))) = r at hm
  generalize w'.db = db' at hm ⊢
  cases hm with
  | stmt htx he =>
    obtain rfl := Except.ok.inj hr
    exact ⟨_,he⟩
  | rejected htx => cases hr
  | refused htx => cases hr
  | other hs hc hr' => exact absurd rfl (hs s)

/-- A call that the database has no part in. -/
theorem db_of_role (h : Called d x o w r w') (ho : o.role.isDb = false) : w'.db = w.db :=
  h.db.eq_of_role ho

/-- A statement that writes no session. -/
theorem row_of_stmt {s : Stmt} {a : s.Ans} (h : Called d x (.stmt s) w (.ok a) w')
    (hs : s.role ∉ [Role.create,.apply,.forced,.claim,.abandon]) :
    w'.db.sessions.row = w.db.sessions.row := by
  obtain ⟨p,he⟩ := h.effect
  funext k
  rcases (Stmt.frame_of_effect s he).sessions.row k with hr | ⟨v,-,hstep⟩
  · exact hr
  · exact absurd hstep.role hs

/-- A statement that fails leaves the rows that `x` has not written. -/
theorem row_of_error {s : Stmt} {e : Exn} (h : Called d x (.stmt s) w (.error e) w') {k : ℕ}
    (hd : ∀ v, (w.db.sessions.row k).dirty ≠ some (x,v)) :
    w'.db.sessions.row k = w.db.sessions.row k := by
  have hm := h.db
  generalize hr : (Except.error e : Except Exn (Op.Ans (.stmt s))) = r at hm
  generalize w'.db = db' at hm ⊢
  cases hm with
  | stmt htx he => cases hr
  | rejected htx => exact Row.rollback_of_not_dirty hd
  | refused htx => rfl
  | other hs hc hr' => exact absurd rfl (hs s)

/-- A call that writes no session leaves the rows that `x` has not written. -/
theorem row_of_role (h : Called d x o w r w') (ho : o.role ∉ [Role.create,.apply,.forced,.claim,.abandon])
    {k : ℕ} (hd : ∀ v, (w.db.sessions.row k).dirty ≠ some (x,v)) :
    w'.db.sessions.row k = w.db.sessions.row k := by
  have hm := h.db
  generalize w'.db = db' at hm ⊢
  cases hm with
  | stmt htx he =>
    rcases (Stmt.frame_of_effect _ he).sessions.row k with hr | ⟨v,-,hstep⟩
    · exact hr
    · exact absurd hstep.role ho
  | rejected htx => exact Row.rollback_of_not_dirty hd
  | refused htx => rfl
  | commit htx => exact Row.commit_of_not_dirty hd
  | commitRejected htx => exact Row.rollback_of_not_dirty hd
  | commitAborted htx => exact Row.rollback_of_not_dirty hd
  | commitRefused htx => rfl
  | rollback => exact Row.rollback_of_not_dirty hd
  | other hs hc hr => rfl

/-- What `x` has written after a call it had written before, or the call's statement has. -/
theorem written (h : Called d x o w r w') {k : ℕ} {v : AgentSession}
    (hd : (w'.db.sessions.row k).dirty = some (x,v)) :
    (w.db.sessions.row k).dirty = some (x,v) ∨
      ∃ s p, o = .stmt s ∧ s.SessionStep p k (w.db.sessions.view x k) v := by
  have hm := h.db
  generalize w'.db = db' at hm hd
  cases hm with
  | stmt htx he =>
    rcases (Stmt.frame_of_effect _ he).sessions.row k with hr | ⟨u,hr,hstep⟩
    · exact .inl (hr ▸ hd)
    · rw [hr,Row.put_dirty] at hd
      obtain rfl : u = v := (Prod.mk.inj (Option.some.inj hd)).2
      exact .inr ⟨_,_,rfl,hstep⟩
  | rejected htx => exact absurd hd (Table.not_dirty_rollback k v)
  | refused htx => exact .inl hd
  | commit htx => exact absurd hd (Table.not_dirty_commit k v)
  | commitRejected htx => exact absurd hd (Table.not_dirty_rollback k v)
  | commitAborted htx => exact absurd hd (Table.not_dirty_rollback k v)
  | commitRefused htx => exact .inl hd
  | rollback => exact absurd hd (Table.not_dirty_rollback k v)
  | other hs hc hr => exact .inl hd

/-- Only a commit changes committed rows, to what `x` has written. -/
theorem committed (h : Called d x o w r w') (k : ℕ) :
    w'.db.sessions.committed k = w.db.sessions.committed k ∨
      o = .commit ∧ ∃ v, (w.db.sessions.row k).dirty = some (x,v) ∧
        w'.db.sessions.committed k = some v := by
  have hm := h.db
  generalize w'.db = db' at hm ⊢
  cases hm with
  | stmt htx he => exact .inl ((Stmt.frame_of_effect _ he).sessions.wrote.committed k)
  | commit htx =>
    rcases Row.dirty_or x (w.db.sessions.row k) with ⟨v,hd⟩ | hd
    · refine .inr ⟨rfl,v,hd,?_⟩
      exact congrArg Row.committed (Row.commit_of_dirty hd)
    · exact .inl (congrArg Row.committed (Row.commit_of_not_dirty hd))
  | refused htx => exact .inl rfl
  | commitRefused htx => exact .inl rfl
  | other hs hc hr => exact .inl rfl
  | _ => exact .inl (Table.committed_rollback x _ k)

/-- A rollback leaves nothing that `x` has written. -/
theorem clean_of_rollback {r : Except Exn Unit} (h : Called d x .rollback w r w') (k : ℕ)
    (v : AgentSession) : (w'.db.sessions.row k).dirty ≠ some (x,v) := by
  rw [h.db.rollback_eq]
  exact Table.not_dirty_rollback k v

/-- A statement goes through only in a transaction that is not aborted. -/
theorem tx_of_ok {s : Stmt} {a : s.Ans} (h : Called d x (.stmt s) w (.ok a) w') :
    w.db.tx x = .active ∧ w'.db.tx x = .active := by
  have htx : w.db.tx x = .active := by
    by_contra hn
    have := (h.db.of_inactive hn).1
    cases this
  rcases h.db.of_active htx with ⟨htx',-⟩ | ⟨hr,-,-⟩
  · exact ⟨htx,htx'⟩
  · simp [Op.rejects] at hr

/-- A statement that fails undoes what `x` has written. -/
theorem clean_of_error {s : Stmt} {e : Exn} (h : Called d x (.stmt s) w (.error e) w')
    (htx : w.db.tx x = .active) (k : ℕ) (v : AgentSession) :
    (w'.db.sessions.row k).dirty ≠ some (x,v) := by
  have hm := h.db
  generalize hr : (Except.error e : Except Exn (Op.Ans (.stmt s))) = r at hm
  generalize w'.db = db' at hm ⊢
  cases hm with
  | stmt htx he => cases hr
  | rejected htx => exact Table.not_dirty_rollback k v
  | refused htx' => exact absurd htx htx'
  | other hs hc hr' => exact absurd rfl (hs s)

/-- A statement that fails writes nothing. -/
theorem dirty_of_error {s : Stmt} {e : Exn} (h : Called d x (.stmt s) w (.error e) w') {k : ℕ}
    {v : AgentSession} (hd : (w'.db.sessions.row k).dirty = some (x,v)) :
    (w.db.sessions.row k).dirty = some (x,v) := by
  by_cases htx : w.db.tx x = .active
  · exact absurd hd (h.clean_of_error htx k v)
  · rwa [(h.db.of_inactive htx).2] at hd

/-- The rows of a session that a query by its key yields. -/
theorem of_getSession {id : SessionId} {rows : List AgentSession}
    (h : Called d x (.stmt (.getSession id)) w (.ok rows) w') {s : AgentSession} (hs : s ∈ rows) :
    s.id = id ∧ w'.db.sessions.view x id = some s := by
  obtain ⟨p,he⟩ := h.effect
  obtain ⟨rfl,hdb⟩ := Prod.mk.inj (Effect.ok.inj he)
  obtain ⟨k,hk,hid⟩ := Table.mem_select.mp hs
  have hid' : s.id = id := of_decide_eq_true hid
  have hkey : s.id = k := (h.before.written x k s hk).2
  obtain rfl : k = id := hkey.symm.trans hid'
  rw [← hdb]
  exact ⟨hid',hk⟩

/-- A claim answers the row that it has changed. -/
theorem of_claim {id : SessionId} {rows : List AgentSession}
    (h : Called d x (.stmt (.claimFinalizing id)) w (.ok rows) w') :
    (rows = [] ∧ (∀ u, w.db.sessions.view x id = some u → u.state.claimable = false) ∧
      w'.db.sessions.row = w.db.sessions.row) ∨
      ∃ u : AgentSession, u.state.claimable = true ∧ rows = [{ u with state := .finalizing }] ∧
        Database.Changes x id u { u with state := .finalizing } w.db w'.db := by
  obtain ⟨p,he⟩ := h.effect
  exact Database.changes_of_updateSessions h.before he

/-- An update answers the row that it has changed. -/
theorem of_update {id : SessionId} {expected : List SessionState} {new : SessionState}
    {fields : FieldUpdates} {rows : List AgentSession}
    (h : Called d x (.stmt (.updateStateAndFields id expected new fields)) w (.ok rows) w') :
    (rows = [] ∧ (∀ u, w.db.sessions.view x id = some u → expected.contains u.state = false) ∧
      w'.db.sessions.row = w.db.sessions.row) ∨
      ∃ u now, expected.contains u.state = true ∧ rows = [fields.assign new now u] ∧
        Database.Changes x id u (fields.assign new now u) w.db w'.db := by
  obtain ⟨p,he⟩ := h.effect
  rcases Database.changes_of_updateSessions h.before he with hnone | ⟨u,hu,hrows,hchange⟩
  · exact .inl hnone
  · exact .inr ⟨u,p.now,hu,hrows,hchange⟩

/-- An abandon that meets only one open session of the conversation answers the row that it has
changed. -/
theorem of_abandon {c : ConversationId} {id : SessionId} {reason : String} {rows : List AgentSession}
    (h : Called d x (.stmt (.abandonOpenSession c reason)) w (.ok rows) w')
    (hone : ∀ s ∈ w.db.sessions.select x (fun s => s.conversationId = c && s.isOpen), s.id = id) :
    (rows = [] ∧ w'.db.sessions.row = w.db.sessions.row) ∨
      ∃ u v, u.conversationId = c ∧ u.isOpen = true ∧ rows = [v] ∧
        Database.Changes x id u v w.db w'.db := by
  obtain ⟨p,he⟩ := h.effect
  have hkey : ∀ k u, w.db.sessions.view x k = some u →
      (decide (u.conversationId = c) && u.isOpen) = true → u.id = id := by
    intro k u hu hq
    exact hone u (Table.mem_select.mpr ⟨k,hu,hq⟩)
  rcases Database.changes_of_updateWhere h.before hkey he with ⟨hrows,-,hsame⟩ | ⟨u,hu,hrows,hchange⟩
  · exact .inl ⟨hrows,hsame⟩
  · simp only [Bool.and_eq_true,decide_eq_true_eq] at hu
    exact .inr ⟨u,_,hu.1,hu.2,hrows,hchange⟩

end Called

end Saarathi
