import Saarathi.Visibility

/-!
# What interviews ran with

A session's row holds the flow of its last turn, but not the rest of the
configuration that the turn had. Notes beside the world keep that configuration,
in versions that are committed and undone with the row, and the texts that the
handlers of each session were given.
-/

namespace Saarathi

open Machine Program Program.Prog Interleaving ReadCommitted

structure Interviews where
  ran : SessionId → Row Conn RemoteSpec := fun _ => {}
  given : List (SessionId × Json) := []

namespace Interviews

variable (h : Interviews) (x : Conn)

def store (id : SessionId) (remote : RemoteSpec) : Interviews :=
  { h with ran := Function.update h.ran id ((h.ran id).put x remote) }

def commit : Interviews := { h with ran := fun k => (h.ran k).commit x }

def rollback : Interviews := { h with ran := fun k => (h.ran k).rollback x }

/-- A handler is given the user's text. -/
def give (run : HandlerRun) : Interviews :=
  { h with given := h.given ++ run.session.toList.map fun s => (s,run.text) }

/-- A statement that stores a flow stores it for the turn whose handler has run. -/
def afterStmt (remote : Option RemoteSpec) : (s : Stmt) → s.Ans → Interviews
  | .updateStateAndFields id _ _ fields,rows => match remote with
    | some remote =>
      if fields.remoteFlow.isSome && !(List.isEmpty (rows : List AgentSession)) then h.store x id remote
      else h
    | none => h
  | _,_ => h

/-- The notes after a call of `x` in `w`. -/
def after (w : World) : (o : Op) → Except Exn o.Ans → Interviews
  | .stmt s,.ok a => h.afterStmt x ((w.run x).bind fun run => run.agent.spec.remote) s a
  | .stmt _,.error _ => if w.db.tx x = .active then h.rollback x else h
  | .commit,.ok _ => if w.db.tx x = .active then h.commit x else h.rollback x
  | .commit,.error _ => if w.db.tx x = .active then h.rollback x else h
  | .rollback,_ => h.rollback x
  | .handleBegin _ run,_ => h.give run
  | _,_ => h

/-- A row's flow is that of the noted configuration, and a row with a remote session has a flow. -/
structure Fits (o : Option AgentSession) (m : Option RemoteSpec) : Prop where
  flow : o.bind (·.remoteFlow) = m.map (·.flowName)
  remote : ∀ s, o = some s → s.remoteSessionId.isSome = true → s.remoteFlow.isSome = true

namespace Fits

variable {o : Option AgentSession} {m : Option RemoteSpec} {u v : AgentSession}

theorem of_none (h : Fits none m) : m = none := by
  have hf := h.flow
  cases m with
  | none => rfl
  | some remote => cases hf

/-- A version that keeps the flow and the remote session. -/
theorem keep (h : Fits (some u) m) (hf : v.remoteFlow = u.remoteFlow)
    (hs : v.remoteSessionId = u.remoteSessionId) : Fits (some v) m where
  flow := by
    have := h.flow
    simpa [hf] using this
  remote s hv hr := by
    obtain rfl := Option.some.inj hv
    rw [hf]
    exact h.remote u rfl (hs ▸ hr)

theorem isSome (h : Fits (some u) m) (hr : u.remoteSessionId.isSome = true) : ∃ remote, m = some remote := by
  have hflow := h.remote u rfl hr
  have hf : u.remoteFlow = m.map (·.flowName) := h.flow
  cases m with
  | none => simp [hf] at hflow
  | some remote => exact ⟨remote,rfl⟩

end Fits

/-- The rows of all versions fit the notes. -/
def Fit (w : World) (h : Interviews) : Prop := ∀ k, Row.Mirrors Fits (w.db.sessions.row k) (h.ran k)

/-- Without sessions there are no notes. -/
theorem fit_empty {w : World} (hw : w.db.sessions = {}) : Fit w {} := by
  have hnone : Fits none none := ⟨rfl,fun s hs => by cases hs⟩
  intro k
  rw [hw]
  refine ⟨hnone,fun x => hnone,?_⟩
  intro x u hu
  cases hu

end Interviews

/-- A flow is stored only with the configuration of the handler that has run, and a remote session
only with a flow. -/
def Stmt.Told (remote : Option RemoteSpec) : Stmt → Prop
  | .updateStateAndFields _ _ _ fields =>
    (∀ flow, fields.remoteFlow = some flow → ∃ r, remote = some r ∧ flow = r.flowName) ∧
      (fields.remoteSessionId.isSome = true → fields.remoteFlow.isSome = true)
  | _ => True

def Op.Told (remote : Option RemoteSpec) : Op → Prop
  | .stmt s => s.Told remote
  | _ => True

theorem Op.told_of_role {remote : Option RemoteSpec} {o : Op} (ha : o.role ≠ .apply)
    (hf : o.role ≠ .forced) : o.Told remote := by
  cases o with
  | stmt s =>
    cases s with
    | updateStateAndFields id expected new fields =>
      rcases Stmt.role_updateStateAndFields id expected new fields with hr | hr
      · exact absurd hr ha
      · exact absurd hr hf
    | _ => trivial
  | _ => trivial

namespace Interviews

variable {h : Interviews} {w w' : World} {x : Conn} {remote : Option RemoteSpec}

/-- A statement that stores no flow leaves the versions fitting. -/
theorem fits_of_step {p : Pick} {s : Stmt} {k : ℕ} {o : Option AgentSession} {v : AgentSession}
    {m : Option RemoteSpec} (hs : s.SessionStep p k o v) (hf : Fits o m)
    (hu : ∀ id expected new fields, s ≠ .updateStateAndFields id expected new fields) :
    Fits (some v) m := by
  cases s with
  | createPending c agent language =>
    obtain ⟨rfl,rfl⟩ := hs
    rw [hf.of_none]
    exact ⟨rfl,fun s he hr => by cases he; cases hr⟩
  | updateStateAndFields id expected new fields => exact absurd rfl (hu id expected new fields)
  | claimFinalizing id =>
    obtain ⟨u,rfl,-,-,rfl⟩ := hs
    exact hf.keep rfl rfl
  | abandonOpenSession c reason =>
    obtain ⟨u,rfl,-,-,rfl⟩ := hs
    exact hf.keep rfl rfl
  | sweepAbandonedOlderThan cutoff reason =>
    obtain ⟨u,rfl,-,-,rfl⟩ := hs
    exact hf.keep rfl rfl
  | _ => exact hs.elim

theorem afterStmt_eq {s : Stmt} {a : s.Ans}
    (hu : ∀ id expected new fields, s ≠ .updateStateAndFields id expected new fields) :
    h.afterStmt x remote s a = h := by
  cases s with
  | updateStateAndFields id expected new fields => exact absurd rfl (hu id expected new fields)
  | _ => rfl

theorem fit_of_update {adapt : Json → Option String} {p : Pick} {db' : Database} {id : SessionId}
    {expected : List SessionState} {new : SessionState} {fields : FieldUpdates} {rows : List AgentSession}
    (hc : AgentSession.Consistent w.db.sessions) (hf : Fit w h)
    (hs : (Stmt.updateStateAndFields id expected new fields).Told remote)
    (he : (Stmt.updateStateAndFields id expected new fields).effect adapt w.db x p = .ok (rows,db'))
    (k : ℕ) : Row.Mirrors Fits (db'.sessions.row k)
      ((h.afterStmt x remote (.updateStateAndFields id expected new fields) rows).ran k) := by
  obtain ⟨t,ht,rfl⟩ := Database.updateSessions_ok he
  have hw := (Table.updated_of_updateWhere ht).1
  have hkey : ∀ k u, w.db.sessions.view x k = some u →
      (decide (u.id = id) && expected.contains u.state) = true → k = id := by
    intro k u hu hq
    simp only [Bool.and_eq_true,decide_eq_true_eq] at hq
    exact (hc.written x k u hu).2.symm.trans hq.1
  rcases Table.updateWhere_one hkey ht with ⟨rfl,-,hsame⟩ | ⟨u,hu,-,rfl,hput,hsame⟩
  · have hnotes : h.afterStmt x remote (.updateStateAndFields id expected new fields) [] = h := by
      cases remote <;> simp [afterStmt]
    rw [hnotes,hsame]
    exact hf k
  · by_cases hk : k = id
    · subst hk
      have hfits : Fits (some u) ((h.ran k).view x) := hu ▸ (hf k).view x
      have hlock := hw.not_lockedFor hput
      rw [hput]
      rcases hflow : fields.remoteFlow with _ | flow
      · have hnotes : h.afterStmt x remote (.updateStateAndFields k expected new fields)
            [fields.assign new p.now u] = h := by
          cases remote <;> simp [afterStmt,hflow]
        have hremote : fields.remoteSessionId = none := by
          rcases hr : fields.remoteSessionId with _ | sid
          · rfl
          · have := hs.2 (by simp [hr])
            simp [hflow] at this
        rw [hnotes]
        apply (hf k).put_left hlock
        exact hfits.keep (by simp [FieldUpdates.assign,hflow]) (by simp [FieldUpdates.assign,hremote])
      · obtain ⟨r,rfl,rfl⟩ := hs.1 flow hflow
        have hnotes : (h.afterStmt x (some r) (.updateStateAndFields k expected new fields)
            [fields.assign new p.now u]).ran k = (h.ran k).put x r := by
          simp [afterStmt,hflow,store]
        rw [hnotes]
        apply (hf k).put hlock
        refine ⟨by simp [FieldUpdates.assign,hflow],?_⟩
        rintro s ⟨⟩ -
        simp [FieldUpdates.assign,hflow]
    · have hnotes : (h.afterStmt x remote (.updateStateAndFields id expected new fields)
          [fields.assign new p.now u]).ran k = h.ran k := by
        rcases remote with _ | r
        · rfl
        · simp only [afterStmt]
          split
          · simp [store,Function.update_of_ne hk]
          · rfl
      rw [hnotes,hsame k hk]
      exact hf k

theorem fit_of_effect {adapt : Json → Option String} {p : Pick} {db' : Database} {s : Stmt} {a : s.Ans}
    (hc : AgentSession.Consistent w.db.sessions) (hf : Fit w h) (hs : s.Told remote)
    (he : s.effect adapt w.db x p = .ok (a,db')) (k : ℕ) :
    Row.Mirrors Fits (db'.sessions.row k) ((h.afterStmt x remote s a).ran k) := by
  by_cases hu : ∃ id expected new fields, s = .updateStateAndFields id expected new fields
  · obtain ⟨id,expected,new,fields,rfl⟩ := hu
    exact fit_of_update hc hf hs he k
  · push Not at hu
    have hframe := (Stmt.frame_of_effect s he).sessions
    rw [afterStmt_eq hu]
    rcases hframe.row k with hr | ⟨v,hr,hstep⟩
    · rw [hr]
      exact hf k
    · rw [hr]
      apply (hf k).put_left (hframe.wrote.not_lockedFor hr)
      exact fits_of_step hstep ((hf k).view x) hu

/-- Every call leaves the rows of all versions fitting the notes. -/
theorem fit_of_exec {d : Deployment} {o : Op} {ch : Choice} {r : Except Exn o.Ans}
    (hc : AgentSession.Consistent w.db.sessions) (hf : Fit w h)
    (ho : o.Told ((w.run x).bind fun run => run.agent.spec.remote))
    (he : w.exec d x o ch = some (r,w')) : Fit w' (h.after x w o r) := by
  have hm := World.dbMove_of_exec he
  intro k
  generalize w'.db = db' at hm ⊢
  cases hm with
  | stmt htx h => exact fit_of_effect hc hf ho h k
  | rejected htx =>
    simp only [after,htx,if_true]
    exact (hf k).rollback x
  | refused htx =>
    simp only [after,htx,if_false]
    exact hf k
  | commit htx =>
    simp only [after,htx,if_true]
    exact (hf k).commit x
  | commitRejected htx =>
    simp only [after,htx,if_true]
    exact (hf k).rollback x
  | commitAborted htx =>
    simp only [after,htx]
    exact (hf k).rollback x
  | commitRefused htx =>
    simp only [after,htx]
    exact hf k
  | rollback => exact (hf k).rollback x
  | other hs hc hr =>
    cases o with
    | stmt s => exact absurd rfl (hs s)
    | commit => exact absurd rfl hc
    | rollback => exact absurd rfl hr
    | _ => exact hf k

/-- What a call does to the notes of one session. -/
theorem ran_after (o : Op) (r : Except Exn o.Ans) (k : SessionId) :
    (h.after x w o r).ran k = h.ran k ∨ (∃ remote, (h.after x w o r).ran k = (h.ran k).put x remote) ∨
      (h.after x w o r).ran k = (h.ran k).commit x ∨ (h.after x w o r).ran k = (h.ran k).rollback x := by
  cases o with
  | stmt s =>
    rcases r with e | a
    · simp only [after]
      split
      · exact .inr (.inr (.inr rfl))
      · exact .inl rfl
    · cases s with
      | updateStateAndFields id expected new fields =>
        simp only [after,afterStmt]
        split
        · rename_i remote hremote
          split
          · by_cases hk : k = id
            · subst hk
              exact .inr (.inl ⟨remote,by simp [store]⟩)
            · exact .inl (by simp [store,Function.update_of_ne hk])
          · exact .inl rfl
        · exact .inl rfl
      | _ => exact .inl rfl
  | commit =>
    rcases r with e | a
    · simp only [after]
      split
      · exact .inr (.inr (.inr rfl))
      · exact .inl rfl
    · simp only [after]
      split
      · exact .inr (.inr (.inl rfl))
      · exact .inr (.inr (.inr rfl))
  | rollback => exact .inr (.inr (.inr rfl))
  | _ => exact .inl rfl

end Interviews

/-- All requests, with these notes. -/
def interviews (d : Deployment) : Interp (World × Interviews) Conn Req Choice World.EnvAct Op Op.Ans Exn Response :=
  (system d).noting fun w x o r h => h.after x w o r

/-- A configuration of the system with the notes. -/
abbrev Noted := Interleaving.Config (World × Interviews) Conn Op Op.Ans Exn Response

/-- The configuration that `x` finds noted for a session. -/
def noted (w : World × Interviews) (x : Conn) (id : SessionId) : Option RemoteSpec := (w.2.ran id).view x

namespace Interviews

variable {h : Interviews} {x : Conn} {o : Op} {r : Except Exn o.Ans}

/-- Texts that were given stay noted. -/
theorem given_after (w : World) {e : SessionId × Json} (he : e ∈ h.given) : e ∈ (h.after x w o r).given := by
  cases o with
  | stmt s =>
    rcases r with e | a
    · simp only [after]
      split <;> exact he
    · cases s with
      | updateStateAndFields id expected new fields =>
        simp only [after,afterStmt]
        split
        · split <;> exact he
        · exact he
      | _ => exact he
  | commit =>
    rcases r with e | a
    · simp only [after]
      split <;> exact he
    · simp only [after]
      split <;> exact he
  | handleBegin c run => exact List.mem_append_left _ he
  | _ => exact he

end Interviews

/-- What everybody else leaves of the notes as the request on `x` sees them. -/
structure NotedUnmoved (x : Conn) (w w' : World × Interviews) : Prop where
  world : Unmoved x w.1 w'.1
  own : ∀ k v, (w.1.db.sessions.row k).dirty = some (x,v) → noted w' x k = noted w x k

namespace NotedUnmoved

variable {d : Deployment} {x y : Conn} {w w' w'' : World × Interviews}

theorem refl (w : World × Interviews) : NotedUnmoved x w w := ⟨.refl w.1,fun _ _ _ => rfl⟩

theorem trans (h₁ : NotedUnmoved x w w') (h₂ : NotedUnmoved x w' w'') : NotedUnmoved x w w'' where
  world := h₁.world.trans h₂.world
  own k v hd := by
    have hd' : (w'.1.db.sessions.row k).dirty = some (x,v) := by rwa [h₁.world.own k v hd]
    exact (h₂.own k v hd').trans (h₁.own k v hd)

/-- A call of another request. -/
theorem of_exec {o : Op} {ch : Choice} {r : Except Exn o.Ans} (hy : y ≠ x)
    (hc : AgentSession.Consistent w.1.db.sessions) (hf : Interviews.Fit w.1 w.2)
    (hf' : Interviews.Fit w'.1 w'.2) (he : (interviews d).exec w y o ch = some (r,w')) :
    NotedUnmoved x w w' := by
  obtain ⟨he,hnotes⟩ := exec_noting he
  have hworld : Unmoved x w.1 w'.1 := Unmoved.of_exec hy hc he
  refine ⟨hworld,fun k v hd => ?_⟩
  -- a version of `y` in the notes would go with a version of `y` of the row
  have hnot : ∀ (h : Interviews) (db : Database), Row.Mirrors Interviews.Fits (db.sessions.row k) (h.ran k) →
      db.sessions.row k = w.1.db.sessions.row k → ∀ m, (h.ran k).dirty ≠ some (y,m) := by
    intro h db hmir heq
    apply hmir.not_dirty
    intro v' hv'
    rw [heq] at hv'
    exact Row.not_dirty_of_ne hd hy.symm v' hv'
  have hbefore := hnot w.2 w.1.db (hf k) rfl
  have hafter := hnot w'.2 w'.1.db (hf' k) (hworld.own k v hd)
  simp only [noted]
  rw [hnotes] at hafter ⊢
  rcases Interviews.ran_after (h := w.2) (w := w.1) (x := y) o r k with h | ⟨m,h⟩ | h | h
  · rw [h]
  · rw [h] at hafter
    exact absurd rfl (hafter m)
  · rw [h,Row.commit_of_not_dirty hbefore]
  · rw [h,Row.rollback_of_not_dirty hbefore]

theorem of_env {e : World.EnvAct} (he : (interviews d).env w e = some w') : NotedUnmoved x w w' := by
  obtain ⟨he,hnotes⟩ := env_noting he
  exact ⟨.of_env he,fun _ _ _ => by rw [noted,noted,hnotes]⟩

theorem of_begin {req : Req} (hy : y ≠ x) : NotedUnmoved x w ((interviews d).begin w y req) :=
  ⟨Unmoved.of_begin (d := d) hy,fun _ _ _ => rfl⟩

end NotedUnmoved

/-- An interview that can be claimed has been run, and its configuration is noted. -/
theorem noted_of_claimable {x : Conn} {w : World × Interviews} {id : SessionId} {u : AgentSession}
    (hc : AgentSession.Consistent w.1.db.sessions) (hf : Interviews.Fit w.1 w.2)
    (hu : w.1.db.sessions.view x id = some u) (hs : u.state.claimable = true) :
    ∃ ran, noted w x id = some ran := by
  have hcheck : u.check = true := (hc.written x id u hu).1
  have hfits : Interviews.Fits (w.1.db.sessions.view x id) (noted w x id) := (hf id).view x
  rw [hu] at hfits
  exact hfits.isSome (AgentSession.remote_of_claimable hcheck hs)

/-- A call of `x` whose notes are taken. -/
structure NotedCalled (d : Deployment) (x : Conn) (o : Op) (w : World × Interviews)
    (r : Except Exn o.Ans) (w' : World × Interviews) : Prop where
  world : Called d x o w.1 r w'.1
  fit : Interviews.Fit w.1 w.2
  notes : w'.2 = w.2.after x w.1 o r

namespace NotedCalled

variable {d : Deployment} {x : Conn} {o : Op} {w w' : World × Interviews} {r : Except Exn o.Ans}

theorem of_exec {ch : Choice} (hc : AgentSession.Consistent w.1.db.sessions)
    (hf : Interviews.Fit w.1 w.2) (hl : o.Lawful) (he : (interviews d).exec w x o ch = some (r,w')) :
    NotedCalled d x o w r w' := by
  obtain ⟨he,hnotes⟩ := exec_noting he
  exact ⟨called_of_exec hc hl he,hf,hnotes⟩

theorem fit_after (h : NotedCalled d x o w r w')
    (ho : o.Told ((w.1.run x).bind fun run => run.agent.spec.remote)) : Interviews.Fit w'.1 w'.2 := by
  obtain ⟨ch,he⟩ := h.world.exec
  rw [h.notes]
  exact Interviews.fit_of_exec h.world.before h.fit ho he

/-- A call that the database has no part in. -/
theorem ran_of_role (h : NotedCalled d x o w r w') (ho : o.role.isDb = false) : w'.2.ran = w.2.ran := by
  rw [h.notes]
  cases o with
  | stmt s => exact absurd ho (by simp [Op.role,Stmt.isDb_role])
  | commit => cases ho
  | rollback => cases ho
  | _ => rfl

/-- A statement that stores no flow. -/
theorem ran_of_stmt {s : Stmt} {a : s.Ans} (h : NotedCalled d x (.stmt s) w (.ok a) w')
    (hs : s.role ∉ [Role.apply,.forced]) : w'.2.ran = w.2.ran := by
  rw [h.notes]
  have heq : w.2.after x w.1 (.stmt s) (.ok a) = w.2 := by
    apply Interviews.afterStmt_eq
    rintro id expected new fields rfl
    rcases Stmt.role_updateStateAndFields id expected new fields with hr | hr
    all_goals
      rw [hr] at hs
      exact absurd hs (by decide)
  rw [heq]

/-- An update that stores a flow notes the configuration of the turn. -/
theorem noted_of_update {id : SessionId} {expected : List SessionState} {new : SessionState}
    {fields : FieldUpdates} {v : AgentSession} {remote : RemoteSpec}
    (h : NotedCalled d x (.stmt (.updateStateAndFields id expected new fields)) w (.ok [v]) w')
    (hf : fields.remoteFlow.isSome = true)
    (hr : ((w.1.run x).bind fun run => run.agent.spec.remote) = some remote) :
    noted w' x id = some remote := by
  have hnotes := h.notes
  simp only [Interviews.after,hr,Interviews.afterStmt,hf,List.isEmpty_cons,Bool.not_false,
    Bool.and_self,if_true] at hnotes
  simp [noted,hnotes,Interviews.store]

end NotedCalled

end Saarathi
