import Saarathi.TurnLock

/-!
# The release of the turn lock

The release is a statement like any other, so a turn whose transaction has been
aborted cannot make it. The stage of a turn says how far it is with its lock.
-/

namespace Saarathi

open Machine Program Program.Prog Interleaving ReadCommitted

/-- The lock that a call has released. -/
def Op.unlocked : (o : Op) → Except Exn o.Ans → Option ℤ
  | .stmt (.advisoryUnlock key),.ok _ => some key
  | _,_ => none

theorem Op.unlocked_of_role {o : Op} (ho : o.role ≠ .unlock) (r : Except Exn o.Ans) :
    o.unlocked r = none := by
  cases o with
  | stmt s =>
    cases s with
    | advisoryUnlock key => exact absurd rfl ho
    | _ => rfl
  | _ => rfl

/-- Before the lock is granted; since then; after the database has rejected a call under the lock;
after the release. -/
inductive LockStage where
  | free
  | locked (key : ℤ)
  | spoilt (key : ℤ)
  | released (key : ℤ)
  deriving DecidableEq

namespace LockStage

def next : LockStage → (o : Op) → Except Exn o.Ans → LockStage
  | free,o,r => match o.lockAnswer r with
    | some (key,true) => locked key
    | _ => free
  | locked key,o,r =>
    if o.rejects r then spoilt key else if o.unlocked r = some key then released key else locked key
  | spoilt key,_,_ => spoilt key
  | released key,_,_ => released key

theorem next_free {o : Op} (ho : o.role ≠ .lock) (r : Except Exn o.Ans) : free.next o r = free := by
  simp [next,Op.lockAnswer_of_role ho]

theorem next_locked {o : Op} {r : Except Exn o.Ans} {key : ℤ} (ho : o.role ≠ .unlock)
    (hr : o.rejects r = false) : (locked key).next o r = locked key := by
  simp [next,hr,Op.unlocked_of_role ho]

theorem next_rejected {o : Op} {r : Except Exn o.Ans} {key : ℤ} (hr : o.rejects r = true) :
    (locked key).next o r = spoilt key := by
  simp [next,hr]

end LockStage

/-- The stage that a request's calls have led to. -/
def lockStage (es : List Event) : LockStage := es.foldl (fun s e => s.next e.op e.answer) .free

@[simp] theorem lockStage_append (es : List Event) (e : Event) :
    lockStage (es ++ [e]) = (lockStage es).next e.op e.answer := by
  simp [lockStage]

/-- The request was granted the lock. -/
def Granted (key : ℤ) (es : List Event) : Prop :=
  ∃ e ∈ es, e.op.lockAnswer e.answer = some (key,true)

instance (key : ℤ) (es : List Event) : Decidable (Granted key es) :=
  inferInstanceAs (Decidable (∃ e ∈ es, e.op.lockAnswer e.answer = some (key,true)))

theorem granted_append {key : ℤ} {es : List Event} {e : Event} :
    Granted key (es ++ [e]) ↔ Granted key es ∨ e.op.lockAnswer e.answer = some (key,true) := by
  simp [Granted,or_and_right,exists_or]

theorem granted_append_of_role {key : ℤ} {es : List Event} {e : Event} (he : e.op.role ≠ .lock) :
    Granted key (es ++ [e]) ↔ Granted key es := by
  simp [granted_append,Op.lockAnswer_of_role he]

/-- The database rejected a statement or a commit of the request while it held the lock. -/
def RejectedWhileLocked (key : ℤ) (es : List Event) : Prop := lockStage es = .spoilt key

instance (key : ℤ) (es : List Event) : Decidable (RejectedWhileLocked key es) :=
  inferInstanceAs (Decidable (lockStage es = .spoilt key))

/-- What a request sees of its own connection. -/
structure ConnView where
  tx : TxStatus
  held : ℤ → ℕ
  events : List Event

namespace ConnView

def of (w : World) (x : Conn) : ConnView := ⟨w.db.tx x,w.db.locks.held x,w.events x⟩

/-- A call does what it does in some world that looks like this. -/
def spec (d : Deployment) (x : Conn) : Spec Op Op.Ans Exn ConnView where
  pre _ _ := True
  post o l r l' := ∃ w w' done, Performed d x w o r done w' ∧ of w x = l ∧
    l' = of (w'.record x ⟨o,r,done⟩) x

variable {d : Deployment} {x : Conn} {l l' : ConnView} {o : Op} {r : Except Exn o.Ans}

theorem events_of_post (h : (spec d x).post o l r l') :
    ∃ done, l'.events = l.events ++ [⟨o,r,done⟩] := by
  obtain ⟨w,w',done,hp,rfl,rfl⟩ := h
  exact ⟨done,by simp [of,World.record,hp.events]⟩

theorem held_of_post (h : (spec d x).post o l r l') (hl : o.role ≠ .lock) (hu : o.role ≠ .unlock) :
    l'.held = l.held := by
  obtain ⟨w,w',done,hp,rfl,rfl⟩ := h
  simp only [of,World.record]
  rw [hp.db.locks_of_role hl hu]

theorem stage_of_post (h : (spec d x).post o l r l') :
    lockStage l'.events = (lockStage l.events).next o r := by
  obtain ⟨done,he⟩ := events_of_post h
  rw [he,lockStage_append]

theorem granted_of_post (h : (spec d x).post o l r l') (ho : o.role ≠ .lock) (key : ℤ) :
    Granted key l'.events ↔ Granted key l.events := by
  obtain ⟨done,he⟩ := events_of_post h
  rw [he]
  exact granted_append_of_role ho

theorem active_of_post (h : (spec d x).post o l r l') (htx : l.tx = .active) :
    (l'.tx = .active ∧ o.rejects r = false) ∨
      (o.rejects r = true ∧ l'.tx ≠ .active ∧ l'.held = l.held) := by
  obtain ⟨w,w',done,hp,rfl,rfl⟩ := h
  rcases hp.db.of_active htx with h₁ | ⟨h₁,h₂,h₃⟩
  · exact .inl h₁
  · exact .inr ⟨h₁,h₂,by simp only [of,World.record,h₃]⟩

theorem inactive_of_post {s : Stmt} {r : Except Exn s.Ans} (h : (spec d x).post (.stmt s) l r l')
    (htx : l.tx ≠ .active) : r = .error .refused ∧ l'.tx = l.tx ∧ l'.held = l.held := by
  obtain ⟨w,w',done,hp,rfl,rfl⟩ := h
  obtain ⟨hr,hdb⟩ := hp.db.of_inactive htx
  exact ⟨hr,by simp only [of,World.record,hdb],by simp only [of,World.record,hdb]⟩

theorem eq_of_post (h : (spec d x).post o l r l') (ho : o.role.isDb = false) :
    l'.tx = l.tx ∧ l'.held = l.held := by
  obtain ⟨w,w',done,hp,rfl,rfl⟩ := h
  have hdb := hp.db.eq_of_role ho
  exact ⟨by simp only [of,World.record,hdb],by simp only [of,World.record,hdb]⟩

theorem sure_of_post (h : (spec d x).post o l r l') (ho : o.sure = true) : ∃ a, r = .ok a := by
  obtain ⟨w,w',done,hp,-,-⟩ := h
  exact hp.sure ho

section Stages

variable (H : ℤ → ℕ) (key : ℤ)

/-- No lock has been granted to this request; `H` is what its connection held at its start. -/
structure Before (l : ConnView) : Prop where
  held : l.held = H
  none : ∀ key, ¬ Granted key l.events
  stage : lockStage l.events = .free

/-- The lock has been granted, and no other. -/
structure Holding (l : ConnView) : Prop where
  held : l.held = Function.update H key (H key + 1)
  granted : ∀ k, Granted k l.events ↔ k = key

/-- Every call under the lock has gone through. -/
structure Clean (l : ConnView) : Prop extends Holding H key l where
  tx : l.tx = .active
  stage : lockStage l.events = .locked key

/-- The database has rejected a call under the lock, and no rollback has come yet. -/
structure Spoilt (l : ConnView) : Prop extends Holding H key l where
  tx : l.tx ≠ .active
  stage : lockStage l.events = .spoilt key

/-- The lock has not been released, and nothing will release it. -/
structure Lost (l : ConnView) : Prop extends Holding H key l where
  stage : lockStage l.events = .spoilt key

structure Released (l : ConnView) : Prop where
  held : l.held = H
  granted : ∀ k, Granted k l.events ↔ k = key
  stage : lockStage l.events = .released key

/-- The request has done all that it does with locks. -/
def Over (l : ConnView) : Prop := Before H l ∨ ∃ key, Lost H key l ∨ Released H key l

end Stages

variable {H : ℤ → ℕ} {key : ℤ} {α : Type} {p : Proc α} {rs : List Role}

theorem Before.post (hl : Before H l) (h : (spec d x).post o l r l') (hn : o.role ≠ .lock)
    (hu : o.role ≠ .unlock) : Before H l' where
  held := (held_of_post h hn hu).trans hl.held
  none k hk := hl.none k ((granted_of_post h hn k).mp hk)
  stage := by rw [stage_of_post h,hl.stage,LockStage.next_free hn]

theorem Before.refused {r : Except Exn (Op.Ans (.stmt (.tryAdvisoryLock key)))} (hl : Before H l)
    (h : (spec d x).post (.stmt (.tryAdvisoryLock key)) l r l') (hr : r ≠ .ok true) :
    Before H l' := by
  have hanswer : ∀ k, Op.lockAnswer (.stmt (.tryAdvisoryLock key)) r ≠ some (k,true) := by
    rcases r with e | _ | _
    · exact nofun
    · intro k hk
      cases hk
    · exact absurd rfl hr
  have hheld : l'.held = l.held := by
    obtain ⟨w,w',done,hp,rfl,rfl⟩ := h
    simp only [of,World.record,hp.db.locks_of_not_granted hr]
  refine ⟨hheld.trans hl.held,fun k hk => ?_,?_⟩
  · obtain ⟨done,he⟩ := events_of_post h
    rw [he,granted_append] at hk
    rcases hk with hk | hk
    · exact hl.none k hk
    · exact hanswer k hk
  · rw [stage_of_post h,hl.stage]
    simp only [LockStage.next]

theorem Before.granted (hl : Before H l)
    (h : (spec d x).post (.stmt (.tryAdvisoryLock key)) l (.ok true) l') : Clean H key l' := by
  have hgranted : ∀ k, Granted k l'.events ↔ k = key := by
    intro k
    obtain ⟨done,he⟩ := events_of_post h
    rw [he,granted_append]
    simp [hl.none k,Op.lockAnswer,eq_comm]
  have hs : lockStage l'.events = .locked key := by
    rw [stage_of_post h,hl.stage]
    rfl
  obtain ⟨w,w',done,hp,rfl,rfl⟩ := h
  obtain ⟨-,htx,hheld⟩ := hp.db.of_granted
  have hheld' : (of (w'.record x ⟨.stmt (.tryAdvisoryLock key),.ok true,done⟩) x).held =
      Function.update H key (H key + 1) := by
    rw [← hl.held]
    exact hheld
  exact ⟨⟨hheld',hgranted⟩,htx,hs⟩

theorem Holding.post (hl : Holding H key l) (h : (spec d x).post o l r l') (hn : o.role ≠ .lock)
    (hu : o.role ≠ .unlock) : Holding H key l' where
  held := (held_of_post h hn hu).trans hl.held
  granted k := (granted_of_post h hn k).trans (hl.granted k)

theorem Clean.post (hl : Clean H key l) (h : (spec d x).post o l r l') (hn : o.role ≠ .lock)
    (hu : o.role ≠ .unlock) :
    Clean H key l' ∨ (o.rejects r = true ∧ Spoilt H key l') := by
  have hh := hl.toHolding.post h hn hu
  rcases active_of_post h hl.tx with ⟨htx,hr⟩ | ⟨hr,htx,-⟩
  · have hs : lockStage l'.events = .locked key := by
      rw [stage_of_post h,hl.stage,LockStage.next_locked hu hr]
    exact .inl ⟨hh,htx,hs⟩
  · have hs : lockStage l'.events = .spoilt key := by
      rw [stage_of_post h,hl.stage,LockStage.next_rejected hr]
    exact .inr ⟨hr,hh,htx,hs⟩

theorem Spoilt.post (hl : Spoilt H key l) (h : (spec d x).post o l r l') (hn : o.role ≠ .lock)
    (hu : o.role ≠ .unlock) (hc : o.role ≠ .commit) (hb : o.role ≠ .rollback) : Spoilt H key l' := by
  have hh := hl.toHolding.post h hn hu
  have hs : lockStage l'.events = .spoilt key := by
    rw [stage_of_post h,hl.stage]
    rfl
  refine ⟨hh,?_,hs⟩
  by_cases hdb : ∃ s, o = .stmt s
  · obtain ⟨s,rfl⟩ := hdb
    rw [(inactive_of_post h hl.tx).2.1]
    exact hl.tx
  · have ho : o.role.isDb = false := Op.isDb_role_eq_false (fun s hs => hdb ⟨s,hs⟩)
      (fun e => hc (by rw [e]; rfl)) (fun e => hb (by rw [e]; rfl))
    rw [(eq_of_post h ho).1]
    exact hl.tx

theorem Over.post (hl : Over H l) (h : (spec d x).post o l r l') (hn : o.role ≠ .lock)
    (hu : o.role ≠ .unlock) : Over H l' := by
  rcases hl with hl | ⟨key,hl | hl⟩
  · exact .inl (hl.post h hn hu)
  · have hs : lockStage l'.events = .spoilt key := by
      rw [stage_of_post h,hl.stage]
      rfl
    exact .inr ⟨key,.inl ⟨hl.toHolding.post h hn hu,hs⟩⟩
  · have hs : lockStage l'.events = .released key := by
      rw [stage_of_post h,hl.stage]
      rfl
    have hheld : l'.held = H := (held_of_post h hn hu).trans hl.held
    exact .inr ⟨key,.inr ⟨hheld,fun k => (granted_of_post h hn k).trans (hl.granted k),hs⟩⟩

theorem keeps_before (hp : Within rs p) (hl : Role.lock ∉ rs) (hu : Role.unlock ∉ rs) :
    Keeps (spec d x) (Before H) p := by
  refine Keeps.of_all hp fun o ho l hb l₁ hr => ?_
  obtain rfl : l = l₁ := hr
  have hn : o.role ≠ .lock := fun e => hl (e ▸ ho)
  have hu' : o.role ≠ .unlock := fun e => hu (e ▸ ho)
  exact ⟨trivial,fun r l₂ h₂ => hb.post h₂ hn hu'⟩

/-- A program that may go on after the database has rejected one of its statements. -/
theorem keeps_cleanOrSpoilt (hp : Within rs p) (hl : Role.lock ∉ rs) (hu : Role.unlock ∉ rs)
    (hc : Role.commit ∉ rs) (hb : Role.rollback ∉ rs) :
    Keeps (spec d x) (fun l => Clean H key l ∨ Spoilt H key l) p := by
  refine Keeps.of_all hp fun o ho l hcs l₁ hr => ?_
  obtain rfl : l = l₁ := hr
  have hn : o.role ≠ .lock := fun e => hl (e ▸ ho)
  have hu' : o.role ≠ .unlock := fun e => hu (e ▸ ho)
  have hc' : o.role ≠ .commit := fun e => hc (e ▸ ho)
  have hb' : o.role ≠ .rollback := fun e => hb (e ▸ ho)
  refine ⟨trivial,fun r l₂ h₂ => ?_⟩
  rcases hcs with h | h
  · exact (h.post h₂ hn hu').imp_right And.right
  · exact .inr (h.post h₂ hn hu' hc' hb')

theorem keeps_spoilt (hp : Within rs p) (hl : Role.lock ∉ rs) (hu : Role.unlock ∉ rs)
    (hc : Role.commit ∉ rs) (hb : Role.rollback ∉ rs) : Keeps (spec d x) (Spoilt H key) p := by
  refine Keeps.of_all hp fun o ho l hs l₁ hr => ?_
  obtain rfl : l = l₁ := hr
  have hn : o.role ≠ .lock := fun e => hl (e ▸ ho)
  have hu' : o.role ≠ .unlock := fun e => hu (e ▸ ho)
  have hc' : o.role ≠ .commit := fun e => hc (e ▸ ho)
  have hb' : o.role ≠ .rollback := fun e => hb (e ▸ ho)
  exact ⟨trivial,fun r l₂ h₂ => hs.post h₂ hn hu' hc' hb'⟩

/-- How a part of a turn under the lock ends: a rejected call has ended it. -/
def Ends (H : ℤ → ℕ) (key : ℤ) (r : Except Exn α) (l : ConnView) : Prop :=
  Clean H key l ∨ ((∃ e, r = .error e) ∧ Spoilt H key l)

theorem ends_straight (hp : Straight rs p) (hl : Role.lock ∉ rs) (hu : Role.unlock ∉ rs)
    (hc : Clean H key l) : wp (spec d x) p (Ends H key) l := by
  have hend := hp.propagates.wp (S := spec d x) (A := Clean H key) (B := Spoilt H key) hp.within
    (fun l l' hA hr => hr ▸ hA) (fun o l ho hA => ⟨trivial,fun r l' h => ?_⟩) hc
  · refine wp_mono hend ?_
    rintro r l' (h | ⟨e,-,hr,h⟩)
    · exact .inl h
    · exact .inr ⟨⟨e,hr⟩,h⟩
  · have hn : o.role ≠ .lock := fun e => hl (e ▸ ho)
    have hu' : o.role ≠ .unlock := fun e => hu (e ▸ ho)
    rcases hA.post h hn hu' with h' | ⟨hr,h'⟩
    · exact .inl h'
    · obtain ⟨hdb,rfl⟩ := Op.eq_of_rejects hr
      exact .inr ⟨hdb,.rejected,rfl,rfl,h'⟩

theorem ends_bind {β : Type} {f : α → Proc β} (hp : wp (spec d x) p (Ends H key) l)
    (hf : ∀ a l', Clean H key l' → wp (spec d x) (f a) (Ends H key) l') :
    wp (spec d x) (p >>= f) (Ends H key) l := by
  refine wp_bind.mpr (wp_mono hp ?_)
  rintro (e | a) l' h
  · rcases h with h | ⟨-,h⟩
    · exact .inl h
    · exact .inr ⟨⟨e,rfl⟩,h⟩
  · rcases h with h | ⟨⟨e,he⟩,-⟩
    · exact hf a l' h
    · cases he

open OrchestrationService

/-- After a rejected statement `open_for` gets no answer to its first query. -/
theorem spoilt_admitTurn (conv : Conversation) (agent : RegisteredAgent) (hl : Spoilt H key l) :
    wp (spec d x) (admitTurn d conv agent) (Ends H key) l := by
  have hlimits : wp (spec d x) (checkRateLimits conv.id agent.spec.limits)
      (fun _ l' => Spoilt H key l') l :=
    keeps_spoilt (checkRateLimits_calls conv.id agent.spec.limits).within (by decide) (by decide)
      (by decide) (by decide) l hl
  refine wp_bind.mpr (wp_mono hlimits ?_)
  rintro (e | u) l₁ h₁
  · exact .inr ⟨⟨e,rfl⟩,h₁⟩
  refine wp_bind.mpr (wp_bind.mpr (wp_bind.mpr (wp_perform.mpr fun l₂ hr => ?_)))
  obtain rfl : l₁ = l₂ := hr
  refine ⟨trivial,fun r l₃ h₃ => ?_⟩
  obtain ⟨rfl,-⟩ := inactive_of_post h₃ h₁.tx
  exact .inr ⟨⟨_,rfl⟩,h₁.post h₃ nofun nofun nofun nofun⟩

theorem ends_handleTurnLocked (inp : TurnInput) (conv : Conversation) (hl : Clean H key l) :
    wp (spec d x) (handleTurnLocked d inp conv) (Ends H key) l := by
  refine ends_bind (ends_straight (recordUserMessage_calls inp conv) (by decide) (by decide) hl)
    fun _ l₁ h₁ => ?_
  have hroute : wp (spec d x) (routeTurn d inp conv)
      (fun _ l' => Clean H key l' ∨ Spoilt H key l') l₁ :=
    keeps_cleanOrSpoilt (routeTurn_within d inp conv) (by decide) (by decide) (by decide) (by decide)
      l₁ (.inl h₁)
  refine wp_bind.mpr (wp_mono hroute ?_)
  rintro (e | ⟨decision,agent⟩) l₂ h₂
  · exact h₂.imp_right fun h => ⟨⟨e,rfl⟩,h⟩
  have hadmit : wp (spec d x) (admitTurn d conv agent) (Ends H key) l₂ := by
    rcases h₂ with h₂ | h₂
    · exact ends_straight (admitTurn_calls d conv agent) (by decide) (by decide) h₂
    · exact spoilt_admitTurn conv agent h₂
  have hcommit : Straight [.commit] (perform Op.commit : Proc Unit) := Straight.perform rfl
  refine ends_bind hadmit ?_
  rintro ⟨session,history⟩ l₃ h₃
  refine ends_bind (ends_straight hcommit (by decide) (by decide) h₃) fun _ l₄ h₄ => ?_
  refine ends_bind (ends_straight (runHandler_calls d inp conv agent session history) (by decide)
    (by decide) h₄) fun turn l₅ h₅ => ?_
  refine ends_bind (ends_straight (settleTurn_calls d inp agent turn session) (by decide)
    (by decide) h₅) fun session l₆ h₆ => ?_
  refine ends_bind (ends_straight (storeReply_calls inp conv decision agent turn session)
    (by decide) (by decide) h₆) fun _ l₇ h₇ => ?_
  exact ends_bind (ends_straight hcommit (by decide) (by decide) h₇) fun _ l₈ h₈ => .inl h₈

theorem Clean.unlock {r : Except Exn (Op.Ans (.stmt (.advisoryUnlock key)))} (hl : Clean H key l)
    (h : (spec d x).post (.stmt (.advisoryUnlock key)) l r l') :
    Lost H key l' ∨ Released H key l' := by
  have hgranted : ∀ k, Granted k l'.events ↔ k = key := fun k =>
    (granted_of_post h nofun k).trans (hl.granted k)
  rcases active_of_post h hl.tx with ⟨-,hr⟩ | ⟨hr,-,hheld⟩
  · obtain ⟨b,rfl⟩ : ∃ b, r = .ok b := by
      obtain ⟨w,w',done,hp,rfl,-⟩ := h
      exact hp.db.ok_of_active hl.tx hr
    have hheld : l'.held = Function.update l.held key (l.held key - 1) := by
      obtain ⟨w,w',done,hp,rfl,rfl⟩ := h
      exact hp.db.held_of_released
    have hs : lockStage l'.events = .released key := by
      rw [stage_of_post h,hl.stage]
      simp [LockStage.next,hr,Op.unlocked]
    refine .inr ⟨?_,hgranted,hs⟩
    rw [hheld,hl.held]
    simp
  · have hs : lockStage l'.events = .spoilt key := by
      rw [stage_of_post h,hl.stage,LockStage.next_rejected hr]
    exact .inl ⟨⟨hheld.trans hl.held,hgranted⟩,hs⟩

theorem Spoilt.unlock {r : Except Exn (Op.Ans (.stmt (.advisoryUnlock key)))} (hl : Spoilt H key l)
    (h : (spec d x).post (.stmt (.advisoryUnlock key)) l r l') : Lost H key l' := by
  have hs : lockStage l'.events = .spoilt key := by
    rw [stage_of_post h,hl.stage]
    rfl
  have hheld : l'.held = l.held := (inactive_of_post h hl.tx).2.2
  exact ⟨⟨hheld.trans hl.held,fun k => (granted_of_post h nofun k).trans (hl.granted k)⟩,hs⟩

theorem over_handleTurn (inp : TurnInput) (hl : Before H l) :
    wp (spec d x) (handleTurn d inp) (fun _ l' => Over H l') l := by
  have hget := keeps_before (d := d) (x := x) (H := H)
    (ConversationRepository.getOrCreate_calls inp.conversationId inp.user).within (by decide)
    (by decide) l hl
  refine wp_bind.mpr (wp_mono hget ?_)
  rintro (e | conv) l₁ h₁
  · exact .inl h₁
  refine wp_bind.mpr (wp_perform.mpr fun l₂ hr => ?_)
  obtain rfl : l₁ = l₂ := hr
  refine ⟨trivial,fun r l₃ h₃ => ?_⟩
  rcases r with e | _ | _
  · exact .inl (h₁.refused h₃ nofun)
  · exact .inl (h₁.refused h₃ nofun)
  have hclean := h₁.granted h₃
  refine wp_ensuring.mpr (wp_mono (ends_handleTurnLocked inp conv hclean) fun r l₄ h₄ => ?_)
  refine wp_bind.mpr (wp_attempt.mpr (wp_perform.mpr fun l₅ hr => ?_))
  obtain rfl : l₄ = l₅ := hr
  refine ⟨trivial,fun r' l₆ h₆ => ?_⟩
  rcases h₄ with h₄ | ⟨-,h₄⟩
  · exact .inr ⟨_,h₄.unlock h₆⟩
  · exact .inr ⟨_,.inl (h₄.unlock h₆)⟩

theorem over_chat (body : Option ChatBody) (user : UserContext) (hl : Before H l) :
    wp (spec d x) (Routes.withDb (Routes.chat d body user)) (fun _ l' => Over H l') l := by
  have hover : ∀ o : Op, o.role ≠ .lock → o.role ≠ .unlock → Keeps.Call (spec d x) (Over H) o := by
    intro o hn hu l hl l₁ hr
    obtain rfl : l = l₁ := hr
    exact ⟨trivial,fun r l₂ h₂ => hl.post h₂ hn hu⟩
  refine Routes.wp_withDb (fun o l r l' ho h => sure_of_post h ho) ?_ ?_ (hover _ nofun nofun)
    (hover _ nofun nofun) (Keeps.perform (hover _ nofun nofun)) hl
  · intro l hl
    unfold Routes.chat
    split
    · exact .inl hl
    · split
      · exact .inl hl
      · exact .inl hl
      · refine wp_catching.mpr (wp_bind.mpr (wp_mono (over_handleTurn _ hl) ?_))
        rintro (e | res) l₁ h₁
        · exact h₁
        have hpayload := Keeps.perform (hover (.stmt (.flowPayload res.conversation.id)) nofun nofun)
        refine wp_bind.mpr (wp_mono (hpayload l₁ h₁) ?_)
        rintro (e | u) l₂ h₂
        · exact h₂
        · exact h₂
  · intro o ho l hl l₁ hr
    obtain rfl : l = l₁ := hr
    have hn : o.role ≠ .lock := by rcases ho with rfl | rfl <;> decide
    have hu : o.role ≠ .unlock := by rcases ho with rfl | rfl <;> decide
    exact ⟨trivial,fun r l₂ h₂ => hl.post h₂ hn hu⟩

/-- The view of one request's connection, which no one else changes. -/
def solo (d : Deployment) (x : Conn) : Solo (system d) anyAct x ConnView where
  loc w := of w x
  spec := spec d x
  G _ := True
  rely_refl _ := rfl
  rely_trans _ _ _ h₁ h₂ := h₁.trans h₂
  G_step _ _ _ _ _ _ := trivial
  call_ok c o k ch r w _ _ _ _ he := by
    obtain ⟨done,w₁,hp,rfl⟩ := World.performed_of_exec he
    exact ⟨_,_,done,hp,rfl,rfl⟩
  start_ok c y req hy _ _ := by
    simp [of,system,Function.update_of_ne hy.symm]
    rfl
  other_ok c y o k ch r w hy _ _ _ he := by
    obtain ⟨done,w₁,hp,rfl⟩ := World.performed_of_exec he
    have htx := hp.db.tx_of_ne hy.symm
    have hheld : w₁.db.locks.held x = c.world.db.locks.held x :=
      funext fun key => hp.db.held_of_ne hy.symm
    simp only [of,World.record,htx,hheld,hp.events,Function.update_of_ne hy.symm]
    rfl
  env_ok c e w _ _ he := by
    have hf := World.envFrame he
    simp only [of,hf.db,hf.events]
    rfl

end ConnView

/-- The body `{"message": null}`. -/
def nullMessage : Req := .chat (some { message := some .null }) Sample.caller

end Saarathi
