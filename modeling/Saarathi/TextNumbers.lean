import Saarathi.Pool

/-!
# The numbers of the texts

Each channel numbers the texts that are sent on it. A number is used once, and
what a call returns is numbered as its own text.
-/

namespace Saarathi

open Machine Program Program.Prog Interleaving

namespace Channel

/-- From the start of a call that found `n` texts sent, to its end. -/
def Chan.Numbered (n : ℕ) (c : Chan) : Prop :=
  match c.pc with
  | some (.draining ..) => c.sent = n
  | some (.sending ..) => c.sent = n + 1
  | some (.checking l) => c.sent = n + 1 ∧ l.turn = n + 1
  | some (.waiting l _) => c.sent = n + 1 ∧ l.turn = n + 1
  | none => n ≤ c.sent ∧ ∀ m used b, c.outcomes.getLast? = some (.returned m used b) →
      m = c.sent ∧ c.sent = n + 1

section Numbered

variable {c c' : Chan} {n : ℕ}

theorem numbered_raise {m : ℕ} {e : Exn} (h : n ≤ c.sent) : (c.finish (.raised m e)).Numbered n :=
  ⟨h,fun m' used b ho => by simp [Chan.finish] at ho⟩

theorem numbered_flush {l : Loop} (h : c.sent = n + 1 ∧ l.turn = n + 1) : (c.flush l).Numbered n := by
  refine ⟨by simp [Chan.flush,Chan.finish,h.1],fun m used b ho => ?_⟩
  have ho' : l.turn = m ∧ l.used = used ∧ Chan.botTurn l = b := by
    simpa [Chan.flush,Chan.finish] using ho
  refine ⟨?_,h.1⟩
  rw [← ho'.1]
  exact h.2.trans h.1.symm

theorem numbered_process {l : Loop} {a : Arrival} (h : c.sent = n + 1 ∧ l.turn = n + 1) :
    (c.process l a).Numbered n := by
  have hle : n ≤ c.sent := by omega
  unfold Chan.process
  split
  · exact h
  split
  · exact numbered_raise hle
  split
  · exact h
  split
  · exact numbered_flush (l := c.accumulate l a) h
  · exact h

theorem numbered_check {l : Loop} (h : c.sent = n + 1 ∧ l.turn = n + 1) : (c.check l).Numbered n := by
  have hle : n ≤ c.sent := by omega
  unfold Chan.check
  split
  · exact numbered_raise hle
  split
  · split
    · exact numbered_flush h
    · exact numbered_raise hle
  split
  · exact numbered_process (c := { c with pending := none }) h
  · exact h

theorem numbered_send {text : Json} {t g : ℕ} {r : SendResult} (h : c.sent = n + 1) :
    (c.send text t g r).Numbered n := by
  have hsent : (c.deliver text r).sent = n + 1 := by
    unfold Chan.deliver
    split <;> exact h
  unfold Chan.send
  split
  · exact numbered_raise (by omega)
  · exact ⟨hsent,h⟩

/-- One step of the call that holds the turn lock. -/
theorem numbered_go {r : SendResult} (h : c.Numbered n) (hs : c.go r = some c') : c'.Numbered n := by
  unfold Chan.Numbered at h
  unfold Chan.go at hs
  cases hpc : c.pc with
  | none => simp [hpc] at hs
  | some p =>
    rw [hpc] at h hs
    cases p with
    | draining text t g =>
      obtain rfl := Option.some.inj hs
      have hsent : c.sent = n := h
      unfold Chan.drain
      split
      · exact congrArg (· + 1) hsent
      · exact hsent
    | sending text t g =>
      obtain rfl := Option.some.inj hs
      exact numbered_send h
    | checking l =>
      obtain rfl := Option.some.inj hs
      exact numbered_check h
    | waiting l e =>
      unfold Chan.wait at hs
      dsimp only at hs
      split at hs
      · rename_i a q hq
        obtain rfl := Option.some.inj hs
        exact numbered_process (c := { c with queue := q }) h
      · split at hs
        · obtain rfl := Option.some.inj hs
          exact h
        · cases hs

theorem numbered_step {a : Act} {p : Pc} (h : c.Numbered n) (hp : c.pc = some p) (hs : c.step a = some c') :
    c'.Numbered n := by
  have hkeep : ∀ c' : Chan, c'.pc = c.pc → c'.sent = c.sent → c'.Numbered n := by
    intro c' hpc hsent
    unfold Chan.Numbered at h ⊢
    rw [hpc,hsent]
    rw [hp] at h ⊢
    cases p <;> exact h
  cases a with
  | tick t =>
    obtain rfl := Option.some.inj hs
    exact hkeep _ rfl rfl
  | recv a =>
    simp only [Chan.step] at hs
    split at hs
    · cases hs
    · obtain rfl := Option.some.inj hs
      exact hkeep _ rfl rfl
  | readerEnd reason =>
    simp only [Chan.step] at hs
    split at hs
    · cases hs
    · obtain rfl := Option.some.inj hs
      exact hkeep _ rfl rfl
  | close =>
    obtain rfl := Option.some.inj hs
    exact hkeep _ rfl rfl
  | call text t g =>
    simp only [Chan.step,hp] at hs
    obtain rfl := Option.some.inj hs
    exact hkeep _ hp.symm rfl
  | go r => exact numbered_go h hs

/-- The call ends with its own outcome. -/
theorem numbered_runCall {acts : List Act} {p : Pc} {o : Outcome} (h : c.Numbered n) (hp : c.pc = some p)
    (hs : c.runCall acts = some (o,c')) : c'.outcomes.getLast? = some o ∧ n ≤ c'.sent ∧
      ∀ m used b, o = .returned m used b → m = c'.sent ∧ c'.sent = n + 1 := by
  induction acts generalizing c p with
  | nil => cases hs
  | cons a acts ih =>
    rw [Chan.runCall] at hs
    split at hs
    · cases hs
    · rename_i c₁ hstep
      have h₁ := numbered_step h hp hstep
      split at hs
      · rename_i o' hpc ho
        split at hs
        · obtain ⟨rfl,rfl⟩ := Prod.mk.inj (Option.some.inj hs)
          unfold Chan.Numbered at h₁
          rw [hpc] at h₁
          exact ⟨ho,h₁.1,fun m used b he => h₁.2 m used b (he ▸ ho)⟩
        · cases hs
      · cases hs
      · rename_i p' hpc
        exact ih h₁ hpc hs

theorem numbered_sendAndAwaitTurn {text : Json} {t g : ℕ} {acts : List Act} {o : Outcome}
    (hs : c.sendAndAwaitTurn text t g acts = some (o,c')) : c.sent ≤ c'.sent ∧
      ∀ m used b, o = .returned m used b → c'.outcomes.getLast? = some o ∧ m = c'.sent ∧ c'.sent = c.sent + 1 := by
  unfold Chan.sendAndAwaitTurn at hs
  split at hs
  · obtain ⟨rfl,rfl⟩ := Prod.mk.inj (Option.some.inj hs)
    exact ⟨le_refl _,fun m used b he => by cases he⟩
  · have hstart : ({ c with pc := some (.draining text t g) } : Chan).Numbered c.sent := rfl
    obtain ⟨ho,hle,hout⟩ := numbered_runCall hstart rfl hs
    exact ⟨hle,fun m used b he => ⟨ho,hout m used b he⟩⟩

end Numbered

end Channel

namespace World

variable {w w' : World} {c : ConversationId} {i : ChannelId}

/-- How many texts have been sent on a channel. -/
def sentOn (w : World) (i : ChannelId) : ℕ := (w.channels[i]?).elim 0 (·.chan.sent)

@[simp] theorem sentOn_closeChannel (j : ChannelId) : (w.closeChannel j).sentOn i = w.sentOn i := by
  simp only [sentOn,closeChannel,List.getElem?_modify]
  cases w.channels[i]? with
  | none => rfl
  | some r => by_cases hj : j = i <;> simp [hj]

theorem sentOn_channels (h : w'.channels = w.channels) : w'.sentOn i = w.sentOn i := by
  simp only [sentOn,h]

theorem sentOn_set {j : ChannelId} {r : ChannelRec} {chan : Channel.Chan} (hr : w.channels[j]? = some r) :
    ({ w with channels := w.channels.set j { r with chan := chan } } : World).sentOn i =
      if i = j then chan.sent else w.sentOn i := by
  obtain ⟨hj,-⟩ := List.getElem?_eq_some_iff.mp hr
  by_cases hij : i = j
  · subst hij
    simp [sentOn,hj]
  · simp [sentOn,hij,List.getElem?_set_ne (Ne.symm hij)]

@[simp] theorem sentOn_popChannel (c : ConversationId) : (w.popChannel c).2.sentOn i = w.sentOn i := by
  unfold popChannel
  split
  · rfl
  · exact sentOn_closeChannel _

@[simp] theorem sentOn_evict (max n : ℕ) (w : World) : (evict max n w).sentOn i = w.sentOn i := by
  induction n generalizing w with
  | zero => rfl
  | succ n ih =>
    rw [evict]
    split
    · rfl
    · split
      · exact (ih _).trans (sentOn_closeChannel _)
      · rfl

theorem sentOn_openChannel {auth : Auth} {now : ℕ} {queue : List Channel.Frame}
    {pending : Option Channel.Frame} : (w.openChannel c auth now queue pending).2.sentOn i = w.sentOn i := by
  simp only [sentOn,openChannel,List.getElem?_append]
  split
  · rfl
  · rename_i hi
    rw [List.getElem?_eq_none (Nat.le_of_not_lt hi)]
    cases hk : i - w.channels.length with
    | zero => rfl
    | succ k => rfl

theorem sentOn_connect {max : ℕ} {auth : Auth} {ch : Choice} {r : Except Exn ChannelId}
    (h : w.connect max c auth ch = some (r,w')) : w'.sentOn i = w.sentOn i := by
  unfold connect at h
  split at h
  · split at h
    · obtain ⟨-,rfl⟩ := Prod.mk.inj (Option.some.inj h)
      exact sentOn_evict _ _ _
    · obtain ⟨-,rfl⟩ := Prod.mk.inj (Option.some.inj h)
      exact sentOn_openChannel.trans (sentOn_evict _ _ _)
  · obtain ⟨-,rfl⟩ := Prod.mk.inj (Option.some.inj h)
    exact sentOn_evict _ _ _
  · cases h

theorem sentOn_acquire {max : ℕ} {auth : Auth} {ch : Choice} {r : Except Exn ChannelId}
    (h : w.acquire max c auth ch = some (r,w')) : w'.sentOn i = w.sentOn i := by
  unfold acquire at h
  split at h
  · split at h
    · unfold reuse at h
      split at h
      · obtain ⟨-,rfl⟩ := Prod.mk.inj (Option.some.inj h)
        rfl
      · cases h
    · exact (sentOn_connect h).trans (sentOn_popChannel c)
  · exact sentOn_connect h

/-- What the last call on a channel returned: the number of its text and the frames that it kept. -/
def returned (w : World) (i : ChannelId) : Option (ℕ × List Channel.Arrival) :=
  match (w.channels[i]?).bind fun r => r.chan.outcomes.getLast? with
  | some (.returned n used _) => some (n,used)
  | _ => none

theorem sentOn_sendAndAwaitTurn {j : ChannelId} {text : Json} {t g : ℕ} {ch : Choice} {done : Bool}
    {r : Except Exn Channel.BotTurn} (h : w.sendAndAwaitTurn j text t g ch = some (r,done,w')) :
    w.sentOn i ≤ w'.sentOn i ∧ (i ≠ j → w'.sentOn i = w.sentOn i) ∧
      ∀ b, r = .ok b → ∃ used, w'.returned j = some (w'.sentOn j,used) ∧ w'.sentOn j = w.sentOn j + 1 := by
  unfold sendAndAwaitTurn at h
  split at h
  · rename_i acts
    cases hr : w.channels[j]? with
    | none => simp [hr] at h
    | some rec =>
      simp only [hr] at h
      split at h
      · cases h
      · rename_i o chan hs
        obtain ⟨hle,hout⟩ := Channel.numbered_sendAndAwaitTurn hs
        have hsent : w.sentOn j = rec.chan.sent := by simp [sentOn,hr]
        have hset : ∀ k, ({ w with channels := w.channels.set j { rec with chan := chan } } : World).sentOn k =
            if k = j then chan.sent else w.sentOn k := fun k => sentOn_set hr
        have hmono : w.sentOn i ≤ if i = j then chan.sent else w.sentOn i := by
          by_cases hij : i = j
          · subst hij
            simpa [hsent] using hle
          · simp [hij]
        split at h
        · rename_i m used b
          simp only [Option.some.injEq,Prod.mk.injEq] at h
          obtain ⟨rfl,-,rfl⟩ := h
          obtain ⟨ho,rfl,hnext⟩ := hout m used b rfl
          refine ⟨(hset i) ▸ hmono,fun hij => by rw [hset,if_neg hij],fun b' _ => ⟨used,?_,?_⟩⟩
          · obtain ⟨hj,-⟩ := List.getElem?_eq_some_iff.mp hr
            rw [hset,if_pos rfl]
            simp [returned,hj,ho]
          · rw [hset,if_pos rfl,hsent,hnext]
        · simp only [Option.some.injEq,Prod.mk.injEq] at h
          obtain ⟨rfl,-,rfl⟩ := h
          exact ⟨(hset i) ▸ hmono,fun hij => by rw [hset,if_neg hij],fun b' hb => by cases hb⟩
  · cases h

/-- Numbers only grow, and only where a text is sent. -/
theorem sentOn_exec {d : Deployment} {x : Conn} {o : Op} {ch : Choice} {r : Except Exn o.Ans}
    (h : w.exec d x o ch = some (r,w')) : w.sentOn i ≤ w'.sentOn i := by
  obtain ⟨done,w₁,hp,rfl⟩ := exec_eq h
  change w.sentOn i ≤ w₁.sentOn i
  by_cases hpop : o.role = .pop
  · obtain ⟨c',rfl⟩ := Op.eq_popChannel hpop
    obtain ⟨rfl,-,rfl⟩ := settled_eq hp
    exact (sentOn_popChannel c').ge
  by_cases hchannel : o.role = .channel
  · cases o with
    | acquire c auth => exact (sentOn_acquire (acquired_eq hp).2).ge
    | sendAndAwaitTurn j text t g auth => exact (sentOn_sendAndAwaitTurn hp).1
    | stmt s =>
      have hdb := s.isDb_role
      rw [show s.role = .channel from hchannel] at hdb
      cases hdb
    | _ => cases hchannel
  · exact (sentOn_channels (pool_of_role hpop hchannel hp).2).ge

theorem sentOn_foldl_closeChannel (es : List PoolEntry) (w : World) :
    (es.foldl (fun w e => w.closeChannel e.channel) w).sentOn i = w.sentOn i := by
  induction es generalizing w with
  | nil => rfl
  | cons e es ih => exact (ih _).trans (sentOn_closeChannel _)

theorem sentOn_env {d : Deployment} {e : EnvAct} (h : w.env d e = some w') : w'.sentOn i = w.sentOn i := by
  cases e with
  | reload registry =>
    obtain rfl := Option.some.inj h
    rfl
  | reap now =>
    obtain rfl := Option.some.inj h
    exact sentOn_foldl_closeChannel _ _
  | closeAll =>
    obtain rfl := Option.some.inj h
    exact sentOn_foldl_closeChannel _ _
  | reader j a =>
    simp only [env] at h
    split at h
    · rename_i r hr
      split at h
      · rename_i hreader
        split at h
        · rename_i chan hs
          obtain rfl := Option.some.inj h
          rw [sentOn_set hr]
          split
          · rename_i hij
            subst hij
            have hsent : w.sentOn i = r.chan.sent := by simp [sentOn,hr]
            rw [hsent]
            cases a with
            | tick t =>
              obtain rfl := Option.some.inj hs
              rfl
            | recv a =>
              simp only [Channel.Chan.step] at hs
              split at hs
              · cases hs
              · obtain rfl := Option.some.inj hs
                rfl
            | readerEnd reason =>
              simp only [Channel.Chan.step] at hs
              split at hs
              · cases hs
              · obtain rfl := Option.some.inj hs
                rfl
            | _ => cases hreader
          · rfl
        · cases h
      · cases h
    · cases h

end World

end Saarathi
