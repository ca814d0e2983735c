import Saarathi.TurnSeparation

/-!
# Replies that have been received completely

Once the frame with the finish reason is in the queue, only the test at the top
of the loop can keep the caller from reading up to it.
-/

namespace Saarathi
namespace Channel

open Machine

/-- The frame ends the bot's reply. -/
def Arrival.Final (a : Arrival) : Prop := a.frame.source = "bot" ∧ a.frame.finishReason.getD "" ≠ ""

/-- The frame reports an error of Mitra. -/
def Arrival.Fails (a : Arrival) : Prop := a.frame.source = "system" ∧ a.frame.error ≠ ""

/-- The frames of the reply itself. -/
def bots (as : List Arrival) : List Arrival := as.filter fun a => a.frame.source = "bot"

theorem bots_cons_of_bot {a : Arrival} {as : List Arrival} (h : a.frame.source = "bot") :
    bots (a :: as) = a :: bots as := by
  simp [bots,h]

theorem bots_cons_of_ne {a : Arrival} {as : List Arrival} (h : a.frame.source ≠ "bot") :
    bots (a :: as) = bots as := by
  simp [bots,h]

namespace Chan

/-- The loop of the call in progress. -/
def loop (c : Chan) : Option Loop :=
  match c.pc with
  | some (.checking l) => some l
  | some (.waiting l _) => some l
  | _ => none

/-- The frames that the loop has not read yet, in the order in which it will. -/
def unread (c : Chan) : List Arrival := c.pending.toList ++ c.queue

/-- The test at the top of the loop, where the next step makes it, finds the channel open and time
left. -/
def Passes (c : Chan) : Act → Prop
  | .go _ => match c.pc with
    | some (.checking l) => c.closed = false ∧ c.now < expiry l
    | _ => True
  | _ => True

instance (c : Chan) : (a : Act) → Decidable (c.Passes a)
  | .go _ => match h : c.pc with
    | some (.checking l) =>
      decidable_of_iff (c.closed = false ∧ c.now < expiry l) (by simp [Passes,h])
    | none => isTrue (by simp [Passes,h])
    | some (.draining ..) => isTrue (by simp [Passes,h])
    | some (.sending ..) => isTrue (by simp [Passes,h])
    | some (.waiting ..) => isTrue (by simp [Passes,h])
  | .tick _ => isTrue trivial
  | .recv _ => isTrue trivial
  | .readerEnd _ => isTrue trivial
  | .close => isTrue trivial
  | .call .. => isTrue trivial

/-- Every test at the top of the loop passes. -/
def Undisturbed : Chan → List Act → Prop
  | _,[] => True
  | c,a :: as => c.Passes a ∧ match c.step a with
    | none => True
    | some c' => Undisturbed c' as

def undisturbed : Chan → List Act → Bool
  | _,[] => true
  | c,a :: as => decide (c.Passes a) && match c.step a with
    | none => true
    | some c' => undisturbed c' as

theorem undisturbed_iff {c : Chan} {as : List Act} : c.undisturbed as = true ↔ c.Undisturbed as := by
  induction as generalizing c with
  | nil => simp [undisturbed,Undisturbed]
  | cons a as ih =>
    rw [undisturbed,Undisturbed,Bool.and_eq_true,decide_eq_true_iff]
    cases c.step a with
    | none => simp
    | some c' => simp [ih]

end Chan

/-- A call that has read part of a reply and has the rest of it unread, `f` being its last frame. -/
structure Midway (c : Chan) (l : Loop) (xs : List Arrival) (f : Arrival) (ys : List Arrival) : Prop where
  inv : Inv (fun _ _ => True) c
  loop : c.loop = some l
  unread : c.unread = xs ++ f :: ys
  quiet : ∀ a ∈ xs, ¬ a.Final ∧ ¬ a.Fails
  final : f.Final

/-- The outcome that returns exactly these frames. -/
def Outcome.isReply (n : ℕ) (used : List Arrival) (o : Outcome) : Prop :=
  o = .returned n used (assemble used)

theorem not_isReply_of_length {n n' : ℕ} {used used' : List Arrival} {b : BotTurn}
    (h : used'.length < used.length) : ¬ Outcome.isReply n used (.returned n' used' b) := by
  intro he
  obtain ⟨-,hu,-⟩ : n' = n ∧ used' = used ∧ b = assemble used := by simpa [Outcome.isReply] using he
  rw [hu] at h
  omega

namespace Midway

variable {c c' : Chan} {l : Loop} {xs ys : List Arrival} {f : Arrival}

theorem admits (c : Chan) (a : Act) : Admits (fun _ _ => True) c a := by
  cases a with
  | recv a => exact fun _ _ => trivial
  | _ => trivial

/-- How one step goes on: the call reads on, returns the reply, or ends otherwise. -/
inductive Next (c : Chan) (l : Loop) (xs : List Arrival) (f : Arrival) (a : Act) (c' : Chan) : Prop
  | on (l' : Loop) (xs' ys' : List Arrival) (h : Midway c' l' xs' f ys') (hturn : l'.turn = l.turn)
      (hused : l'.used ++ bots xs' = l.used ++ bots xs) (hpass : c.Passes a)
  | returned (hpc : c'.pc = none) (hpass : c.Passes a)
      (ho : c'.outcomes.getLast? =
        some (.returned l.turn (l.used ++ bots xs ++ [f]) (assemble (l.used ++ bots xs ++ [f]))))
  | lost (o : Outcome) (hpc : c'.pc = none) (hpass : ¬ c.Passes a)
      (ho : c'.outcomes.getLast? = some o) (hn : ¬ o.isReply l.turn (l.used ++ bots xs ++ [f]))

/-- The next frame is read. -/
theorem next_process {a : Act} {b : Arrival} {zs : List Arrival} {c₁ : Chan} (h : Midway c l xs f ys)
    (hpass : c.Passes a) (hu : c.unread = b :: zs) (h₁ : c₁.unread = zs)
    (hinv : Inv (fun _ _ => True) (c₁.process l b)) (hreads : l.Reads (fun _ _ => True) c.sent) :
    Next c l xs f a (c₁.process l b) := by
  have hsplit : b :: zs = xs ++ f :: ys := hu.symm.trans h.unread
  cases xs with
  | nil =>
    obtain ⟨rfl,rfl⟩ : b = f ∧ zs = ys := by simpa using hsplit
    obtain ⟨hbot,hfin⟩ := h.final
    have hproc : c₁.process l b = c₁.flush (c₁.accumulate l b) := by
      simp [Chan.process,hbot,hfin]
    have hread : (c₁.accumulate l b).Reads (fun _ _ => True) c.sent := reads_accumulate hreads trivial
    refine .returned (by simp [hproc,Chan.flush,Chan.finish]) hpass ?_
    rw [hproc]
    simp only [Chan.flush,Chan.finish,List.getLast?_append,List.getLast?_singleton,Option.some_or,
      botTurn_eq_assemble hread]
    simp [Chan.accumulate,bots]
  | cons x xs =>
    obtain ⟨rfl,hzs⟩ : b = x ∧ zs = xs ++ f :: ys := by simpa using hsplit
    have hq : ¬ b.Final ∧ ¬ b.Fails := h.quiet b (by simp)
    have hquiet : ∀ a ∈ xs, ¬ a.Final ∧ ¬ a.Fails := fun a ha => h.quiet a (by simp [ha])
    have hskip : ∀ l', l'.turn = l.turn → l'.used ++ bots xs = l.used ++ bots (b :: xs) →
        c₁.process l b = { c₁ with pc := some (.checking l') } →
        Next c l (b :: xs) f a (c₁.process l b) := by
      intro l' hturn hused hproc
      refine .on l' xs ys ⟨hinv,?_,?_,hquiet,h.final⟩ hturn hused hpass
      · rw [hproc]
        rfl
      · rw [hproc]
        exact h₁.trans hzs
    by_cases huser : b.frame.source = "user"
    · have hne : b.frame.source ≠ "bot" := by simp [huser]
      apply hskip l rfl (by rw [bots_cons_of_ne hne])
      simp [Chan.process,huser]
    by_cases hbot : b.frame.source = "bot"
    · have hnf : ¬ b.frame.finishReason.getD "" ≠ "" := fun hf => hq.1 ⟨hbot,hf⟩
      apply hskip (c₁.accumulate l b) rfl
      · rw [bots_cons_of_bot hbot]
        simp [Chan.accumulate]
      · simp only [not_not] at hnf
        simp [Chan.process,hbot,hnf]
    · have hnf : ¬ (b.frame.source = "system" ∧ b.frame.error ≠ "") := hq.2
      apply hskip l rfl (by rw [bots_cons_of_ne hbot])
      rw [Chan.process,if_neg huser,if_neg hnf,if_pos hbot]

/-- The call ends with fewer frames than the reply has. -/
theorem next_lost {a : Act} {o : Outcome} (hpass : ¬ c.Passes a)
    (ho : ∀ n b, o = .returned n l.used b ∨ ∃ n e, o = .raised n e) :
    Next c l xs f a (c.finish o) := by
  refine .lost o rfl hpass (by simp [Chan.finish]) ?_
  rcases ho 0 {text := ""} with rfl | ⟨n,e,rfl⟩
  · apply not_isReply_of_length
    simp
  · simp [Outcome.isReply]

theorem next_check {r : SendResult} (h : Midway c l xs f ys) (hpc : c.pc = some (.checking l)) :
    Next c l xs f (.go r) (c.check l) := by
  have hreads : l.Reads (fun _ _ => True) c.sent := h.inv.pc _ hpc
  have hstep : c.step (.go r) = some (c.check l) := by simp [Chan.step,Chan.go,hpc]
  have hinv : Inv (fun _ _ => True) (c.check l) := inv_step h.inv (admits c _) hstep
  have hpasses : c.Passes (.go r) ↔ c.closed = false ∧ c.now < Chan.expiry l := by
    constructor
    · intro hp
      simpa [Chan.Passes,hpc] using hp
    · intro hp
      simpa [Chan.Passes,hpc] using hp
  by_cases hclosed : c.closed = true
  · have hcheck : c.check l = c.finish (.raised l.turn (.mitra (.channelClosed c.closeReason))) := by
      simp [Chan.check,hclosed]
    have hn : ¬ c.Passes (.go r) := by simp [hpasses,hclosed]
    rw [hcheck]
    exact next_lost hn fun _ _ => .inr ⟨_,_,rfl⟩
  by_cases hexp : Chan.expiry l ≤ c.now
  · have hn : ¬ c.Passes (.go r) := by
      rw [hpasses]
      omega
    have hcheck : c.check l = c.flush l ∨
        c.check l = c.finish (.raised l.turn (.mitra (.turnTimeout l.step))) := by
      simp only [Chan.check,if_neg hclosed,if_pos hexp]
      split
      · exact .inl rfl
      · exact .inr rfl
    rcases hcheck with hc | hc
    · rw [hc]
      refine .lost (.returned l.turn l.used (Chan.botTurn l)) rfl hn
        (by simp [Chan.flush,Chan.finish]) (not_isReply_of_length (by simp))
    · rw [hc]
      exact next_lost hn fun _ _ => .inr ⟨_,_,rfl⟩
  have hpass : c.Passes (.go r) := by
    rw [hpasses]
    exact ⟨by simpa using hclosed,by omega⟩
  rcases hp : c.pending with _ | b
  · have hcheck : c.check l = { c with pc := some (.waiting l (Chan.expiry l)) } := by
      simp [Chan.check,hclosed,hexp,hp]
    rw [hcheck] at hinv ⊢
    exact .on l xs ys ⟨hinv,rfl,h.unread,h.quiet,h.final⟩ rfl rfl hpass
  · have hcheck : c.check l = { c with pending := none }.process l b := by
      simp [Chan.check,hclosed,hexp,hp]
    have hu : c.unread = b :: c.queue := by simp [Chan.unread,hp]
    rw [hcheck] at hinv ⊢
    exact h.next_process hpass hu rfl hinv hreads

theorem next_wait {r : SendResult} {e : ℕ} (h : Midway c l xs f ys)
    (hpc : c.pc = some (.waiting l e)) (hs : c.step (.go r) = some c') :
    Next c l xs f (.go r) c' := by
  have hreads : l.Reads (fun _ _ => True) c.sent := h.inv.pc _ hpc
  have hpend : c.pending = none := h.inv.waiting l e hpc
  have hinv : Inv (fun _ _ => True) c' := inv_step h.inv (admits c _) hs
  have hpass : c.Passes (.go r) := by simp [Chan.Passes,hpc]
  have hqueue : c.queue = xs ++ f :: ys := by simpa [Chan.unread,hpend] using h.unread
  obtain ⟨b,q,hq⟩ : ∃ b q, c.queue = b :: q := by
    cases hq : c.queue with
    | nil => simp [hq] at hqueue
    | cons b q => exact ⟨b,q,rfl⟩
  have hc' : c' = { c with queue := q }.process l b := by
    simpa [Chan.step,Chan.go,hpc,Chan.wait,hq] using hs.symm
  have hu : c.unread = b :: q := by simp [Chan.unread,hpend,hq]
  have hu' : ({ c with queue := q } : Chan).unread = q := by simp [Chan.unread,hpend]
  rw [hc'] at hinv ⊢
  exact h.next_process hpass hu hu' hinv hreads

theorem next_step {a : Act} (h : Midway c l xs f ys) (hs : c.step a = some c') :
    Next c l xs f a c' := by
  have hinv : Inv (fun _ _ => True) c' := inv_step h.inv (admits c a) hs
  cases a with
  | tick d =>
    obtain rfl : _ = c' := by simpa [Chan.step] using hs
    exact .on l xs ys ⟨hinv,h.loop,h.unread,h.quiet,h.final⟩ rfl rfl trivial
  | recv b =>
    simp only [Chan.step] at hs
    split at hs
    · cases hs
    obtain rfl : _ = c' := by simpa using hs
    have hu : c.pending.toList ++ (c.queue ++ [b]) = xs ++ f :: (ys ++ [b]) := by
      rw [← List.append_assoc,← Chan.unread,h.unread,List.append_assoc,List.cons_append]
    exact .on l xs (ys ++ [b]) ⟨hinv,h.loop,hu,h.quiet,h.final⟩ rfl rfl trivial
  | readerEnd reason =>
    simp only [Chan.step] at hs
    split at hs
    · cases hs
    obtain rfl : _ = c' := by simpa using hs
    exact .on l xs ys ⟨hinv,h.loop,h.unread,h.quiet,h.final⟩ rfl rfl trivial
  | close =>
    obtain rfl : _ = c' := by simpa [Chan.step] using hs
    exact .on l xs ys ⟨hinv,h.loop,h.unread,h.quiet,h.final⟩ rfl rfl trivial
  | call text timeout gap =>
    simp only [Chan.step] at hs
    split at hs
    · rename_i hpc
      have hl := h.loop
      simp [Chan.loop,hpc] at hl
    · obtain rfl : _ = c' := by simpa using hs
      exact .on l xs ys ⟨hinv,h.loop,h.unread,h.quiet,h.final⟩ rfl rfl trivial
  | go r =>
    have hl := h.loop
    unfold Chan.loop at hl
    split at hl
    · rename_i l' hpc
      obtain rfl : l' = l := by simpa using hl
      obtain rfl : c.check l' = c' := by simpa [Chan.step,Chan.go,hpc] using hs
      exact h.next_check hpc
    · rename_i l' e hpc
      obtain rfl : l' = l := by simpa using hl
      exact h.next_wait hpc hs
    · cases hl

theorem pc_isSome (h : Midway c l xs f ys) : ∃ p, c.pc = some p := by
  have hl := h.loop
  unfold Chan.loop at hl
  split at hl
  · exact ⟨_,‹_›⟩
  · exact ⟨_,‹_›⟩
  · cases hl

/-- The run of the call from here on. -/
theorem isReply_iff {as : List Act} {o : Outcome} (h : Midway c l xs f ys)
    (hr : c.runCall as = some (o,c')) :
    o.isReply l.turn (l.used ++ bots xs ++ [f]) ↔ c.Undisturbed as := by
  induction as generalizing c l xs ys with
  | nil => simp [Chan.runCall] at hr
  | cons a as ih =>
    rw [Chan.runCall] at hr
    split at hr
    · cases hr
    rename_i c₁ hs
    have hundisturbed : c.Undisturbed (a :: as) ↔ c.Passes a ∧ c₁.Undisturbed as := by
      simp [Chan.Undisturbed,hs]
    rw [hundisturbed]
    cases h.next_step hs with
    | on l' xs' ys' h' hturn hused hpass =>
      obtain ⟨p,hp⟩ := h'.pc_isSome
      simp only [hp] at hr
      rw [← hturn,← hused,ih h' hr]
      simp [hpass]
    | returned hpc hpass ho =>
      simp only [hpc,ho] at hr
      split at hr
      · rename_i hnil
        obtain ⟨rfl,-⟩ : _ = o ∧ _ := by simpa using hr
        have hnil' : as = [] := by simpa using hnil
        simp [Outcome.isReply,hpass,hnil',Chan.Undisturbed]
      · cases hr
    | lost o' hpc hpass ho hn =>
      simp only [hpc,ho] at hr
      split at hr
      · obtain ⟨rfl,-⟩ : o' = o ∧ _ := by simpa using hr
        exact iff_of_false hn fun hp => hpass hp.1
      · cases hr

end Midway

/-- From any moment at which the rest of a reply is in the queue, on every schedule of the reader and
the caller: the call returns the whole reply if and only if each test at the top of the loop, until
the last frame is read, finds the channel open and time left. -/
theorem complete_reply_returned {ok : Chan → Act → Prop} {c₀ c c' : Chan} {l : Loop}
    {xs ys : List Arrival} {f : Arrival} {as : List Act} {o : Outcome} (h₀ : Fresh c₀)
    (hc : Reach Chan.step ok c₀ c) (hl : c.loop = some l) (hu : c.unread = xs ++ f :: ys)
    (hxs : ∀ a ∈ xs, ¬ a.Final ∧ ¬ a.Fails) (hf : f.Final) (hr : c.runCall as = some (o,c')) :
    o = .returned l.turn (l.used ++ bots xs ++ [f]) (assemble (l.used ++ bots xs ++ [f])) ↔
      c.Undisturbed as := by
  have hinv : Inv (fun _ _ => True) c := by
    apply inv_of_reach (h₀.inv fun _ _ _ => trivial) hc
    intro c a _
    exact Midway.admits c a
  exact Midway.isReply_iff ⟨hinv,hl,hu,hxs,hf⟩ hr

def openingFrame : Arrival := ⟨{ source := "bot", msg := "How old " },some 1⟩

def closingFrame : Arrival := ⟨{ source := "bot", msg := "are you?", finishReason := some "stop" },some 1⟩

/-- A text is sent, and both frames of the reply are in the queue. -/
def received : Chan :=
  (run Chan.step anyAct {} [.call (.str "A") 10 5,.go {},.go {},.recv openingFrame,
    .recv closingFrame]).getD {}

theorem reach_received : Reach Chan.step anyAct {} received := by
  have hrun : run Chan.step anyAct {} [.call (.str "A") 10 5,.go {},.go {},.recv openingFrame,
      .recv closingFrame] = some received := rfl
  exact reach_of_run hrun

theorem openingFrame_quiet : ∀ a ∈ [openingFrame], ¬ a.Final ∧ ¬ a.Fails := by
  intro a ha
  obtain rfl : a = openingFrame := by simpa using ha
  simp [Arrival.Final,Arrival.Fails,openingFrame]

theorem closingFrame_final : closingFrame.Final := by simp [Arrival.Final,closingFrame]

/-- Read at once, the reply is returned. -/
theorem complete_reply_returned_read : ∃ o c',
    received.runCall [.go {},.go {},.go {},.go {}] = some (o,c') ∧
      o = .returned 1 [openingFrame,closingFrame] { text := "How old are you?" } := by
  cases hr : received.runCall [.go {},.go {},.go {},.go {}] with
  | none => cases hr
  | some r =>
    obtain ⟨o,c'⟩ := r
    have hpass : received.Undisturbed [.go {},.go {},.go {},.go {}] := by
      rw [← Chan.undisturbed_iff]
      rfl
    have hunread : received.unread = [openingFrame] ++ closingFrame :: [] := rfl
    have hfresh : Fresh {} := ⟨rfl,rfl,by simp,by simp⟩
    have hreply := (complete_reply_returned hfresh reach_received rfl hunread openingFrame_quiet
      closingFrame_final hr).mpr hpass
    exact ⟨o,c',rfl,hreply⟩

/-- The connection ends when the whole reply is in the queue and its first frame has been read. -/
theorem received_reply_discarded : Reach Chan.step anyAct {} received ∧
    received.closed = false ∧ received.unread = [openingFrame,closingFrame] ∧ ∃ o c',
      received.runCall [.go {},.go {},.readerEnd "",.go {}] = some (o,c') ∧
        o = .raised 1 (.mitra (.channelClosed "")) :=
  ⟨reach_received,rfl,rfl,_,_,rfl,rfl⟩

end Channel
end Saarathi
