import Saarathi.Channel
import Saarathi.Machine

/-!
# Replies stay in their own turn

Frames carry no turn number, so a reply is kept out of a later turn only by the
drain at that turn's start. This module says what a returned turn is made of and
which arrivals can put a reply into a turn that it does not answer.
-/

namespace Saarathi
namespace Channel

open Machine

/-- The frame answers a text before the `n`-th. -/
def Arrival.Earlier (n : ℕ) (a : Arrival) : Prop := ∃ m, a.answers = some m ∧ m < n

instance (n : ℕ) (a : Arrival) : Decidable (a.Earlier n) :=
  match h : a.answers with
  | none => isFalse fun ⟨_,hm,_⟩ => by simp [h] at hm
  | some m => decidable_of_iff (m < n) ⟨fun hm => ⟨m,h,hm⟩,fun ⟨_,hk,hk'⟩ => by
      rw [h] at hk
      exact Option.some.inj hk ▸ hk'⟩

/-- The text, options and step that a list of bot frames amounts to. -/
def assemble (used : List Arrival) : BotTurn where
  text := if String.join (used.map (·.frame.msg)) = "" ∧ used.any (·.frame.controlPayload)
    then unreadableTurnMessage else String.join (used.map (·.frame.msg))
  options := used.foldl (fun o a => if a.frame.options.isEmpty then o else a.frame.options) []
  step := used.foldl (fun s a => a.frame.step <|> s) none

/-- Every returned turn is what its own frames amount to, and none of them answers an
earlier text. -/
def NoBleed (c : Chan) : Prop :=
  ∀ n used b, Outcome.returned n used b ∈ c.outcomes →
    b = assemble used ∧ ∀ a ∈ used, ¬ a.Earlier n

/-- A channel on which no text has been sent: whatever it holds answers none. -/
structure Fresh (c : Chan) : Prop where
  pc : c.pc = none
  outcomes : c.outcomes = []
  queue : ∀ a ∈ c.queue, a.answers = none
  pending : ∀ a, c.pending = some a → a.answers = none

/-- A call is past its drain. -/
def Chan.awaiting (c : Chan) : Bool :=
  match c.pc with
  | none => false
  | some (.draining ..) => false
  | some _ => true

/-- No bot frame of a reply to an earlier text arrives while a call is past its drain. -/
def OnTime (c : Chan) : Act → Prop
  | .recv a => c.awaiting = true → a.frame.source = "bot" → ¬ a.Earlier c.sent
  | _ => True

instance (c : Chan) : (a : Act) → Decidable (OnTime c a)
  | .recv a => inferInstanceAs (Decidable (c.awaiting = true → a.frame.source = "bot" → ¬ a.Earlier c.sent))
  | .tick _ => isTrue trivial
  | .readerEnd _ => isTrue trivial
  | .close => isTrue trivial
  | .call .. => isTrue trivial
  | .go _ => isTrue trivial

section Reads

-- Which frames may be read into which turn.
variable (P : ℕ → Arrival → Prop)

/-- Every returned turn is what its own frames amount to, and each of them may be read into it. -/
def Chan.Built (c : Chan) : Prop :=
  ∀ n used b, Outcome.returned n used b ∈ c.outcomes → b = assemble used ∧ ∀ a ∈ used, P n a

/-- No bot frame that may not be read into the present turn arrives past its drain. -/
def Admits (c : Chan) : Act → Prop
  | .recv a => c.awaiting = true → a.frame.source = "bot" → P c.sent a
  | _ => True

/-- The frame may be read into the `n`-th turn, if it is read at all. -/
def Arrival.Harmless (n : ℕ) (a : Arrival) : Prop := a.frame.source = "bot" → P n a

/-- The accumulators are those of the frames read so far. -/
structure Loop.Reads (l : Loop) (n : ℕ) : Prop where
  turn : l.turn = n
  text : String.join l.chunks = String.join (l.used.map (·.frame.msg))
  payload : l.sawControlPayload = l.used.any (·.frame.controlPayload)
  options : l.options = l.used.foldl (fun o a => if a.frame.options.isEmpty then o else a.frame.options) []
  step : l.step = l.used.foldl (fun s a => a.frame.step <|> s) none
  clean : ∀ a ∈ l.used, P n a

def Pc.Good (n : ℕ) : Pc → Prop
  | .draining .. => True
  | .sending .. => True
  | .checking l => l.Reads P n
  | .waiting l _ => l.Reads P n

/-- What holds between any two actions. -/
structure Inv (c : Chan) : Prop where
  pending : ∀ a, c.pending = some a → ∀ n, P n a
  queue : c.awaiting = true → ∀ a ∈ c.queue, a.Harmless P c.sent
  pc : ∀ p, c.pc = some p → p.Good P c.sent
  waiting : ∀ l e, c.pc = some (.waiting l e) → c.pending = none
  outcomes : c.Built P

/-- What holds of a channel from which every frame in the queue may be read. -/
structure Core (c : Chan) : Prop where
  pending : ∀ a, c.pending = some a → ∀ n, P n a
  queue : ∀ a ∈ c.queue, a.Harmless P c.sent
  outcomes : c.Built P

end Reads

variable {P : ℕ → Arrival → Prop}

theorem Arrival.not_earlier_of_none {n : ℕ} {a : Arrival} (h : a.answers = none) : ¬ a.Earlier n := by
  rintro ⟨m,hm,-⟩
  simp [h] at hm

theorem join_append (xs : List String) (s : String) : String.join (xs ++ [s]) = String.join xs ++ s := by
  simp [String.join]

theorem reads_accumulate {c : Chan} {l : Loop} {a : Arrival} {n : ℕ} (h : l.Reads P n)
    (ha : P n a) : (c.accumulate l a).Reads P n where
  turn := h.turn
  text := by
    simp only [Chan.accumulate,List.map_append,List.map_cons,List.map_nil,join_append]
    split
    · rename_i hm
      rw [hm,h.text,String.append_empty]
    · rw [join_append,h.text]
  payload := by simp [Chan.accumulate,h.payload]
  options := by simp [Chan.accumulate,h.options]
  step := by simp [Chan.accumulate,h.step]
  clean b hb := by
    rcases List.mem_append.mp hb with hb | hb
    · exact h.clean b hb
    · obtain rfl : b = a := by simpa using hb
      exact ha

theorem botTurn_eq_assemble {l : Loop} {n : ℕ} (h : l.Reads P n) : Chan.botTurn l = assemble l.used := by
  simp only [Chan.botTurn,assemble,h.text,h.payload,h.options,h.step]

theorem built_append {c : Chan} {o : Outcome} (h : c.Built P)
    (ho : ∀ n used b, o = .returned n used b → b = assemble used ∧ ∀ a ∈ used, P n a) :
    ∀ n used b, Outcome.returned n used b ∈ c.outcomes ++ [o] →
      b = assemble used ∧ ∀ a ∈ used, P n a := by
  intro n used b hb
  rcases List.mem_append.mp hb with hb | hb
  · exact h n used b hb
  · exact ho n used b (by simpa [eq_comm] using hb)

theorem Inv.core {c : Chan} (h : Inv P c) (ha : c.awaiting = true) : Core P c :=
  ⟨h.pending,h.queue ha,h.outcomes⟩

theorem inv_raise {c : Chan} {n : ℕ} {e : Exn} (h : Core P c) : Inv P (c.finish (.raised n e)) where
  pending := h.pending
  queue ha := by simp [Chan.finish,Chan.awaiting] at ha
  pc p hp := by simp [Chan.finish] at hp
  waiting l e hw := by simp [Chan.finish] at hw
  outcomes := built_append h.outcomes fun _ _ _ he => by cases he

theorem inv_flush {c : Chan} {l : Loop} (h : Core P c) (hl : l.Reads P c.sent) : Inv P (c.flush l) where
  pending := h.pending
  queue ha := by simp [Chan.flush,Chan.finish,Chan.awaiting] at ha
  pc p hp := by simp [Chan.flush,Chan.finish] at hp
  waiting l e hw := by simp [Chan.flush,Chan.finish] at hw
  outcomes := built_append h.outcomes fun n used b he => by
    obtain ⟨rfl,rfl,rfl⟩ : l.turn = n ∧ l.used = used ∧ Chan.botTurn l = b := by simpa using he
    exact ⟨botTurn_eq_assemble hl,hl.turn ▸ hl.clean⟩

theorem inv_continue {c : Chan} {p : Pc} (h : Core P c) (hp : p.Good P c.sent)
    (hw : ∀ l e, p = .waiting l e → c.pending = none) : Inv P { c with pc := some p } where
  pending := h.pending
  queue _ := h.queue
  pc p' hp' := by
    obtain rfl : p = p' := by simpa using hp'
    exact hp
  waiting l e hw' := hw l e (by simpa using hw')
  outcomes := h.outcomes

theorem inv_process {c : Chan} {l : Loop} {a : Arrival} (h : Core P c) (hl : l.Reads P c.sent)
    (ha : a.Harmless P c.sent) : Inv P (c.process l a) := by
  unfold Chan.process
  split
  · exact inv_continue (p := .checking l) h hl nofun
  split
  · exact inv_raise h
  split
  · exact inv_continue (p := .checking l) h hl nofun
  rename_i hbot
  have hread : (c.accumulate l a).Reads P c.sent := reads_accumulate hl (ha (not_not.mp hbot))
  split
  · exact inv_flush h hread
  · exact inv_continue (p := .checking _) h hread nofun

theorem inv_check {c : Chan} {l : Loop} (h : Core P c) (hl : l.Reads P c.sent) : Inv P (c.check l) := by
  unfold Chan.check
  split
  · exact inv_raise h
  split
  · split
    · exact inv_flush h hl
    · exact inv_raise h
  split
  · rename_i a hp
    have h' : Core P { c with pending := none } := ⟨by simp,h.queue,h.outcomes⟩
    exact inv_process h' hl fun _ => h.pending a hp _
  · rename_i hp
    exact inv_continue (p := .waiting l _) h hl fun _ _ _ => hp

theorem reads_start (c : Chan) (timeout gap : ℕ) : Loop.Reads P
    { turn := c.sent, deadline := c.now + timeout, idleGap := gap, lastRx := c.now } c.sent where
  turn := rfl
  text := rfl
  payload := rfl
  options := rfl
  step := rfl
  clean a ha := by simp at ha

/-- One step of the drain: the queue is empty when the text is about to be sent. -/
theorem inv_drain {c c' : Chan} {text : Json} {timeout gap : ℕ} (h : Inv P c)
    (hs : c.drain text timeout gap = c') : Inv P c' := by
  subst hs
  unfold Chan.drain
  split
  · rename_i hq
    exact ⟨h.pending,fun _ a ha => by simp [hq] at ha,
      fun p hp => by obtain rfl : _ = p := by simpa using hp
                     trivial,nofun,h.outcomes⟩
  · exact ⟨h.pending,fun ha => by simp [Chan.awaiting] at ha,
      fun p hp => by obtain rfl : _ = p := by simpa using hp
                     trivial,nofun,h.outcomes⟩

theorem inv_send {c : Chan} {text : Json} {timeout gap : ℕ} {r : SendResult} (h : Core P c) :
    Inv P (c.send text timeout gap r) := by
  have hd : Core P (c.deliver text r) := by
    unfold Chan.deliver
    split
    · exact ⟨h.pending,h.queue,h.outcomes⟩
    · exact h
  have hsent : (c.deliver text r).sent = c.sent := by
    unfold Chan.deliver
    split <;> rfl
  unfold Chan.send
  split
  · exact inv_raise hd
  · refine inv_continue (p := .checking _) hd ?_ nofun
    rw [hsent]
    exact reads_start c timeout gap

theorem inv_wait {c c' : Chan} {l : Loop} {e : ℕ} (h : Core P c) (hl : l.Reads P c.sent)
    (hs : c.wait l e = some c') : Inv P c' := by
  unfold Chan.wait at hs
  split at hs
  · rename_i a q hq
    obtain rfl : _ = c' := by simpa using hs
    have h' : Core P { c with queue := q } :=
      ⟨h.pending,fun b hb => h.queue b (by simp [hq,hb]),h.outcomes⟩
    exact inv_process h' hl (h.queue a (by simp [hq]))
  · split at hs
    · obtain rfl : _ = c' := by simpa using hs
      exact inv_continue (p := .checking l) h hl nofun
    · cases hs

theorem inv_go {c c' : Chan} {r : SendResult} (h : Inv P c) (hs : c.go r = some c') : Inv P c' := by
  unfold Chan.go at hs
  split at hs
  · cases hs
  · exact inv_drain h (by simpa using hs)
  · rename_i hpc
    obtain rfl : _ = c' := by simpa using hs
    exact inv_send (h.core (by simp [Chan.awaiting,hpc]))
  · rename_i l hpc
    obtain rfl : _ = c' := by simpa using hs
    exact inv_check (h.core (by simp [Chan.awaiting,hpc])) (h.pc _ hpc)
  · rename_i l e hpc
    exact inv_wait (h.core (by simp [Chan.awaiting,hpc])) (h.pc _ hpc) hs

theorem inv_step {c c' : Chan} {a : Act} (h : Inv P c) (hok : Admits P c a) (hs : c.step a = some c') :
    Inv P c' := by
  cases a with
  | tick d =>
    obtain rfl : _ = c' := by simpa [Chan.step] using hs
    exact ⟨h.pending,h.queue,h.pc,h.waiting,h.outcomes⟩
  | recv a =>
    simp only [Chan.step] at hs
    split at hs
    · cases hs
    obtain rfl : _ = c' := by simpa using hs
    refine ⟨h.pending,fun hc b hb => ?_,h.pc,h.waiting,h.outcomes⟩
    rcases List.mem_append.mp hb with hb | hb
    · exact h.queue hc b hb
    · obtain rfl : b = a := by simpa using hb
      exact hok hc
  | readerEnd reason =>
    simp only [Chan.step] at hs
    split at hs
    · cases hs
    obtain rfl : _ = c' := by simpa using hs
    exact ⟨h.pending,h.queue,h.pc,h.waiting,h.outcomes⟩
  | close =>
    obtain rfl : _ = c' := by simpa [Chan.step] using hs
    exact ⟨h.pending,h.queue,h.pc,h.waiting,h.outcomes⟩
  | call text timeout gap =>
    simp only [Chan.step] at hs
    split at hs
    · obtain rfl : _ = c' := by simpa using hs
      exact ⟨h.pending,fun ha => by simp [Chan.awaiting] at ha,
        fun p hp => by obtain rfl : _ = p := by simpa using hp
                       trivial,nofun,h.outcomes⟩
    · obtain rfl : _ = c' := by simpa using hs
      exact ⟨h.pending,h.queue,h.pc,h.waiting,built_append h.outcomes fun _ _ _ he => by cases he⟩
  | go r => exact inv_go h hs

/-- A channel on which no text has been sent may be read into any turn. -/
theorem Fresh.inv {c : Chan} (h : Fresh c) (hP : ∀ a, a.answers = none → ∀ n, P n a) : Inv P c where
  pending a ha := hP a (h.pending a ha)
  queue ha := by simp [Chan.awaiting,h.pc] at ha
  pc p hp := by simp [h.pc] at hp
  waiting l e hw := by simp [h.pc] at hw
  outcomes n used b hb := by simp [h.outcomes] at hb

theorem inv_of_reach {ok : Chan → Act → Prop} {c₀ c : Chan} (h₀ : Inv P c₀)
    (h : Reach Chan.step ok c₀ c) (hok : ∀ c a, ok c a → Admits P c a) : Inv P c :=
  h.invariant h₀ fun _ _ _ hi ha hs => inv_step hi (hok _ _ ha) hs

/-- Whatever arrives when, a returned turn is what the frames that it read amount to. -/
theorem built_of_reach {ok : Chan → Act → Prop} {c₀ c : Chan} (h₀ : Fresh c₀)
    (h : Reach Chan.step ok c₀ c) {n : ℕ} {used : List Arrival} {b : BotTurn}
    (hb : Outcome.returned n used b ∈ c.outcomes) : b = assemble used := by
  have hinv : Inv (fun _ _ => True) c := by
    apply inv_of_reach (h₀.inv fun _ _ _ => trivial) h
    intro c a _
    cases a with
    | recv a => exact fun _ _ => trivial
    | _ => trivial
  exact (hinv.outcomes n used b hb).1

/-- A reply stays out of the later turns of every run in which no frame of it arrives while a
later call is past its drain. -/
theorem noBleed_of_onTime {c₀ c : Chan} (h₀ : Fresh c₀) (h : Reach Chan.step OnTime c₀ c) :
    NoBleed c :=
  have hearly : ∀ a : Arrival, a.answers = none → ∀ n, ¬ a.Earlier n := fun _ ha _ =>
    Arrival.not_earlier_of_none ha
  (inv_of_reach (h₀.inv hearly) h fun c a ha => by cases a <;> exact ha).outcomes

/-- The first text times out; the reply to it comes while nobody waits. -/
def droppedReply : List Act :=
  [.call (.str "A") 10 5,.go {},.go {},.tick 10,.go {},
   .recv ⟨{ source := "bot", msg := "answer to A", finishReason := some "stop" },some 1⟩,
   .call (.str "B") 10 5,.go {},.go {},.go {},.recv ⟨{ source := "user", msg := "B" },some 1⟩,
   .recv ⟨{ source := "bot", msg := "answer to B", finishReason := some "stop" },some 2⟩,
   .go {},.go {},.go {},.go {}]

/-- A reply that comes while nobody waits is dropped by the next drain. -/
theorem droppedReply_noBleed : ∃ c, Reach Chan.step OnTime {} c ∧ c.outcomes.length = 2 ∧ NoBleed c := by
  have hrun : ((run Chan.step OnTime {} droppedReply).any fun c => c.outcomes.length = 2) = true := by
    decide +kernel
  obtain ⟨c,hc,hn⟩ := exists_reach_of_run hrun
  exact ⟨c,hc,of_decide_eq_true hn,noBleed_of_onTime ⟨rfl,rfl,by simp,by simp⟩ hc⟩

/-- Some returned turn has read a frame that answers an earlier text. -/
def bleeds (c : Chan) : Bool :=
  c.outcomes.any fun
    | .returned n used _ => used.any fun a => decide (a.Earlier n)
    | .raised .. => false

theorem not_noBleed_of_bleeds {c : Chan} (h : bleeds c = true) : ¬ NoBleed c := by
  intro hn
  obtain ⟨o,ho,hb⟩ := List.any_eq_true.mp h
  cases o with
  | returned n used b =>
    obtain ⟨a,ha,he⟩ := List.any_eq_true.mp hb
    exact (hn n used b ho).2 a ha (of_decide_eq_true he)
  | raised n e => cases hb

/-- The first text times out; the reply to it arrives just after the drain of the second. -/
def lateReply : List Act :=
  [.call (.str "A") 10 5,.go {},.go {},.tick 10,.go {},.call (.str "B") 10 5,.go {},.go {},
   .recv ⟨{ source := "bot", msg := "answer to A", finishReason := some "stop" },some 1⟩,.go {},.go {}]

/-- The reply to the first text is returned as the reply to the second. -/
theorem lateReply_bleeds : ∃ c, Reach Chan.step anyAct {} c ∧ ¬ NoBleed c := by
  have hrun : ((run Chan.step anyAct {} lateReply).any bleeds) = true := by decide +kernel
  obtain ⟨c,hc,hb⟩ := exists_reach_of_run hrun
  exact ⟨c,hc,not_noBleed_of_bleeds hb⟩

end Channel
end Saarathi
