import Saarathi.CompleteReply

/-!
# What a turn accumulates

The reply of one turn from the frames and the times of their delivery: which of
them the call hears before it ends, and what it makes of these.
-/

namespace Saarathi
namespace Channel

open Machine

/-- A frame, with the time of its delivery. -/
abbrev Delivery := ℕ × Arrival

/-- When the wait ends, after these frames: at the deadline, or `gap` after the last bot frame. -/
def moment (deadline gap : ℕ) (heard : List Delivery) : ℕ :=
  match (heard.filter fun p => p.2.frame.source = "bot").getLast? with
  | some p => min deadline (p.1 + gap)
  | none => deadline

/-- Frames that each came before the wait was over, and none of which ends the turn. -/
inductive Heard (deadline gap : ℕ) : List Delivery → Prop
  | nil : Heard deadline gap []
  | snoc {heard : List Delivery} {p : Delivery} (h : Heard deadline gap heard)
      (htime : p.1 ≤ moment deadline gap heard) (hp : ¬ p.2.Final) : Heard deadline gap (heard ++ [p])

/-- The frames that belong to the turn, and whether the last one ends it: up to the first bot frame with a
finish reason, or up to the moment when the wait is over. -/
inductive Cut (deadline gap : ℕ) : List Delivery → List Delivery → Bool → Prop
  | final {heard rest : List Delivery} {p : Delivery} (h : Heard deadline gap heard)
      (htime : p.1 ≤ moment deadline gap heard) (hp : p.2.Final) :
      Cut deadline gap (heard ++ p :: rest) (heard ++ [p]) true
  | moment {heard rest : List Delivery} (h : Heard deadline gap heard)
      (hrest : ∀ p ∈ rest, moment deadline gap heard ≤ p.1) : Cut deadline gap (heard ++ rest) heard false

/-- The messages of the bot frames, in order. -/
def textOf (heard : List Delivery) : String := String.join ((bots (heard.map (·.2))).map (·.frame.msg))

/-- A bot frame was a control payload. -/
def leaked (heard : List Delivery) : Bool := (bots (heard.map (·.2))).any (·.frame.controlPayload)

def Outcome.TimesOut (o : Outcome) : Prop := ∃ n step, o = .raised n (.mitra (.turnTimeout step))

/-- The call returns the text of the turn, asks again for a turn that was a payload only, and times out
on a turn that was nothing. -/
structure Accumulated (deadline gap : ℕ) (ds : List Delivery) (o : Outcome) (heard : List Delivery)
    (ended : Bool) : Prop where
  cut : Cut deadline gap ds heard ended
  ends : (∃ n used b, o = .returned n used b) ∨ o.TimesOut
  text : ∀ n used b, o = .returned n used b →
    b.text = if leaked heard = true ∧ textOf heard = "" then unreadableTurnMessage else textOf heard
  timesOut : o.TimesOut ↔ ended = false ∧ textOf heard = "" ∧ leaked heard = false

/-- The frames that a schedule delivers, from `now` on. -/
def deliveries : ℕ → List Act → List Delivery
  | _,[] => []
  | now,.tick d :: as => deliveries (now + d) as
  | now,.recv a :: as => (now,a) :: deliveries now as
  | now,.readerEnd _ :: as => deliveries now as
  | now,.close :: as => deliveries now as
  | now,.call .. :: as => deliveries now as
  | now,.go _ :: as => deliveries now as

namespace Chan

/-- The channel stays open, no system frame reports an error, and time passes only while the caller is
blocked on an empty queue, which it is no longer than it asked for. -/
def Attends (c : Chan) : Act → Prop
  | .tick d => ∃ l e, c.pc = some (.waiting l e) ∧ c.queue = [] ∧ c.now + d ≤ e
  | .recv a => ¬ a.Fails
  | .readerEnd _ => False
  | .close => False
  | .call .. => True
  | .go _ => True

def Attended : Chan → List Act → Prop
  | _,[] => True
  | c,a :: as => c.Attends a ∧ match c.step a with
    | none => True
    | some c' => Attended c' as

/-- The channel after these actions. -/
def steps : Chan → List Act → Option Chan
  | c,[] => some c
  | c,a :: as => (c.step a).bind fun c' => c'.steps as

/-- A schedule of one call whose text is sent at `start`, and what comes of it: the queue is empty then,
and the rest of the frames comes when the call is over. -/
structure Takes (c : Chan) (text : Json) (timeout gap : ℕ) (ds : List Delivery) (start : ℕ) (o : Outcome)
    (opening acts : List Act) (r : SendResult) (c₁ c' : Chan) (rest : List Delivery) : Prop where
  opens : ({ c with pc := some (.draining text timeout gap) } : Chan).steps opening = some c₁
  sending : c₁.pc = some (.sending text timeout gap)
  queue : c₁.queue = []
  pending : c₁.pending = none
  closed : c₁.closed = false
  now : c₁.now = start
  sent : r.raised = none
  attended : c₁.Attended (.go r :: acts)
  call : c.sendAndAwaitTurn text timeout gap (opening ++ .go r :: acts) = some (o,c')
  frames : ds = deliveries start acts ++ rest
  later : ∀ p ∈ rest, c'.now ≤ p.1

end Chan

section Text

variable {deadline gap : ℕ} {heard : List Delivery} {p : Delivery}

theorem join_eq_empty_iff {ss : List String} : String.join ss = "" ↔ ∀ s ∈ ss, s = "" := by
  induction ss with
  | nil => simp
  | cons s ss ih =>
    have happend : s ++ String.join ss = "" ↔ s = "" ∧ String.join ss = "" := String.append_eq_empty_iff
    rw [String.join_cons,happend,ih,List.forall_mem_cons]

theorem textOf_snoc : textOf (heard ++ [p]) =
    textOf heard ++ if p.2.frame.source = "bot" then p.2.frame.msg else "" := by
  by_cases hp : p.2.frame.source = "bot"
  · simp [textOf,bots,hp]
  · simp [textOf,bots,hp]

theorem leaked_snoc : leaked (heard ++ [p]) =
    (leaked heard || (decide (p.2.frame.source = "bot") && p.2.frame.controlPayload)) := by
  by_cases hp : p.2.frame.source = "bot"
  · simp [leaked,bots,hp]
  · simp [leaked,bots,hp]

theorem moment_snoc : moment deadline gap (heard ++ [p]) =
    if p.2.frame.source = "bot" then min deadline (p.1 + gap) else moment deadline gap heard := by
  by_cases hp : p.2.frame.source = "bot"
  · simp [moment,hp]
  · simp [moment,hp]

theorem moment_le_deadline : moment deadline gap heard ≤ deadline := by
  unfold moment
  split
  · exact Nat.min_le_left _ _
  · exact Nat.le_refl _

end Text

/-- The call has heard these frames, and its loop holds what they amount to. -/
structure Listening (deadline gap : ℕ) (c : Chan) (l : Loop) (heard : List Delivery) : Prop where
  loop : c.loop = some l
  pending : c.pending = none
  closed : c.closed = false
  quiet : ∀ a ∈ c.queue, ¬ a.Fails
  deadline_eq : l.deadline = deadline
  gap_eq : l.idleGap = gap
  expiry : Chan.expiry l = moment deadline gap heard
  waiting : ∀ l' e, c.pc = some (.waiting l' e) → e = moment deadline gap heard
  now : c.now ≤ moment deadline gap heard
  sofar : Heard deadline gap heard
  text : String.join l.chunks = textOf heard
  chunks : ∀ s ∈ l.chunks, s ≠ ""
  payload : l.sawControlPayload = leaked heard

/-- The frames that a call has heard, that wait for it and that are still to come. -/
def Chan.turnFrames (c : Chan) (heard : List Delivery) (as : List Act) : List Delivery :=
  heard ++ c.queue.map (c.now,·) ++ Channel.deliveries c.now as

namespace Listening

variable {deadline gap : ℕ} {c c₁ c' : Chan} {l : Loop} {heard : List Delivery} {a : Arrival} {b : Act}

/-- How one step goes on: the call hears on, or it ends with what the frames amount to. -/
inductive Next (deadline gap : ℕ) (c : Chan) (heard : List Delivery) (b : Act) (c₁ : Chan) : Prop
  | on (l' : Loop) (heard' : List Delivery) (h : Listening deadline gap c₁ l' heard')
      (hsame : ∀ as, c₁.turnFrames heard' as = c.turnFrames heard (b :: as))
  | ended (o : Outcome) (hpc : c₁.pc = none) (ho : c₁.outcomes.getLast? = some o)
      (hacc : ∀ rest, (∀ p ∈ rest, c₁.now ≤ p.1) →
        ∃ heard' ended, Accumulated deadline gap (c.turnFrames heard [b] ++ rest) o heard' ended)

theorem chunks_isEmpty (h : Listening deadline gap c l heard) : l.chunks.isEmpty = true ↔ textOf heard = "" := by
  rw [← h.text,join_eq_empty_iff,List.isEmpty_iff]
  constructor
  · intro hnil s hs
    rw [hnil] at hs
    cases hs
  · intro hall
    cases hchunks : l.chunks with
    | nil => rfl
    | cons s ss =>
      have hs : s ∈ l.chunks := by simp [hchunks]
      exact absurd (hall s hs) (h.chunks s hs)

/-- The turn that is returned from what was heard. -/
theorem text_flush {heard' : List Delivery} {l' : Loop} (htext : String.join l'.chunks = textOf heard')
    (hpayload : l'.sawControlPayload = leaked heard') {n : ℕ} {used : List Arrival} {t : BotTurn}
    (ho : Outcome.returned l'.turn l'.used (Chan.botTurn l') = .returned n used t) :
    t.text = if leaked heard' = true ∧ textOf heard' = "" then unreadableTurnMessage else textOf heard' := by
  obtain ⟨-,-,rfl⟩ : l'.turn = n ∧ l'.used = used ∧ Chan.botTurn l' = t := by simpa using ho
  simp only [Chan.botTurn,htext,hpayload]
  by_cases he : textOf heard' = ""
  · simp [he]
  · simp [he]

theorem getLast?_finish (c : Chan) (o : Outcome) : (c.finish o).outcomes.getLast? = some o := by simp [Chan.finish]

theorem not_timesOut_returned {n : ℕ} {used : List Arrival} {t : BotTurn} :
    ¬ (Outcome.returned n used t).TimesOut := by
  rintro ⟨m,step,h⟩
  cases h

section Process

/-- The accumulators after a bot frame. -/
theorem text_accumulate (h : String.join l.chunks = textOf heard) (ha : a.frame.source = "bot") :
    String.join (c.accumulate l a).chunks = textOf (heard ++ [(c.now,a)]) := by
  rw [textOf_snoc,if_pos ha]
  by_cases hm : a.frame.msg = ""
  · simp [Chan.accumulate,hm,h]
  · simp [Chan.accumulate,hm,h]

theorem payload_accumulate (h : l.sawControlPayload = leaked heard) (ha : a.frame.source = "bot") :
    (c.accumulate l a).sawControlPayload = leaked (heard ++ [(c.now,a)]) := by
  simp [leaked_snoc,Chan.accumulate,ha,h]

/-- The next frame is read at the time of its delivery. -/
theorem next_process {q : List Arrival} (h : Listening deadline gap c l heard) (hq : c.queue = a :: q)
    (hb : ∀ as, deliveries c.now (b :: as) = deliveries c.now as) :
    Next deadline gap c heard b ({ c with queue := q }.process l a) := by
  have hfails : ¬ a.Fails := h.quiet a (by simp [hq])
  have hquiet : ∀ a' ∈ q, ¬ a'.Fails := fun a' ha' => h.quiet a' (by simp [hq,ha'])
  have hds : ∀ as, c.turnFrames heard (b :: as) =
      (heard ++ [(c.now,a)]) ++ q.map (c.now,·) ++ deliveries c.now as := by
    intro as
    simp [Chan.turnFrames,hq,hb]
  by_cases hfinal : a.Final
  · obtain ⟨hbot,hfin⟩ := hfinal
    have hproc : ({ c with queue := q } : Chan).process l a =
        ({ c with queue := q } : Chan).flush (({ c with queue := q } : Chan).accumulate l a) := by
      simp [Chan.process,hbot,hfin]
    rw [hproc]
    refine .ended _ rfl (getLast?_finish _ _) fun rest hrest => ?_
    refine ⟨heard ++ [(c.now,a)],true,?_,.inl ⟨_,_,_,rfl⟩,?_,?_⟩
    · have hcut : Cut deadline gap (heard ++ (c.now,a) :: (q.map (c.now,·) ++ rest)) (heard ++ [(c.now,a)]) true :=
        .final h.sofar h.now ⟨hbot,hfin⟩
      have hsplit : c.turnFrames heard [b] ++ rest = heard ++ (c.now,a) :: (q.map (c.now,·) ++ rest) := by
        rw [hds []]
        simp [deliveries]
      rw [hsplit]
      exact hcut
    · intro n used t ho
      exact text_flush (text_accumulate h.text hbot) (payload_accumulate h.payload hbot) ho
    · exact iff_of_false not_timesOut_returned (by simp)
  · have hon : ∀ l' : Loop, ({ c with queue := q } : Chan).process l a = { c with queue := q, pc := some (.checking l') } →
        l'.deadline = deadline → l'.idleGap = gap →
        Chan.expiry l' = moment deadline gap (heard ++ [(c.now,a)]) →
        c.now ≤ moment deadline gap (heard ++ [(c.now,a)]) →
        String.join l'.chunks = textOf (heard ++ [(c.now,a)]) → (∀ s ∈ l'.chunks, s ≠ "") →
        l'.sawControlPayload = leaked (heard ++ [(c.now,a)]) →
        Next deadline gap c heard b (({ c with queue := q } : Chan).process l a) := by
      intro l' hproc hdeadline hgap hexpiry hnow htext hchunks hpayload
      rw [hproc]
      refine .on l' (heard ++ [(c.now,a)]) ⟨rfl,h.pending,h.closed,hquiet,hdeadline,hgap,hexpiry,by rintro _ _ ⟨⟩,hnow,
        .snoc h.sofar h.now hfinal,htext,hchunks,hpayload⟩ fun as => ?_
      rw [hds as]
      rfl
    by_cases hbot : a.frame.source = "bot"
    · have hnf : a.frame.finishReason.getD "" = "" := by
        by_contra hfin
        exact hfinal ⟨hbot,hfin⟩
      have hmoment : moment deadline gap (heard ++ [(c.now,a)]) = min deadline (c.now + gap) := by
        rw [moment_snoc]
        exact if_pos hbot
      have hdeadline : c.now ≤ deadline := Nat.le_trans h.now moment_le_deadline
      refine hon (({ c with queue := q } : Chan).accumulate l a) (by simp [Chan.process,hbot,hnf]) h.deadline_eq h.gap_eq
        ?_ ?_ (text_accumulate (c := { c with queue := q }) h.text hbot) ?_
        (payload_accumulate (c := { c with queue := q }) h.payload hbot)
      · simp [Chan.expiry,Chan.accumulate,h.deadline_eq,h.gap_eq,hmoment]
      · rw [hmoment]
        omega
      · intro s hs
        by_cases hm : a.frame.msg = ""
        · exact h.chunks s (by simpa [Chan.accumulate,hm] using hs)
        · have hs' : s ∈ l.chunks ∨ s = a.frame.msg := by simpa [Chan.accumulate,hm] using hs
          rcases hs' with hs | rfl
          · exact h.chunks s hs
          · exact hm
    · have hmoment : moment deadline gap (heard ++ [(c.now,a)]) = moment deadline gap heard := by
        rw [moment_snoc]
        exact if_neg hbot
      refine hon l ?_ h.deadline_eq h.gap_eq (hmoment ▸ h.expiry) (hmoment ▸ h.now) ?_ h.chunks ?_
      · by_cases huser : a.frame.source = "user"
        · simp [Chan.process,huser]
        · have hnf : ¬ (a.frame.source = "system" ∧ a.frame.error ≠ "") := hfails
          rw [Chan.process,if_neg huser,if_neg hnf,if_pos hbot]
      · rw [textOf_snoc,h.text]
        simp [hbot]
      · rw [leaked_snoc,h.payload]
        simp [hbot]

end Process

/-- The call ends when the wait is over. -/
theorem next_over {r : SendResult} (h : Listening deadline gap c l heard) (hover : moment deadline gap heard ≤ c.now)
    {o : Outcome} (hc : c.check l = c.finish o) (hends : (∃ n used t, o = .returned n used t) ∨ o.TimesOut)
    (htext : ∀ n used t, o = .returned n used t →
      t.text = if leaked heard = true ∧ textOf heard = "" then unreadableTurnMessage else textOf heard)
    (htimes : o.TimesOut ↔ textOf heard = "" ∧ leaked heard = false) :
    Next deadline gap c heard (.go r) (c.check l) := by
  rw [hc]
  refine .ended o rfl (getLast?_finish _ _) fun rest hrest => ?_
  refine ⟨heard,false,?_,hends,htext,by simp [htimes]⟩
  have hsplit : c.turnFrames heard [.go r] ++ rest = heard ++ (c.queue.map (c.now,·) ++ rest) := by
    simp [Chan.turnFrames,deliveries]
  rw [hsplit]
  refine .moment h.sofar fun p hp => ?_
  rcases List.mem_append.mp hp with hp | hp
  · obtain ⟨a,-,rfl⟩ := List.mem_map.mp hp
    exact hover
  · exact Nat.le_trans hover (hrest p hp)

theorem next_check {r : SendResult} (h : Listening deadline gap c l heard) :
    Next deadline gap c heard (.go r) (c.check l) := by
  have hexpiry := h.expiry
  by_cases hover : Chan.expiry l ≤ c.now
  · have hmoment : moment deadline gap heard ≤ c.now := hexpiry ▸ hover
    by_cases hsome : (!l.chunks.isEmpty || l.sawControlPayload) = true
    · have hflush : c.check l = c.finish (.returned l.turn l.used (Chan.botTurn l)) := by
        simp only [Chan.check,h.closed,if_pos hover,if_pos hsome]
        rfl
      refine next_over h hmoment hflush (.inl ⟨_,_,_,rfl⟩) (fun n used t => text_flush h.text h.payload) ?_
      refine iff_of_false not_timesOut_returned ?_
      rintro ⟨htext,hleaked⟩
      have hempty := h.chunks_isEmpty.mpr htext
      simp [hempty,h.payload,hleaked] at hsome
    · have hnone : c.check l = c.finish (.raised l.turn (.mitra (.turnTimeout l.step))) := by
        simp only [Chan.check,h.closed,if_pos hover,if_neg hsome]
        rfl
      have hboth : l.chunks.isEmpty = true ∧ l.sawControlPayload = false := by simpa using hsome
      refine next_over h hmoment hnone (.inr ⟨_,_,rfl⟩) (fun n used t ho => by cases ho) ?_
      exact iff_of_true ⟨_,_,rfl⟩ ⟨h.chunks_isEmpty.mp hboth.1,h.payload ▸ hboth.2⟩
  · have hwait : c.check l = { c with pc := some (.waiting l (Chan.expiry l)) } := by
      simp [Chan.check,h.closed,hover,h.pending]
    rw [hwait]
    refine .on l heard ⟨rfl,h.pending,h.closed,h.quiet,h.deadline_eq,h.gap_eq,hexpiry,?_,h.now,h.sofar,h.text,
      h.chunks,h.payload⟩ fun as => rfl
    rintro l' e he
    obtain ⟨-,rfl⟩ : l = l' ∧ Chan.expiry l = e := by simpa using he
    exact hexpiry

theorem next_step (h : Listening deadline gap c l heard) (ha : c.Attends b) (hs : c.step b = some c₁) :
    Next deadline gap c heard b c₁ := by
  cases b with
  | tick d =>
    obtain rfl : _ = c₁ := by simpa [Chan.step] using hs
    obtain ⟨l',e,hpc,hqueue,hle⟩ := ha
    have he := h.waiting l' e hpc
    refine .on l heard ⟨h.loop,h.pending,h.closed,h.quiet,h.deadline_eq,h.gap_eq,h.expiry,h.waiting,?_,h.sofar,
      h.text,h.chunks,h.payload⟩ fun as => ?_
    · show c.now + d ≤ moment deadline gap heard
      omega
    · simp [Chan.turnFrames,hqueue,deliveries]
  | recv a =>
    simp only [Chan.step] at hs
    split at hs
    · cases hs
    obtain rfl : _ = c₁ := by simpa using hs
    have hquiet : ∀ a' ∈ c.queue ++ [a], ¬ a'.Fails := by
      intro a' ha'
      rcases List.mem_append.mp ha' with ha' | ha'
      · exact h.quiet a' ha'
      · rw [List.mem_singleton.mp ha']
        exact ha
    refine .on l heard ⟨h.loop,h.pending,h.closed,hquiet,h.deadline_eq,h.gap_eq,h.expiry,h.waiting,h.now,h.sofar,
      h.text,h.chunks,h.payload⟩ fun as => ?_
    simp [Chan.turnFrames,deliveries]
  | readerEnd reason => exact absurd ha id
  | close => exact absurd ha id
  | call text timeout g =>
    simp only [Chan.step] at hs
    split at hs
    · rename_i hpc
      have hl := h.loop
      simp [Chan.loop,hpc] at hl
    · obtain rfl : _ = c₁ := by simpa using hs
      exact .on l heard ⟨h.loop,h.pending,h.closed,h.quiet,h.deadline_eq,h.gap_eq,h.expiry,h.waiting,h.now,h.sofar,
        h.text,h.chunks,h.payload⟩ fun as => rfl
  | go r =>
    have hl := h.loop
    unfold Chan.loop at hl
    split at hl
    · rename_i l' hpc
      obtain rfl : l' = l := by simpa using hl
      obtain rfl : c.check l' = c₁ := by simpa [Chan.step,Chan.go,hpc] using hs
      exact h.next_check
    · rename_i l' e hpc
      obtain rfl : l' = l := by simpa using hl
      have hwait : c.wait l' e = some c₁ := by simpa [Chan.step,Chan.go,hpc] using hs
      unfold Chan.wait at hwait
      split at hwait
      · rename_i a q hq
        obtain rfl := Option.some.inj hwait
        exact h.next_process hq fun as => rfl
      · rename_i hq
        split at hwait
        · obtain rfl := Option.some.inj hwait
          exact .on l' heard ⟨rfl,h.pending,h.closed,h.quiet,h.deadline_eq,h.gap_eq,h.expiry,by rintro _ _ ⟨⟩,h.now,h.sofar,
            h.text,h.chunks,h.payload⟩ fun as => rfl
        · cases hwait
    · cases hl

theorem pc_isSome (h : Listening deadline gap c l heard) : ∃ p, c.pc = some p := by
  have hl := h.loop
  unfold Chan.loop at hl
  split at hl
  · exact ⟨_,‹_›⟩
  · exact ⟨_,‹_›⟩
  · cases hl

/-- The call from here to its end, where `rest` is delivered later. -/
theorem run {as : List Act} {o : Outcome} (h : Listening deadline gap c l heard) (ha : c.Attended as)
    (hr : c.runCall as = some (o,c')) {rest : List Delivery} (hrest : ∀ p ∈ rest, c'.now ≤ p.1) :
    ∃ heard' ended, Accumulated deadline gap (c.turnFrames heard as ++ rest) o heard' ended := by
  induction as generalizing c l heard with
  | nil => simp [Chan.runCall] at hr
  | cons b as ih =>
    rw [Chan.runCall] at hr
    split at hr
    · cases hr
    rename_i c₁ hs
    obtain ⟨hb,has⟩ : c.Attends b ∧ c₁.Attended as := by simpa [Chan.Attended,hs] using ha
    cases h.next_step hb hs with
    | on l' heard' h' hsame =>
      obtain ⟨p,hp⟩ := h'.pc_isSome
      simp only [hp] at hr
      rw [← hsame]
      exact ih h' has hr
    | ended o' hpc ho hacc =>
      simp only [hpc,ho] at hr
      split at hr
      · rename_i hnil
        obtain ⟨rfl,rfl⟩ : o' = o ∧ c₁ = c' := by simpa using hr
        obtain rfl : as = [] := by simpa using hnil
        exact hacc rest hrest
      · cases hr

end Listening

namespace Chan

variable {c c₁ c' : Chan} {a : Act} {as opening : List Act} {p : Pc} {o : Outcome} {l : Loop} {ds : List Delivery}

theorem runCall_on (hs : c.step a = some c₁) (hp : c₁.pc = some p) : c.runCall (a :: as) = c₁.runCall as := by
  simp [runCall,hs,hp]

theorem runCall_finish (hs : c.step a = some (c₁.finish o)) : c.runCall [a] = some (o,c₁.finish o) := by
  have hlast := Listening.getLast?_finish c₁ o
  have hpc : (c₁.finish o).pc = none := rfl
  simp [runCall,hs,hpc,hlast]

/-- What a call does after its first steps. -/
theorem runCall_of_steps {x : Outcome × Chan} (h : c.steps opening = some c₁)
    (hr : c.runCall (opening ++ a :: as) = some x) : c₁.runCall (a :: as) = some x := by
  induction opening generalizing c with
  | nil =>
    obtain rfl : c = c₁ := by simpa [steps] using h
    exact hr
  | cons b bs ih =>
    rw [steps] at h
    obtain ⟨c₂,hs,hbs⟩ := Option.bind_eq_some_iff.mp h
    rw [List.cons_append,runCall,hs] at hr
    cases hpc : c₂.pc with
    | some p =>
      simp only [hpc] at hr
      exact ih hbs hr
    | none =>
      simp only [hpc] at hr
      cases hlast : c₂.outcomes.getLast? with
      | none => simp [hlast] at hr
      | some o => simp [hlast] at hr

/-- The caller is about to test its clocks, and nothing waits for it. -/
structure Ready (c : Chan) (l : Loop) : Prop where
  pc : c.pc = some (.checking l)
  queue : c.queue = []
  pending : c.pending = none
  closed : c.closed = false
  readerDone : c.readerDone = false

/-- The call comes to an end while these frames are delivered. -/
def Answers (c : Chan) (ds : List Delivery) : Prop :=
  ∃ as o c' rest, c.Attended as ∧ c.runCall as = some (o,c') ∧ ds = deliveries c.now as ++ rest ∧
    ∀ p ∈ rest, c'.now ≤ p.1

theorem answers_finish {r : SendResult} (hs : c.step (.go r) = some (c₁.finish o))
    (hds : ∀ p ∈ ds, c₁.now ≤ p.1) : c.Answers ds :=
  ⟨[.go r],o,c₁.finish o,ds,by simp [Attended,Attends,hs],runCall_finish hs,rfl,hds⟩

theorem answers_on (ha : c.Attends a) (hs : c.step a = some c₁) (hp : c₁.pc = some p)
    (hsame : ∀ as, deliveries c.now (a :: as) = deliveries c₁.now as) (h : c₁.Answers ds) : c.Answers ds := by
  obtain ⟨as,o,c',rest,has,hr,hds,hrest⟩ := h
  exact ⟨a :: as,o,c',rest,by simpa [Attended,hs] using ⟨ha,has⟩,(runCall_on hs hp).trans hr,by rw [hsame,hds],hrest⟩

theorem answers_recv {a : Arrival} (ha : ¬ a.Fails) (hs : c.step (.recv a) = some c₁) (hp : c₁.pc = some p)
    (hnow : c₁.now = c.now) (h : c₁.Answers ds) : c.Answers ((c.now,a) :: ds) := by
  obtain ⟨as,o,c',rest,has,hr,hds,hrest⟩ := h
  refine ⟨.recv a :: as,o,c',rest,by simpa [Attended,hs] using ⟨ha,has⟩,(runCall_on hs hp).trans hr,?_,hrest⟩
  rw [hds,deliveries,hnow,List.cons_append]

theorem process_ends_or_on (a : Arrival) :
    (∃ o, c.process l a = c.finish o) ∨ ∃ l', c.process l a = { c with pc := some (.checking l') } := by
  unfold process
  split
  · exact .inr ⟨l,rfl⟩
  split
  · exact .inl ⟨_,rfl⟩
  split
  · exact .inr ⟨l,rfl⟩
  split
  · exact .inl ⟨_,rfl⟩
  · exact .inr ⟨_,rfl⟩

namespace Ready

theorem check_over (h : c.Ready l) (hover : expiry l ≤ c.now) : ∃ o, c.check l = c.finish o := by
  by_cases hsome : (!l.chunks.isEmpty || l.sawControlPayload) = true
  · exact ⟨_,by simp only [check,h.closed,if_pos hover,if_pos hsome]; rfl⟩
  · exact ⟨_,by simp only [check,h.closed,if_pos hover,if_neg hsome]; rfl⟩

/-- Once it waits, and no frame comes in time, the call ends at the moment that it waits for. -/
theorem answers_waiting (h : c.Ready l) (hover : c.now ≤ expiry l) (hds : ∀ p ∈ ds, expiry l ≤ p.1) :
    ({ c with pc := some (.waiting l (expiry l)) } : Chan).Answers ds := by
  let c₁ : Chan := { c with pc := some (.waiting l (expiry l)), now := expiry l }
  let c₂ : Chan := { c with pc := some (.checking l), now := expiry l }
  have hready : c₂.Ready l := ⟨rfl,h.queue,h.pending,h.closed,h.readerDone⟩
  obtain ⟨o,ho⟩ := hready.check_over (Nat.le_refl _)
  have hnow : c.now + (expiry l - c.now) = expiry l := by omega
  have htick : ({ c with pc := some (.waiting l (expiry l)) } : Chan).step (.tick (expiry l - c.now)) = some c₁ := by
    simp [step,c₁,hnow]
  have hwait : c₁.step (.go {}) = some c₂ := by simp [step,go,wait,c₁,c₂,h.queue]
  have hcheck : c₂.step (.go {}) = some (c₂.finish o) := by
    rw [← ho]
    rfl
  refine answers_on (p := .waiting l (expiry l)) ?_ htick rfl ?_ ?_
  · exact ⟨l,expiry l,rfl,h.queue,by show c.now + _ ≤ _; omega⟩
  · intro as
    show deliveries (c.now + (expiry l - c.now)) as = deliveries (expiry l) as
    rw [hnow]
  · exact answers_on (a := .go {}) trivial hwait rfl (fun as => rfl) (answers_finish hcheck hds)

/-- The call ends on every sequence of frames in the order of their times. -/
theorem answers (h : c.Ready l) (hsorted : ds.Pairwise (·.1 ≤ ·.1)) (hlater : ∀ p ∈ ds, c.now ≤ p.1)
    (hquiet : ∀ p ∈ ds, ¬ p.2.Fails) : c.Answers ds := by
  induction ds generalizing c l with
  | nil =>
    by_cases hover : expiry l ≤ c.now
    · obtain ⟨o,ho⟩ := h.check_over hover
      have hcheck : c.step (.go {}) = some (c.finish o) := by simp [step,go,h.pc,ho]
      exact answers_finish hcheck (by rintro _ ⟨⟩)
    · have hwait : c.step (.go {}) = some { c with pc := some (.waiting l (expiry l)) } := by
        simp [step,go,h.pc,check,h.closed,hover,h.pending]
      exact answers_on (a := .go {}) trivial hwait rfl (fun as => rfl) (h.answers_waiting (by omega) (by rintro _ ⟨⟩))
  | cons p ds ih =>
    by_cases hover : expiry l ≤ c.now
    · obtain ⟨o,ho⟩ := h.check_over hover
      have hcheck : c.step (.go {}) = some (c.finish o) := by simp [step,go,h.pc,ho]
      exact answers_finish hcheck hlater
    have hwait : c.step (.go {}) = some { c with pc := some (.waiting l (expiry l)) } := by
      simp [step,go,h.pc,check,h.closed,hover,h.pending]
    refine answers_on (a := .go {}) trivial hwait rfl (fun as => rfl) ?_
    obtain ⟨t,a⟩ := p
    obtain ⟨hle,htail⟩ := List.pairwise_cons.mp hsorted
    by_cases hin : t ≤ expiry l
    · -- the frame comes while the call waits, and is read at once
      let c₁ : Chan := { c with pc := some (.waiting l (expiry l)), now := t }
      let c₂ : Chan := { c₁ with queue := [a] }
      let c₃ : Chan := { c₁ with queue := [] }
      have ht : c.now ≤ t := hlater (t,a) (by simp)
      have hnow : c.now + (t - c.now) = t := by omega
      have ha : ¬ a.Fails := hquiet (t,a) (by simp)
      have htick : ({ c with pc := some (.waiting l (expiry l)) } : Chan).step (.tick (t - c.now)) = some c₁ := by
        simp [step,c₁,hnow]
      have hrecv : c₁.step (.recv a) = some c₂ := by simp [step,c₁,c₂,h.queue,h.readerDone,queueMax]
      have hread : c₂.step (.go {}) = some (c₃.process l a) := rfl
      refine answers_on (a := .tick (t - c.now)) (p := .waiting l (expiry l)) ⟨l,expiry l,rfl,h.queue,?_⟩ htick rfl ?_ ?_
      · show c.now + _ ≤ _
        omega
      · intro as
        show deliveries (c.now + (t - c.now)) as = deliveries t as
        rw [hnow]
      · refine answers_recv (c := c₁) ha hrecv rfl rfl ?_
        rcases process_ends_or_on (c := c₃) (l := l) a with ⟨o,ho⟩ | ⟨l',hl'⟩
        · exact answers_finish (by rw [hread,ho]) hle
        · have hgo : c₂.step (.go {}) = some { c₃ with pc := some (.checking l') } := by rw [hread,hl']
          refine answers_on (a := .go {}) (p := .checking l') trivial hgo rfl (fun as => rfl) ?_
          have hready : ({ c₃ with pc := some (.checking l') } : Chan).Ready l' :=
            ⟨rfl,rfl,h.pending,h.closed,h.readerDone⟩
          exact ih hready htail hle fun p hp => hquiet p (by simp [hp])
    · refine h.answers_waiting (by omega) fun p hp => ?_
      rcases List.mem_cons.mp hp with rfl | hp
      · show expiry l ≤ t
        omega
      · have := hle p hp
        show expiry l ≤ p.1
        omega

end Ready

section Deliver

variable (c : Chan) (text : Json) (r : SendResult)

theorem deliver_queue : (c.deliver text r).queue = c.queue := by
  unfold deliver
  split <;> rfl

theorem deliver_pending : (c.deliver text r).pending = c.pending := by
  unfold deliver
  split <;> rfl

theorem deliver_closed : (c.deliver text r).closed = c.closed := by
  unfold deliver
  split <;> rfl

theorem deliver_now : (c.deliver text r).now = c.now := by
  unfold deliver
  split <;> rfl

end Deliver

/-- An open channel that is idle drops what is left in its queue and gets to the send. -/
theorem steps_draining {text : Json} {timeout gap : ℕ} (q : List Arrival) :
    ({ c with queue := q, pc := some (.draining text timeout gap) } : Chan).steps
      (List.replicate (q.length + 1) (.go {})) =
      some { c with queue := [], pc := some (.sending text timeout gap), sent := c.sent + 1 } := by
  induction q with
  | nil => rfl
  | cons a q ih => exact ih

/-- The call goes on from where its first steps lead. -/
theorem runCall_steps {acts : List Act} {q : List Arrival} {text : Json} {timeout gap : ℕ} :
    ({ c with queue := q, pc := some (.draining text timeout gap) } : Chan).runCall
      (List.replicate (q.length + 1) (.go {}) ++ acts) =
      ({ c with queue := [], pc := some (.sending text timeout gap), sent := c.sent + 1 } : Chan).runCall acts := by
  induction q with
  | nil => rfl
  | cons a q ih => exact ih

end Chan

section Turn

variable {c : Chan} {text : Json} {timeout gap : ℕ} {ds : List Delivery}

/-- A turn of a channel that is open, and idle with no frame pushed back: on every sequence of frames there
is a schedule of the call, and on each the call accumulates the turn. -/
theorem turn_accumulates (hpc : c.pc = none) (hpending : c.pending = none) (hclosed : c.closed = false)
    (hreader : c.readerDone = false) (hsorted : ds.Pairwise (·.1 ≤ ·.1)) (hlater : ∀ p ∈ ds, c.now ≤ p.1)
    (hquiet : ∀ p ∈ ds, ¬ p.2.Fails) :
    (∃ o opening acts r c₁ c' rest, c.Takes text timeout gap ds c.now o opening acts r c₁ c' rest) ∧
      ∀ start o opening acts r c₁ c' rest, c.Takes text timeout gap ds start o opening acts r c₁ c' rest →
        ∃ heard ended, Accumulated (start + timeout) gap ds o heard ended := by
  constructor
  · let c₁ : Chan := { c with queue := [], pc := some (.sending text timeout gap), sent := c.sent + 1 }
    let l : Loop := { turn := c.sent + 1, deadline := c.now + timeout, idleGap := gap, lastRx := c.now }
    let c₂ : Chan := { c₁ with delivered := c.delivered ++ [text], pc := some (.checking l) }
    have hsend : c₁.step (.go {}) = some c₂ := rfl
    have hready : c₂.Ready l := ⟨rfl,rfl,hpending,hclosed,hreader⟩
    obtain ⟨acts,o,c',rest,hacts,hr,hds,hrest⟩ := hready.answers hsorted hlater hquiet
    refine ⟨o,List.replicate (c.queue.length + 1) (.go {}),acts,{},c₁,c',rest,Chan.steps_draining c.queue,rfl,rfl,
      hpending,hclosed,rfl,rfl,?_,?_,hds,hrest⟩
    · simpa [Chan.Attended,hsend] using ⟨trivial,hacts⟩
    · have hcall : c₁.runCall (.go {} :: acts) = some (o,c') := (Chan.runCall_on hsend rfl).trans hr
      simpa [Chan.sendAndAwaitTurn,hpc] using Chan.runCall_steps.trans hcall
  · intro start o opening acts r c₁ c' rest h
    have hcall := h.call
    simp only [Chan.sendAndAwaitTurn,hpc] at hcall
    have hrun := Chan.runCall_of_steps h.opens hcall
    let l : Loop := { turn := c₁.sent, deadline := c₁.now + timeout, idleGap := gap, lastRx := c₁.now }
    let c₂ : Chan := { c₁.deliver text r with pc := some (.checking l) }
    have hsend : c₁.step (.go r) = some c₂ := by simp [Chan.step,Chan.go,h.sending,Chan.send,h.sent,c₂,l,Chan.deliver]
    have hacts : c₂.Attended acts := by
      have h' := h.attended
      simp only [Chan.Attended,hsend] at h'
      exact h'.2
    have hr : c₂.runCall acts = some (o,c') := (Chan.runCall_on hsend rfl).symm.trans hrun
    have hqueue : c₂.queue = [] := (Chan.deliver_queue ..).trans h.queue
    have hlisten : Listening (start + timeout) gap c₂ l [] := by
      refine ⟨rfl,(Chan.deliver_pending ..).trans h.pending,(Chan.deliver_closed ..).trans h.closed,?_,
        by rw [← h.now],rfl,by rw [← h.now]; rfl,by rintro _ _ ⟨⟩,?_,.nil,rfl,by rintro _ ⟨⟩,rfl⟩
      · simp [hqueue]
      · show c₂.now ≤ start + timeout
        have hnow : c₂.now = c₁.now := Chan.deliver_now ..
        rw [hnow,h.now]
        omega
    obtain ⟨heard,ended,hacc⟩ := hlisten.run hacts hr h.later
    have hds : c₂.turnFrames [] acts = deliveries start acts := by
      have hnow : c₂.now = start := (Chan.deliver_now ..).trans h.now
      simp [Chan.turnFrames,hqueue,hnow]
    rw [hds,← h.frames] at hacc
    exact ⟨heard,ended,hacc⟩

end Turn

/-- An echo, a fragment and a payload whose gap runs out. -/
def leakedTurn : List Delivery :=
  [(1,{ frame := { source := "user", msg := "my answer" } }),
   (2,{ frame := { source := "bot", msg := "" } }),
   (4,{ frame := { source := "bot", msg := "", controlPayload := true } }),
   (9,{ frame := { source := "bot", msg := "late" } })]

theorem turn_accumulates_leaked :
    (∃ o opening acts r c₁ c' rest, ({} : Chan).Takes .null 20 3 leakedTurn 0 o opening acts r c₁ c' rest) ∧
      ∀ start o opening acts r c₁ c' rest,
        ({} : Chan).Takes .null 20 3 leakedTurn start o opening acts r c₁ c' rest →
        ∃ heard ended, Accumulated (start + 20) 3 leakedTurn o heard ended :=
  turn_accumulates rfl rfl rfl rfl (by simp [leakedTurn]) (by simp [leakedTurn])
    (by simp [leakedTurn,Arrival.Fails])

end Channel
end Saarathi
