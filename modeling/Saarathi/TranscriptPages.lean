import Saarathi.Leftovers
import Saarathi.MessageNumbers
import Saarathi.NumberedPages
import Saarathi.Ownership

/-!
# Reading a transcript

The messages of a conversation are read in the order of their numbers, one page at
a time or all of them at once, while turns and recoveries add new ones.
-/

namespace Saarathi

open Machine Program Interleaving ReadCommitted NumberedPages

structure MessagePageDTO where
  messages : List Message
  nextSeq : Option ℕ

namespace Database

variable (db : Database) (x : Conn)

/-- `MessageRepository.list_page`. -/
def listPage (c : ConversationId) (afterSeq limit : ℕ) : MessagePageDTO :=
  let rows := ((db.transcript x c).filter fun m => afterSeq < m.new.seq).take (limit + 1)
  let hasNext := decide (limit < rows.length)
  let pageRows := rows.take limit
  { messages := pageRows
    nextSeq := if hasNext then pageRows.getLast?.map (·.new.seq) else none }

/-- `ConversationService.list_messages`. -/
def listMessages (c : ConversationId) : List Message := (db.listPage x c 0 500).messages

end Database

/-- The number of a message within its conversation. -/
def Message.seq (m : Message) : ℕ := m.new.seq

/-- A connection that serves no request, at some moment of a run. -/
structure Moment (d : Deployment) (w : World) where
  config : Config
  conn : Conn
  reached : Reach (step (system d)) anyAct (idle w) config
  free : config.procs conn = none

namespace Moment

variable {d : Deployment} {w : World} (m : Moment d w)

def Later (m m' : Moment d w) : Prop := Reach (step (system d)) anyAct m.config m'.config

/-- What a request that reads a conversation then is given. -/
def transcript (c : ConversationId) : List Message := m.config.world.db.transcript m.conn c

def listPage (c : ConversationId) (afterSeq limit : ℕ) : Page Message :=
  let page := m.config.world.db.listPage m.conn c afterSeq limit
  ⟨page.messages,page.nextSeq⟩

theorem listPage_eq (c : ConversationId) (afterSeq limit : ℕ) :
    m.listPage c afterSeq limit = pageAfter Message.seq afterSeq limit (m.transcript c) := by
  simp only [listPage,Database.listPage,pageAfter,page,transcript,Message.seq,decide_eq_true_eq]
  rfl

end Moment

section Growth

variable {d : Deployment} {adapt : Json → Option String} {db db' : Database} {x : Conn} {o : Op} {r : Except Exn o.Ans}

/-- A committed message stays as it is, where a message is written only once. -/
theorem DbMove.message_stays (h : DbMove adapt x db o r db')
    (hfresh : ∀ y k m, (db.messages.row k).dirty = some (y,m) → (db.messages.row k).committed = none) {k : ℕ} {m : Message}
    (hm : db.messages.committed k = some m) : db'.messages.committed k = some m := by
  have hrow := h.messages_alter.row k
  rw [Table.committed] at hm ⊢
  generalize db'.messages.row k = row at hrow
  cases hrow with
  | same => exact hm
  | put hl hT => exact hm
  | commit =>
    rcases Row.dirty_or x (db.messages.row k) with ⟨v,hd⟩ | hd
    · rw [hfresh x k v hd] at hm
      cases hm
    · rw [Row.commit_of_not_dirty hd]
      exact hm
  | rollback =>
    rw [Row.rollback_committed]
    exact hm

theorem reach_admissions {c c' : Interleaving.Config World Conn Op Op.Ans Exn Response}
    (h : Reach (step (system d)) anyAct c c') (n : Admissions) :
    ∃ n', Reach (step (admissions d)) anyAct (c.noted n) (c'.noted n') := by
  unfold admissions
  exact reach_noted h n

/-- Every committed message is still there later. -/
theorem MessageNumbers.messages_stay {c c' : Interleaving.Config (World × Admissions) Conn Op Op.Ans Exn Response}
    (hinv : (MessageNumbers.outline d).Inv c) (h : Reach (step (admissions d)) anyAct c c') :
    (MessageNumbers.outline d).Inv c' ∧ ∀ k m, c.world.1.db.messages.committed k = some m →
      c'.world.1.db.messages.committed k = some m := by
  induction h with
  | refl => exact ⟨hinv,fun _ _ hm => hm⟩
  | next _ hok hs ih =>
    obtain ⟨hi,hstay⟩ := ih
    have hstep := stepped_of_step hs
    refine ⟨(MessageNumbers.outline d).inv_step hi hok hstep,fun k m hm => ?_⟩
    have hold := hstay k m hm
    cases hstep with
    | start hx => exact hold
    | call hx hw =>
      obtain ⟨he,-⟩ := exec_noting hw
      exact (World.dbMove_of_exec he).message_stays hi.1.numbered.fresh hold
    | finish hx hp => exact hold
    | env hw =>
      obtain ⟨he,-⟩ := env_noting hw
      rw [(World.envFrame he).db]
      exact hold

end Growth

namespace Moment

variable {d : Deployment} {w : World} {m m' : Moment d w} {conv : ConversationId}

/-- A free connection reads what is committed. -/
theorem view_eq (hw : w.AtRest) (m : Moment d w) (k : ℕ) :
    m.config.world.db.messages.view m.conn k = m.config.world.db.messages.committed k := by
  have hrun := ((Leftovers.outline d).inv_of_reach m.reached trivial hw.idle).2 m.conn
  rw [m.free] at hrun
  exact Row.view_of_not_dirty (hrun.messages k)

theorem mem_transcript (hw : w.AtRest) (m : Moment d w) {v : Message} : v ∈ m.transcript conv ↔
    (∃ k, m.config.world.db.messages.committed k = some v) ∧ v.new.conversationId = conv := by
  rw [transcript,Database.transcript,List.mem_insertionSort,Table.mem_select]
  simp only [m.view_eq hw,decide_eq_true_eq,exists_and_right]

section Numbered

variable (hw : w.AtRest) (hconv : w.db.conversations.Settled Conversation.constraints Conversation.Keyed)
  (hnum : w.db.MessagesNumbered)

include hw hconv hnum

theorem exists_noted (m : Moment d w) : ∃ n, (MessageNumbers.outline d).Inv (m.config.noted n) := by
  obtain ⟨n,hn⟩ := reach_admissions m.reached {}
  exact ⟨n,(MessageNumbers.outline d).inv_of_reach hn (Admissions.fit_start hw hconv hnum) fun _ => ⟨rfl,rfl⟩⟩

/-- The messages of a transcript have the numbers from 1 to the conversation's count, in order. -/
theorem transcript_numbers (m : Moment d w) (conv : ConversationId) :
    (m.transcript conv).map Message.seq = List.range' 1 (m.config.world.db.messageCount conv) := by
  obtain ⟨n,hinv⟩ := m.exists_noted hw hconv hnum
  have hselect : (m.config.world.db.messages.select m.conn fun v => v.new.conversationId = conv).map Message.seq =
      m.config.world.db.seqs conv := by
    rw [Table.select,List.map_filterMap,Database.seqs]
    refine List.filterMap_congr fun k _ => ?_
    rw [m.view_eq hw]
    rcases m.config.world.db.messages.committed k with _ | v
    · rfl
    · by_cases hc : v.new.conversationId = conv <;>
        simp [Numbering.numberIn,messageNumbering,Message.seq,Option.filter,hc]
  have hperm : ((m.transcript conv).map Message.seq).Perm (List.range' 1 (m.config.world.db.messageCount conv)) := by
    refine (((List.perm_insertionSort _ _).map Message.seq).trans ?_)
    rw [hselect]
    exact hinv.1.numbered.perm conv
  have hsorted : ((m.transcript conv).map Message.seq).Pairwise (· ≤ ·) :=
    List.pairwise_map.mpr (List.pairwise_insertionSort (fun v v' : Message => v.new.seq ≤ v'.new.seq) _)
  exact hperm.eq_of_pairwise' hsorted List.pairwise_le_range'

theorem transcript_counted (m : Moment d w) (conv : ConversationId) : Counted Message.seq (m.transcript conv) := by
  have hnumbers := m.transcript_numbers hw hconv hnum conv
  have hlen := congrArg List.length hnumbers
  rw [List.length_map,List.length_range'] at hlen
  rw [Counted,hnumbers,hlen]

/-- A later transcript begins with an earlier one. -/
theorem transcript_grows (h : m.Later m') (conv : ConversationId) : m.transcript conv <+: m'.transcript conv := by
  refine (m.transcript_counted hw hconv hnum conv).prefix_of_subset (m'.transcript_counted hw hconv hnum conv) ?_
  intro v hv
  obtain ⟨⟨k,hk⟩,hc⟩ := (m.mem_transcript hw).mp hv
  obtain ⟨n,hinv⟩ := m.exists_noted hw hconv hnum
  obtain ⟨n',hn'⟩ := reach_admissions h n
  exact (m'.mem_transcript hw).mpr ⟨⟨k,(MessageNumbers.messages_stay hinv hn').2 k v hk⟩,hc⟩

end Numbered

end Moment

/-- Of a conversation that others write in at any time: its messages come in the order of their numbers,
which are those from 1 to its count; what was there stays; a page holds the messages after a number and
names the one to go on from; and a reader who goes on from page to page, each at a later moment, is given
every message once. All of them at once are the first 500. -/
theorem transcript_paged {d : Deployment} {w : World} (hw : w.AtRest)
    (hconv : w.db.conversations.Settled Conversation.constraints Conversation.Keyed) (hnum : w.db.MessagesNumbered)
    (conv : ConversationId) :
    (∀ m : Moment d w, (m.transcript conv).map Message.seq = List.range' 1 (m.config.world.db.messageCount conv)) ∧
    (∀ m m' : Moment d w, m.Later m' → m.transcript conv <+: m'.transcript conv) ∧
    (∀ m : Moment d w, m.config.world.db.listMessages m.conn conv = (m.transcript conv).take 500) ∧
    ∀ limit, 0 < limit →
      (∀ (m : Moment d w) (after : ℕ), m.listPage conv after limit = ⟨((m.transcript conv).drop after).take limit,
        if after + limit < (m.transcript conv).length then some (after + limit) else none⟩) ∧
      ∀ (m m' : Moment d w) (rows : List Message),
        ReadThrough (fun after m => m.listPage conv after limit) Moment.Later 0 m rows m' → rows = m'.transcript conv := by
  have hcounted : ∀ m : Moment d w, Counted Message.seq (m.transcript conv) := fun m =>
    m.transcript_counted hw hconv hnum conv
  have hgrows : ∀ m m' : Moment d w, m.Later m' → m.transcript conv <+: m'.transcript conv := fun m m' h =>
    Moment.transcript_grows hw hconv hnum h conv
  have hread : ∀ limit (after : ℕ) (m : Moment d w),
      m.listPage conv after limit = pageAfter Message.seq after limit (m.transcript conv) :=
    fun limit after m => m.listPage_eq conv after limit
  refine ⟨fun m => m.transcript_numbers hw hconv hnum conv,hgrows,fun m => ?_,fun limit hpos => ⟨fun m after => ?_,?_⟩⟩
  · have hall := congrArg Page.rows ((hread 500 0 m).trans ((hcounted m).pageAfter_eq (by decide) 0))
    exact hall
  · exact (hread limit after m).trans ((hcounted m).pageAfter_eq hpos after)
  · intro m m' rows h
    exact h.rows_eq (hread limit) hcounted hgrows hpos

/-- Two turns on one conversation, and pages of three messages. -/
theorem transcript_paged_threes : ∃ m : Moment Sample.deployment Sample.world,
    (m.transcript 0).map Message.seq = [1,2,3,4] ∧ (m.listPage 0 0 3).next = some 3 ∧
      (∀ m' : Moment Sample.deployment Sample.world, m.Later m' → m.transcript 0 <+: m'.transcript 0) ∧
      ∀ m' rows, ReadThrough (fun after m => Moment.listPage m 0 after 3) Moment.Later 0 m rows m' →
        rows = m'.transcript 0 := by
  have hrun : ((play (system Sample.deployment) anyAct
      [.act (.start 0 (Sample.turn "hi" "assistant" .absent)),.serve 0 Sample.smooth 60,.act (.finish 0),
        .act (.start 1 (Sample.turn "again" "assistant" (.id 0))),.serve 1 Sample.smooth 60]
      (idle Sample.world)).any fun c => (c.procs 0).isNone && decide (c.world.db.messageCount 0 = 4)) = true := by
    decide +kernel
  obtain ⟨c,hr,hP⟩ := exists_reach_of_play hrun
  obtain ⟨hnone,hcount⟩ : c.procs 0 = none ∧ c.world.db.messageCount 0 = 4 := by simpa using hP
  have hw : Sample.world.AtRest := by constructor <;> intro <;> rfl
  obtain ⟨hnumbers,hgrows,-,hpages⟩ := transcript_paged (d := Sample.deployment) hw Table.settled_empty
    (fun _ => List.Perm.refl _) 0
  let m : Moment Sample.deployment Sample.world := ⟨c,0,hr,hnone⟩
  have hseqs : (m.transcript 0).map Message.seq = [1,2,3,4] := by
    rw [hnumbers m]
    show List.range' 1 (c.world.db.messageCount 0) = _
    rw [hcount]
    rfl
  have hlen : (m.transcript 0).length = 4 := by
    rw [← List.length_map (f := Message.seq),hseqs]
    rfl
  refine ⟨m,hseqs,?_,fun m' => hgrows m m',(hpages 3 (by decide)).2 m⟩
  rw [(hpages 3 (by decide)).1 m 0,hlen]
  rfl

end Saarathi
