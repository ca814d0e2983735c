import Saarathi.MessageNumbers
import Saarathi.TitleLaw

/-!
# What was said, and the titles

Notes beside the world keep what was said in each conversation, in versions that
are committed and undone with its row, and how far each request is with its
title. Every call keeps the titles those that the notes call for.
-/

namespace Saarathi

open ReadCommitted Machine Program Program.Prog Interleaving

/-- The text that a request types, if it is a turn that the user typed. -/
def Req.typing : Req → Option Json
  | .chat (some b) _ => if b.autostart.truthy then none else b.message
  | _ => none

/-- What was said in each conversation, what each request types, how far it is with the titles, and
the conversation whose count it has raised. -/
structure Titles where
  said : ConversationId → Row Conn (List Said) := fun _ => {}
  typing : Conn → Option Json := fun _ => none
  stage : Conn → Stage := fun _ => .idle
  bumped : Conn → Option ConversationId := fun _ => none

namespace Op

/-- What a call adds to what was said: a typed text with its message, a placeholder where it is left. -/
def speaks (typing : Option Json) : (o : Op) → Except Exn o.Ans → Option (ConversationId × Said)
  | .stmt (.insertMessage m),.ok _ =>
    if m.role = .user then typing.map fun text => (m.conversationId,.typed text) else none
  | .stmt (.setPlaceholderTitle c t),.ok _ => some (c,.started t)
  | _,_ => none

def stageAfter (typing : Option Json) (stage : Stage) : (o : Op) → Except Exn o.Ans → Stage
  | .stmt (.insertMessage m),.ok _ => if m.role = .user then match typing with
      | some text => .said m.conversationId text
      | none => stage
    else stage
  | .stmt (.touch ..),.ok _ => match stage with
    | .said c text => .touched c text
    | stage => stage
  | .stmt (.replacePlaceholderTitle ..),.ok _ => match stage with
    | .touched c text => .named c text
    | stage => stage
  | .stmt _,.error _ => .idle
  | .commit,.ok _ => match stage with
    | .named c text => .named c text
    | _ => .idle
  | .commit,.error _ => .idle
  | .rollback,_ => .idle
  | _,_ => stage

def bumpedAfter (bumped : Option ConversationId) : (o : Op) → Except Exn o.Ans → Option ConversationId
  | .stmt (.nextSeqForUpdate c),.ok [_] => some c
  | .stmt _,.error _ => none
  | .commit,_ => none
  | .rollback,_ => none
  | _,_ => bumped

/-- The calls that the notes follow. -/
def titles : Op → Bool
  | .stmt (.nextSeqForUpdate _) => true
  | .stmt (.insertMessage _) => true
  | .stmt (.touch ..) => true
  | .stmt (.setPlaceholderTitle ..) => true
  | .stmt (.replacePlaceholderTitle ..) => true
  | .commit => true
  | .rollback => true
  | _ => false

end Op

namespace Titles

variable (h : Titles) (x : Conn)

/-- What `x` sees of what was said. -/
def history (x : Conn) (c : ConversationId) : List Said := ((h.said c).view x).getD []

/-- What was said and committed. -/
def committed (c : ConversationId) : List Said := (h.said c).committed.getD []

def say : Option (ConversationId × Said) → ConversationId → Row Conn (List Said)
  | some (c,e) => Function.update h.said c ((h.said c).put x (h.history x c ++ [e]))
  | none => h.said

/-- The transaction of `x` ends, or goes on, with its row versions. -/
def saidAfter (w : World) : (o : Op) → Except Exn o.Ans → ConversationId → Row Conn (List Said)
  | .stmt s,.ok a => h.say x (Op.speaks (h.typing x) (.stmt s) (.ok a))
  | .stmt _,.error _ => if w.db.tx x = .active then fun c => (h.said c).rollback x else h.said
  | .commit,.ok _ => if w.db.tx x = .active then fun c => (h.said c).commit x else fun c => (h.said c).rollback x
  | .commit,.error _ => if w.db.tx x = .active then fun c => (h.said c).rollback x else h.said
  | .rollback,_ => fun c => (h.said c).rollback x
  | _,_ => h.said

def after (w : World) (o : Op) (r : Except Exn o.Ans) : Titles where
  said := h.saidAfter x w o r
  typing := h.typing
  stage := Function.update h.stage x (o.stageAfter (h.typing x) (h.stage x) r)
  bumped := Function.update h.bumped x (o.bumpedAfter (h.bumped x) r)

/-- What `x` has said is undone. -/
def undo : Titles := { h with
  said := fun c => (h.said c).rollback x
  stage := Function.update h.stage x .idle
  bumped := Function.update h.bumped x none }

/-- What `x` has said is committed, and the request is at this stage. -/
def keep (stage : Stage) : Titles := { h with
  said := fun c => (h.said c).commit x
  stage := Function.update h.stage x stage
  bumped := Function.update h.bumped x none }

/-- A request begins. -/
def start (req : Req) : Titles := { h with
  typing := Function.update h.typing x req.typing
  stage := Function.update h.stage x .idle }

/-- Rows without which nothing was said. -/
def Known (o : Option Conversation) (m : Option (List Said)) : Prop := o = none → m = none

/-- The notes are those of this database. -/
structure Fit (adapt : Json → Option String) (db : Database) (h : Titles) : Prop where
  conversations : Conversation.Consistent db.conversations
  mirrored : ∀ k, Row.Mirrors Known (db.conversations.row k) (h.said k)
  settled : ∀ k v, db.conversations.committed k = some v → NamedBy adapt (h.committed k) v
  grown : ∀ k x u, (h.said k).dirty = some (x,u) → h.committed k <+: u
  own : ∀ x k v, (db.conversations.row k).dirty = some (x,v) → (h.stage x).Allows adapt k (h.history x k) v
  held : ∀ x c, h.bumped x = some c → ∃ v, (db.conversations.row c).dirty = some (x,v)
  mid : ∀ x c, (h.stage x).mid = some c → h.bumped x = some c
  named : ∀ x c text, h.stage x = .named c text → ((Said.typed text).words adapt).isSome = true →
    (firstWords adapt (h.history x c)).isSome = true
  stopped : ∀ x, db.tx x ≠ .active → h.stage x = .idle ∧ h.bumped x = none

end Titles

/-- All requests, with the notes of the titles. -/
def titled (d : Deployment) : Interp (World × Titles) Conn Req Choice World.EnvAct Op Op.Ans Exn Response :=
  { (system d).noting fun w x o r (h : Titles) => h.after x w o r with
    begin := fun w x req => ((system d).begin w.1 x req,w.2.start x req) }

namespace Titles

variable {adapt : Json → Option String} {db db' : Database} {h : Titles} {x y : Conn} {w : World}
variable {k c : ConversationId} {v : Conversation}

/-- What a transaction has not written it sees as it is committed. -/
theorem Fit.history_of_not_dirty (hf : Fit adapt db h) (hd : ∀ v, (db.conversations.row k).dirty ≠ some (x,v)) :
    h.history x k = h.committed k := by
  unfold history committed
  rw [Row.view_of_not_dirty ((hf.mirrored k).not_dirty hd)]

/-- Every version that `x` sees is what its stage allows. -/
theorem Fit.allows (hf : Fit adapt db h) (hv : db.conversations.view x k = some v) :
    (h.stage x).Allows adapt k (h.history x k) v := by
  rcases Row.dirty_or x (db.conversations.row k) with ⟨v',hd⟩ | hd
  · obtain rfl : v' = v := Option.some.inj ((Row.view_of_dirty hd).symm.trans hv)
    exact hf.own x k v' hd
  · have hcommitted : db.conversations.committed k = some v := (Row.view_of_not_dirty hd).symm.trans hv
    rw [hf.history_of_not_dirty hd]
    apply (Stage.allows_iff ?_).mpr (hf.settled k v hcommitted)
    intro hm
    obtain ⟨v',hv'⟩ := hf.held x k (hf.mid x k hm)
    exact hd v' hv'

/-- What is said in a conversation that `x` does not see is nothing. -/
theorem Fit.history_of_view_none (hf : Fit adapt db h) (hv : db.conversations.view x k = none) :
    h.history x k = [] := by
  have hnone : (h.said k).view x = none := (hf.mirrored k).view x hv
  simp [history,hnone]

theorem Fit.begins (hf : Fit adapt db h) (x : Conn) (k : ConversationId) : h.committed k <+: h.history x k := by
  rcases Row.dirty_or x (h.said k) with ⟨u,hd⟩ | hd
  · have hgrown := hf.grown k x u hd
    rwa [history,Row.view_of_dirty hd]
  · rw [history,Row.view_of_not_dirty hd]
    exact List.prefix_rfl

/-- `x` writes one conversation, or adds to what was said in it, or both. -/
structure Writes (adapt : Json → Option String) (x : Conn) (c : ConversationId) (db db' : Database) (h h' : Titles) :
    Prop where
  conversations : Conversation.Consistent db'.conversations
  tx : db'.tx = db.tx
  active : db.tx x = .active
  unlocked : (db.conversations.row c).lockedFor x = false
  row : db'.conversations.row c = db.conversations.row c ∨
    ∃ v, db'.conversations.row c = (db.conversations.row c).put x v
  rows : ∀ k, k ≠ c → db'.conversations.row k = db.conversations.row k
  said : h'.said c = h.said c ∨ ∃ e, h'.said c = (h.said c).put x (h.history x c ++ e)
  saids : ∀ k, k ≠ c → h'.said k = h.said k
  others : ∀ y, y ≠ x → h'.stage y = h.stage y ∧ h'.bumped y = h.bumped y
  dirty : ∃ v, (db'.conversations.row c).dirty = some (x,v)
  own : ∀ v, (db'.conversations.row c).dirty = some (x,v) → (h'.stage x).Allows adapt c (h'.history x c) v
  elsewhere : ∀ k, k ≠ c → ∀ H v, (h.stage x).Allows adapt k H v → (h'.stage x).Allows adapt k H v
  bumped : h'.bumped x = h.bumped x ∨ h'.bumped x = some c
  mid : ∀ k, (h'.stage x).mid = some k → h'.bumped x = some k
  named : ∀ k text, h'.stage x = .named k text → ((Said.typed text).words adapt).isSome = true →
    (firstWords adapt (h'.history x k)).isSome = true

namespace Writes

variable {h' : Titles}

theorem committed_eq (hw : Writes adapt x c db db' h h') (k : ConversationId) : h'.committed k = h.committed k := by
  by_cases hk : k = c
  · subst hk
    rcases hw.said with he | ⟨e,he⟩ <;> simp [committed,he]
  · rw [committed,hw.saids k hk,committed]

theorem row_committed (hw : Writes adapt x c db db' h h') (k : ConversationId) :
    db'.conversations.committed k = db.conversations.committed k := by
  by_cases hk : k = c
  · subst hk
    rcases hw.row with he | ⟨v,he⟩ <;> simp [Table.committed,he]
  · rw [Table.committed,hw.rows k hk,Table.committed]

theorem said_view_of_ne (hw : Writes adapt x c db db' h h') (hf : Fit adapt db h) (hy : y ≠ x) (k : ConversationId) :
    (h'.said k).view y = (h.said k).view y := by
  by_cases hk : k = c
  · subst hk
    rcases hw.said with he | ⟨e,he⟩
    · rw [he]
    · rw [he,Row.view_put_of_ne ((hf.mirrored k).not_lockedFor hw.unlocked) hy]
  · rw [hw.saids k hk]

theorem row_view_of_ne (hw : Writes adapt x c db db' h h') (hy : y ≠ x) (k : ConversationId) :
    (db'.conversations.row k).view y = (db.conversations.row k).view y := by
  by_cases hk : k = c
  · subst hk
    rcases hw.row with he | ⟨v,he⟩
    · rw [he]
    · rw [he,Row.view_put_of_ne hw.unlocked hy]
  · rw [hw.rows k hk]

theorem mirrored (hw : Writes adapt x c db db' h h') (hf : Fit adapt db h) (k : ConversationId) :
    Row.Mirrors Known (db'.conversations.row k) (h'.said k) := by
  by_cases hk : k = c
  · subst hk
    obtain ⟨v,hv⟩ := hw.dirty
    refine ⟨?_,fun y => ?_,fun y u hd => ?_⟩
    · have hr : (db'.conversations.row k).committed = (db.conversations.row k).committed := hw.row_committed k
      have hs : (h'.said k).committed = (h.said k).committed := by
        rcases hw.said with he | ⟨e,he⟩ <;> simp [he]
      rw [hr,hs]
      exact (hf.mirrored k).committed
    · by_cases hy : y = x
      · subst hy
        intro hnone
        rw [Row.view_of_dirty hv] at hnone
        cases hnone
      · rw [hw.row_view_of_ne hy,hw.said_view_of_ne hf hy]
        exact (hf.mirrored k).view y
    · rcases hw.said with he | ⟨e,he⟩
      · rw [he] at hd
        obtain ⟨v',hv'⟩ := (hf.mirrored k).dirty y u hd
        obtain rfl := Row.lockedFor_eq_false.mp hw.unlocked y v' hv'
        exact ⟨v,hv⟩
      · rw [he,Row.put_dirty] at hd
        obtain ⟨rfl,-⟩ := Prod.mk.inj (Option.some.inj hd)
        exact ⟨v,hv⟩
  · rw [hw.rows k hk,hw.saids k hk]
    exact hf.mirrored k

theorem fit (hw : Writes adapt x c db db' h h') (hf : Fit adapt db h) : Fit adapt db' h' where
  conversations := hw.conversations
  mirrored := hw.mirrored hf
  settled k v hv := by
    rw [hw.row_committed] at hv
    rw [hw.committed_eq]
    exact hf.settled k v hv
  grown k y u hd := by
    rw [hw.committed_eq]
    by_cases hk : k = c
    · subst hk
      rcases hw.said with he | ⟨e,he⟩
      · exact hf.grown k y u (he ▸ hd)
      · rw [he,Row.put_dirty] at hd
        obtain ⟨-,rfl⟩ := Prod.mk.inj (Option.some.inj hd)
        exact (hf.begins x k).trans (List.prefix_append ..)
    · exact hf.grown k y u (hw.saids k hk ▸ hd)
  own y k v hd := by
    by_cases hk : k = c
    · subst hk
      obtain ⟨v',hv'⟩ := hw.dirty
      obtain ⟨rfl,rfl⟩ := Prod.mk.inj (Option.some.inj (hd.symm.trans hv'))
      exact hw.own v hd
    · have hown := hf.own y k v (hw.rows k hk ▸ hd)
      have hhistory : h'.history y k = h.history y k := by rw [history,hw.saids k hk,history]
      rw [hhistory]
      by_cases hy : y = x
      · subst hy
        exact hw.elsewhere k hk _ v hown
      · rw [(hw.others y hy).1]
        exact hown
  held y c' hb := by
    have hkeep : h.bumped y = some c' → ∃ v, (db'.conversations.row c').dirty = some (y,v) := by
      intro hb
      obtain ⟨v,hv⟩ := hf.held y c' hb
      by_cases hc : c' = c
      · subst hc
        obtain rfl := Row.lockedFor_eq_false.mp hw.unlocked y v hv
        exact hw.dirty
      · exact ⟨v,by rw [hw.rows c' hc,hv]⟩
    by_cases hy : y = x
    · subst hy
      rcases hw.bumped with he | he
      · exact hkeep (he ▸ hb)
      · rw [he] at hb
        obtain rfl := Option.some.inj hb
        exact hw.dirty
    · exact hkeep ((hw.others y hy).2 ▸ hb)
  mid y c' hm := by
    by_cases hy : y = x
    · subst hy
      exact hw.mid c' hm
    · rw [(hw.others y hy).1] at hm
      rw [(hw.others y hy).2]
      exact hf.mid y c' hm
  named y c' text hs hwords := by
    by_cases hy : y = x
    · subst hy
      exact hw.named c' text hs hwords
    · rw [(hw.others y hy).1] at hs
      rw [history,hw.said_view_of_ne hf hy]
      exact hf.named y c' text hs hwords
  stopped y hy := by
    rw [hw.tx] at hy
    have hyx : y ≠ x := fun e => hy (e ▸ hw.active)
    rw [(hw.others y hyx).1,(hw.others y hyx).2]
    exact hf.stopped y hy

end Writes

variable {o : Op} {r : Except Exn o.Ans}

@[simp] theorem after_stage_self : (h.after x w o r).stage x = o.stageAfter (h.typing x) (h.stage x) r :=
  Function.update_self ..

@[simp] theorem after_bumped_self : (h.after x w o r).bumped x = o.bumpedAfter (h.bumped x) r :=
  Function.update_self ..

theorem after_of_ne (hy : y ≠ x) : (h.after x w o r).stage y = h.stage y ∧ (h.after x w o r).bumped y = h.bumped y :=
  ⟨Function.update_of_ne hy ..,Function.update_of_ne hy ..⟩

theorem after_eq (hsaid : h.saidAfter x w o r = h.said) (hstage : o.stageAfter (h.typing x) (h.stage x) r = h.stage x)
    (hbumped : o.bumpedAfter (h.bumped x) r = h.bumped x) : h.after x w o r = h := by
  unfold after
  rw [hsaid,hstage,hbumped,Function.update_eq_self,Function.update_eq_self]

/-- Nothing was said yet, and no conversation has a title. -/
theorem fit_start
    (hconv : w.db.conversations.Settled Conversation.constraints Conversation.Keyed)
    (hnew : ∀ k v, w.db.conversations.committed k = some v → v.title = none ∧ v.titleIsPlaceholder = false) :
    Fit adapt w.db {} where
  conversations := hconv.consistent
  mirrored k := ⟨fun _ => rfl,fun _ _ => rfl,fun _ _ hd => by cases hd⟩
  settled k v hv := NamedBy.nil (hnew k v hv).1 (hnew k v hv).2
  grown _ _ _ hd := by cases hd
  own x k v hd := by
    rw [hconv.clean k] at hd
    cases hd
  held _ _ hb := by cases hb
  mid _ _ hm := by cases hm
  named _ _ _ hs := by cases hs
  stopped _ _ := ⟨rfl,rfl⟩

/-- The conversations stay as they are. -/
theorem Fit.same (hf : Fit adapt db h) (hconv : ∀ k, db'.conversations.row k = db.conversations.row k)
    (hc : Conversation.Consistent db'.conversations) (htx : db'.tx = db.tx) : Fit adapt db' h where
  conversations := hc
  mirrored k := hconv k ▸ hf.mirrored k
  settled k v hv := hf.settled k v (by rwa [Table.committed,hconv] at hv)
  grown := hf.grown
  own y k v hd := hf.own y k v (hconv k ▸ hd)
  held y c hb := by
    rw [hconv]
    exact hf.held y c hb
  mid := hf.mid
  named := hf.named
  stopped y hy := hf.stopped y (htx ▸ hy)

section Ending

variable {stage : Stage}

@[simp] theorem undo_stage_self : (h.undo x).stage x = .idle := Function.update_self ..
@[simp] theorem undo_bumped_self : (h.undo x).bumped x = none := Function.update_self ..
@[simp] theorem keep_stage_self : (h.keep x stage).stage x = stage := Function.update_self ..
@[simp] theorem keep_bumped_self : (h.keep x stage).bumped x = none := Function.update_self ..

theorem undo_stage_of_ne (hy : y ≠ x) : (h.undo x).stage y = h.stage y := Function.update_of_ne hy ..
theorem undo_bumped_of_ne (hy : y ≠ x) : (h.undo x).bumped y = h.bumped y := Function.update_of_ne hy ..
theorem keep_stage_of_ne (hy : y ≠ x) : (h.keep x stage).stage y = h.stage y := Function.update_of_ne hy ..
theorem keep_bumped_of_ne (hy : y ≠ x) : (h.keep x stage).bumped y = h.bumped y := Function.update_of_ne hy ..

/-- `x` commits what it has written, with every title seen to. -/
theorem Fit.commit (hf : Fit adapt db h)
    (hmid : ∀ k v, (h.stage x).Allows adapt k (h.history x k) v → NamedBy adapt (h.history x k) v)
    (hstage : stage = .idle ∨ ∃ c text, h.stage x = .named c text ∧ stage = .named c text) :
    Fit adapt (db.commit x) (h.keep x stage) where
  conversations := hf.conversations.commit x
  mirrored k := (hf.mirrored k).commit x
  settled k v hv := by
    have hcommitted : (h.keep x stage).committed k = h.history x k := by
      change ((h.said k).commit x).committed.getD [] = _
      rw [Row.commit_committed,history]
    rw [hcommitted]
    exact hmid k v (hf.allows (by rwa [← Table.committed_commit]))
  grown k y u hd := by
    obtain ⟨hd',hy⟩ := Row.commit_dirty hd
    change ((h.said k).commit x).committed.getD [] <+: u
    rw [Row.commit_of_not_dirty (Row.not_dirty_of_ne hd' hy)]
    exact hf.grown k y u hd'
  own y k v hd := by
    obtain ⟨hd',hy⟩ := Row.commit_dirty hd
    have hx := Row.not_dirty_of_ne hd' hy
    change ((h.keep x stage).stage y).Allows adapt k ((((h.said k).commit x).view y).getD []) v
    rw [Row.commit_of_not_dirty ((hf.mirrored k).not_dirty hx),keep_stage_of_ne hy]
    exact hf.own y k v hd'
  held y c hb := by
    by_cases hy : y = x
    · subst hy
      simp at hb
    · rw [keep_bumped_of_ne hy] at hb
      obtain ⟨v,hv⟩ := hf.held y c hb
      refine ⟨v,?_⟩
      change ((db.conversations.row c).commit x).dirty = some (y,v)
      rw [Row.commit_of_not_dirty (Row.not_dirty_of_ne hv hy),hv]
  mid y c hm := by
    by_cases hy : y = x
    · subst hy
      rw [keep_stage_self] at hm
      rcases hstage with rfl | ⟨c',text,-,rfl⟩ <;> cases hm
    · rw [keep_stage_of_ne hy] at hm
      rw [keep_bumped_of_ne hy]
      exact hf.mid y c hm
  named y c text hs hwords := by
    by_cases hy : y = x
    · subst hy
      rw [keep_stage_self] at hs
      have hview : ((h.said c).commit y).view y = (h.said c).view y := Row.view_commit
      change (firstWords adapt ((((h.said c).commit y).view y).getD [])).isSome = true
      rw [hview]
      rcases hstage with rfl | ⟨c',text',hst,rfl⟩
      · cases hs
      · exact hf.named y c text (hst.trans hs) hwords
    · rw [keep_stage_of_ne hy] at hs
      have hold := hf.named y c text hs hwords
      change (firstWords adapt ((((h.said c).commit x).view y).getD [])).isSome = true
      rcases Row.view_commit_cases (r := h.said c) (x := x) y with he | ⟨u,hd,he⟩
      · rw [he]
        exact hold
      · -- what `y` saw was committed, and `x` has added to it
        have hhistory : h.history y c = h.committed c := by
          unfold history committed
          rw [Row.view_of_not_dirty (Row.not_dirty_of_ne hd (Ne.symm hy))]
        rw [hhistory] at hold
        rw [he,Option.getD_some,firstWords_of_begins (hf.grown c x u hd) hold]
        exact hold
  stopped y hy := by
    by_cases hyx : y = x
    · subst hyx
      obtain ⟨hidle,-⟩ := hf.stopped y hy
      rcases hstage with rfl | ⟨c,text,hst,-⟩
      · exact ⟨keep_stage_self,keep_bumped_self⟩
      · rw [hidle] at hst
        cases hst
    · rw [keep_stage_of_ne hyx,keep_bumped_of_ne hyx]
      exact hf.stopped y hy

/-- What `x` has written is undone. -/
theorem Fit.discard (hf : Fit adapt db h) (status : TxStatus) : Fit adapt (db.discard x status) (h.undo x) where
  conversations := hf.conversations.rollback x
  mirrored k := (hf.mirrored k).rollback x
  settled k v hv := by
    have hcommitted : (h.undo x).committed k = h.committed k := by
      change ((h.said k).rollback x).committed.getD [] = _
      rw [Row.rollback_committed,committed]
    rw [hcommitted]
    exact hf.settled k v (by rwa [← Table.committed_rollback])
  grown k y u hd := by
    obtain ⟨hd',-⟩ := Row.rollback_dirty hd
    change ((h.said k).rollback x).committed.getD [] <+: u
    rw [Row.rollback_committed]
    exact hf.grown k y u hd'
  own y k v hd := by
    obtain ⟨hd',hy⟩ := Row.rollback_dirty hd
    change ((h.undo x).stage y).Allows adapt k ((((h.said k).rollback x).view y).getD []) v
    rw [Row.view_rollback_of_ne hy,undo_stage_of_ne hy]
    exact hf.own y k v hd'
  held y c hb := by
    by_cases hy : y = x
    · subst hy
      simp at hb
    · rw [undo_bumped_of_ne hy] at hb
      obtain ⟨v,hv⟩ := hf.held y c hb
      refine ⟨v,?_⟩
      change ((db.conversations.row c).rollback x).dirty = some (y,v)
      rw [Row.rollback_of_not_dirty (Row.not_dirty_of_ne hv hy),hv]
  mid y c hm := by
    by_cases hy : y = x
    · subst hy
      rw [undo_stage_self] at hm
      cases hm
    · rw [undo_stage_of_ne hy] at hm
      rw [undo_bumped_of_ne hy]
      exact hf.mid y c hm
  named y c text hs hwords := by
    by_cases hy : y = x
    · subst hy
      simp at hs
    · rw [undo_stage_of_ne hy] at hs
      change (firstWords adapt ((((h.said c).rollback x).view y).getD [])).isSome = true
      rw [Row.view_rollback_of_ne hy]
      exact hf.named y c text hs hwords
  stopped y hy := by
    by_cases hyx : y = x
    · subst hyx
      exact ⟨undo_stage_self,undo_bumped_self⟩
    · have hy' : db.tx y ≠ .active := by
        simpa [Database.discard,Function.update_of_ne hyx] using hy
      rw [undo_stage_of_ne hyx,undo_bumped_of_ne hyx]
      exact hf.stopped y hy'

end Ending

end Titles

end Saarathi
