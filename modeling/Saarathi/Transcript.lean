import Saarathi.Anchoring

/-!
# The chat transcript

The transcript the page shows is a list of items behind a reducer. A notice about
a session that ended earlier is put where that session ended.
-/

namespace Saarathi
namespace Transcript

inductive Kind where
  | user
  | agent
  | system
  | contextSwitch
  | errorRetry
  | sessionFinalizing
  | sessionComplete
  | sessionChecking
  deriving DecidableEq, Repr

structure ChatOption where
  id : String
  label : String
  value : String
  deriving DecidableEq, Repr

/-- What a caller says of an item; what it leaves out has the default. -/
structure Fields where
  content : String := ""
  html : Option String := none
  agentName : Option String := none
  timestamp : Option ℕ := none
  options : Option (List ChatOption) := none
  selectedOptionId : Option String := none
  agentSessionId : Option String := none
  readOnly : Bool := false
  reportUrl : Option String := none
  retryText : Option String := none
  sessionId : Option String := none

structure Item where
  id : String
  kind : Kind
  content : String
  html : Option String
  agentName : Option String
  timestamp : ℕ
  options : Option (List ChatOption)
  selectedOptionId : Option String
  agentSessionId : Option String
  readOnly : Bool
  reportUrl : Option String
  retryText : Option String
  sessionId : Option String
  deriving DecidableEq, Repr

/-- The id that the counter gives. -/
def nextId (seq : ℕ) : String := "item-" ++ toString seq

def makeItem (id : String) (now : ℕ) (kind : Kind) (fields : Fields) : Item where
  id := id
  kind := kind
  content := fields.content
  html := fields.html
  agentName := fields.agentName
  timestamp := fields.timestamp.getD now
  options := fields.options
  selectedOptionId := fields.selectedOptionId
  agentSessionId := fields.agentSessionId
  readOnly := fields.readOnly
  reportUrl := fields.reportUrl
  retryText := fields.retryText
  sessionId := fields.sessionId

def greetingItem (id : String) (now : ℕ) : Item :=
  makeItem id now .system {content := "Namaste. How can I help you today?"}

/-- The part of an item that is written over. -/
structure Patch where
  content : Option String := none
  reportUrl : Option String := none

def Patch.apply (p : Patch) (it : Item) : Item :=
  {it with content := p.content.getD it.content, reportUrl := p.reportUrl <|> it.reportUrl}

inductive Action where
  | append (item : Item)
  | insertAfterSession (sessionId : String) (item : Item)
  | replace (id : String) (patch : Patch)
  | remove (id : String)
  | removeKind (kind : Kind)
  | disableAllOptions
  | resetToGreeting (id : String) (now : ℕ)
  | set (items : List Item)

/-- The place of the last item that belongs to the session. -/
def lastOfSession (sessionId : String) (state : List Item) : Option ℕ :=
  (List.range state.length).reverse.find? fun i =>
    (state[i]?).any fun it => it.agentSessionId = some sessionId

def reducer (state : List Item) : Action → List Item
  | .append item => state ++ [item]
  | .insertAfterSession sessionId item => match lastOfSession sessionId state with
    | none => state ++ [item]
    | some index => state.take (index + 1) ++ item :: state.drop (index + 1)
  | .replace id patch => state.map fun it => if it.id = id then patch.apply it else it
  | .remove id => state.filter fun it => it.id ≠ id
  | .removeKind kind => state.filter fun it => it.kind ≠ kind
  | .disableAllOptions => state.map fun it =>
    if it.options.isSome then {it with readOnly := true} else it
  | .resetToGreeting id now => [greetingItem id now]
  | .set items => items

/-- The transcript, and the counter of the item ids. -/
structure Chat where
  seq : ℕ
  items : List Item

namespace Chat

def dispatch (chat : Chat) (action : Action) : Chat :=
  {chat with items := reducer chat.items action}

/-- The item that is made next. -/
def makeItem (chat : Chat) (now : ℕ) (kind : Kind) (fields : Fields) : Item :=
  Transcript.makeItem (nextId (chat.seq + 1)) now kind fields

@[simp] theorem makeItem_kind (chat : Chat) (now : ℕ) (kind : Kind) (fields : Fields) :
    (chat.makeItem now kind fields).kind = kind := rfl

def append (chat : Chat) (now : ℕ) (kind : Kind) (fields : Fields) : Item × Chat :=
  let item := chat.makeItem now kind fields
  (item,{seq := chat.seq + 1, items := reducer chat.items (.append item)})

def insertAfterSession (chat : Chat) (now : ℕ) (sessionId : String) (kind : Kind) (fields : Fields) :
    Item × Chat :=
  let item := chat.makeItem now kind {fields with agentSessionId := some sessionId}
  (item,{seq := chat.seq + 1, items := reducer chat.items (.insertAfterSession sessionId item)})

end Chat

/-- One call that puts an item into the transcript where its session ended. -/
structure Insertion where
  now : ℕ
  sessionId : String
  kind : Kind
  fields : Fields

namespace Insertion

/-- The item of a call that is given the id. -/
def item (c : Insertion) (id : String) : Item :=
  makeItem id c.now c.kind {c.fields with agentSessionId := some c.sessionId}

/-- The items of a list of calls, when the counter is at `seq`. -/
def items : ℕ → List Insertion → List Item
  | _, [] => []
  | seq, c :: calls => c.item (nextId (seq + 1)) :: items (seq + 1) calls

end Insertion

def Chat.insertAll (chat : Chat) (calls : List Insertion) : Chat :=
  calls.foldl (fun chat c => (chat.insertAfterSession c.now c.sessionId c.kind c.fields).2) chat

/-- The id was given by the counter past `seq`. -/
def Item.FreshOf (seq : ℕ) (it : Item) : Prop := ∃ n, seq < n ∧ it.id = nextId n

/-- The same item, or two that differ only in the fresh ids they were given. -/
def Item.SameUpTo (seq : ℕ) (it it' : Item) : Prop :=
  it = it' ∨ it.FreshOf seq ∧ it'.FreshOf seq ∧ {it with id := it'.id} = it'

section Notices

open Anchoring

variable {chat : Chat} {calls calls' : List Insertion} {c : Insertion} {it : Item} {seq : ℕ} {s : String}

/-- The search of the reducer is for the last item of the session. -/
theorem reducer_insertAfterSession (state : List Item) (item : Item) :
    reducer state (.insertAfterSession s item) = insertAfterLast Item.agentSessionId (some s) item state := rfl

/-- The items of the calls are what is put in. -/
theorem insertAll_eq (chat : Chat) (calls : List Insertion) : (chat.insertAll calls).items =
    (Insertion.items chat.seq calls).foldl
      (fun as a => insertAfterLast Item.agentSessionId a.agentSessionId a as) chat.items := by
  induction calls generalizing chat with
  | nil => rfl
  | cons c calls ih =>
    rw [Chat.insertAll,List.foldl_cons,← Chat.insertAll,ih]
    rfl

theorem items_sessions (seq : ℕ) (calls : List Insertion) :
    (Insertion.items seq calls).map Item.agentSessionId = calls.map fun c => some c.sessionId := by
  induction calls generalizing seq with
  | nil => rfl
  | cons c calls ih => rw [Insertion.items,List.map_cons,List.map_cons,ih]; rfl

theorem nodup_some (hd : (calls.map (·.sessionId)).Nodup) :
    (calls.map fun c => some c.sessionId).Nodup := by
  have hmap : (calls.map fun c => some c.sessionId) = (calls.map (·.sessionId)).map some := by simp
  rw [hmap]
  exact hd.map fun _ _ => Option.some.inj

theorem nodup_sessions (hd : (calls.map (·.sessionId)).Nodup) :
    ((Insertion.items seq calls).map Item.agentSessionId).Nodup := by
  rw [items_sessions]
  exact nodup_some hd

theorem exists_mem_items (seq : ℕ) (hc : c ∈ calls) : ∃ n, seq < n ∧ c.item (nextId n) ∈ Insertion.items seq calls := by
  induction calls generalizing seq with
  | nil => cases hc
  | cons c' calls ih =>
    rcases List.mem_cons.mp hc with rfl | hc
    · exact ⟨seq + 1,Nat.lt_succ_self _,List.mem_cons_self⟩
    · obtain ⟨n,hn,hmem⟩ := ih (seq + 1) hc
      exact ⟨n,Nat.lt_of_succ_lt hn,List.mem_cons_of_mem _ hmem⟩

/-- An item of the calls is one call's, with a fresh id. -/
theorem items_filter (seq : ℕ) (calls : List Insertion) (k : Option String) : List.Forall₂
    (fun (it : Item) (c : Insertion) => ∃ n, seq < n ∧ it = c.item (nextId n))
    ((Insertion.items seq calls).filter fun it => it.agentSessionId = k)
    (calls.filter fun c => some c.sessionId = k) := by
  induction calls generalizing seq with
  | nil => exact .nil
  | cons c calls ih =>
    have hrest := (ih (seq + 1)).imp fun it c ⟨n,hn,heq⟩ =>
      (⟨n,Nat.lt_of_succ_lt hn,heq⟩ : ∃ n, seq < n ∧ it = c.item (nextId n))
    rw [Insertion.items]
    have hs : (c.item (nextId (seq + 1))).agentSessionId = some c.sessionId := rfl
    by_cases hk : some c.sessionId = k
    · rw [List.filter_cons_of_pos (by simpa [hs] using hk),List.filter_cons_of_pos (by simpa using hk)]
      exact .cons ⟨seq + 1,Nat.lt_succ_self _,rfl⟩ hrest
    · rw [List.filter_cons_of_neg (by simpa [hs] using hk),List.filter_cons_of_neg (by simpa using hk)]
      exact hrest

theorem insertAll_anchored (hd : (calls.map (·.sessionId)).Nodup)
    (hin : ∀ c ∈ calls, ∃ it ∈ chat.items, it.agentSessionId = some c.sessionId) :
    (chat.insertAll calls).items =
      anchored Item.agentSessionId (Insertion.items chat.seq calls) chat.items := by
  have hmem : ∀ it ∈ Insertion.items chat.seq calls,
      ∃ j ∈ chat.items, j.agentSessionId = it.agentSessionId := by
    intro it hit
    have hs : it.agentSessionId ∈ calls.map fun c => some c.sessionId := by
      rw [← items_sessions chat.seq]
      exact List.mem_map_of_mem hit
    obtain ⟨c,hc,hs⟩ := List.mem_map.mp hs
    rw [← hs]
    exact hin c hc
  have hnodup : (([] ++ Insertion.items chat.seq calls).map Item.agentSessionId).Nodup := nodup_sessions hd
  have hrun := foldl_insertAfterLast hnodup hmem
  rwa [List.nil_append,anchored_nil,← insertAll_eq] at hrun

/-- The items that two orders of the calls make for a session differ only in their ids. -/
theorem items_sameUpTo (hp : calls.Perm calls') (hd : (calls.map (·.sessionId)).Nodup) (k : Option String) :
    List.Forall₂ (Item.SameUpTo seq)
      ((Insertion.items seq calls).filter fun it => it.agentSessionId = k)
      ((Insertion.items seq calls').filter fun it => it.agentSessionId = k) := by
  have hone : (calls.filter fun c => some c.sessionId = k) = calls'.filter fun c => some c.sessionId = k :=
    filter_eq_of_perm hp (nodup_some hd) k
  have h := items_filter seq calls k
  have h' := items_filter seq calls' k
  rw [← hone] at h'
  generalize calls.filter (fun c => some c.sessionId = k) = cs at h h'
  generalize (Insertion.items seq calls).filter (fun it => it.agentSessionId = k) = as at h
  generalize (Insertion.items seq calls').filter (fun it => it.agentSessionId = k) = as' at h'
  induction h generalizing as' with
  | nil =>
    cases h'
    exact .nil
  | cons hit _ ih =>
    cases h' with
    | cons hit' hrest =>
      obtain ⟨n,hn,rfl⟩ := hit
      obtain ⟨n',hn',rfl⟩ := hit'
      exact .cons (.inr ⟨⟨n,hn,rfl⟩,⟨n',hn',rfl⟩,rfl⟩) (ih _ hrest)

end Notices

open Anchoring in
/-- Items put in after different sessions, all of them in view, make the same transcript in every order
but for the ids they are given; each stands directly after what was the last item of its session, and
the others keep their order. -/
theorem insertions_commute (chat : Chat) (calls : List Insertion) (hd : (calls.map (·.sessionId)).Nodup)
    (hin : ∀ c ∈ calls, ∃ it ∈ chat.items, it.agentSessionId = some c.sessionId) :
    (∀ calls', calls.Perm calls' →
      List.Forall₂ (Item.SameUpTo chat.seq) (chat.insertAll calls).items (chat.insertAll calls').items) ∧
    (∀ c ∈ calls, ∃ n before last after, chat.seq < n ∧
      (chat.insertAll calls).items = before ++ last :: c.item (nextId n) :: after ∧ last ∈ chat.items ∧
      last.agentSessionId = some c.sessionId ∧ ∀ it ∈ after, it.agentSessionId ≠ some c.sessionId) ∧
    chat.items.Sublist (chat.insertAll calls).items ∧
    (chat.insertAll calls).items.Perm (chat.items ++ Insertion.items chat.seq calls) := by
  refine ⟨?_,?_,?_,?_⟩
  · intro calls' hp
    have hd' : (calls'.map (·.sessionId)).Nodup := (hp.map _).nodup_iff.mp hd
    rw [insertAll_anchored hd hin,insertAll_anchored hd' fun c hc => hin c (hp.mem_iff.mpr hc)]
    exact forall₂_anchored (fun _ => .inl rfl) (items_sameUpTo hp hd)
  · intro c hc
    obtain ⟨n,hn,hmem⟩ := exists_mem_items chat.seq hc
    obtain ⟨before,last,after,heq,hlast,hk,hafter⟩ := anchored_split (nodup_sessions hd) hmem (hin c hc)
    rw [insertAll_anchored hd hin]
    exact ⟨n,before,last,after,hn,heq,hlast,hk,hafter⟩
  · rw [insertAll_anchored hd hin]
    exact sublist_anchored _ _
  · rw [insertAll_eq]
    exact foldl_insertAfterLast_perm _ _

section Sample

/-- A turn of each of two sessions, and one of the first again. -/
def Sample.chat : Chat where
  seq := 3
  items := [makeItem "item-1" 10 .agent {content := "A", agentSessionId := some "s1"},
    makeItem "item-2" 20 .agent {content := "B", agentSessionId := some "s2"},
    makeItem "item-3" 30 .agent {content := "C", agentSessionId := some "s1"}]

def Sample.notice (sessionId : String) : Insertion where
  now := 40
  sessionId := sessionId
  kind := .sessionComplete
  fields := {content := "Done"}

end Sample

theorem insertions_commute_two : (Sample.chat.insertAll [Sample.notice "s1",Sample.notice "s2"]).items.map (·.content) =
      ["A","B","Done","C","Done"] ∧
    List.Forall₂ (Item.SameUpTo 3) (Sample.chat.insertAll [Sample.notice "s1",Sample.notice "s2"]).items
      (Sample.chat.insertAll [Sample.notice "s2",Sample.notice "s1"]).items :=
  ⟨by decide,(insertions_commute Sample.chat [Sample.notice "s1",Sample.notice "s2"] (by decide)
    (by decide)).1 _ (List.Perm.swap _ _ _)⟩

end Transcript
end Saarathi
