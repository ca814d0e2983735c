import Saarathi.Database
import Saarathi.Keyset

/-!
# Paging through a user's conversations

The pages of `list_for_user`, from the first one on, each asked for with the
cursor that the one before it gave.
-/

namespace Saarathi

open Keyset

/-- A page of a user's history. -/
structure ConversationPageDTO where
  conversations : List Conversation
  nextCursor : Option ℕ

namespace ConversationRepository

/-- The `WHERE` clause. -/
def listed (user : UserContext) (cursor : Option ℕ) (c : Conversation) : Bool :=
  c.belongsTo user && c.active && 0 < c.messageCount && match cursor with
    | none => true
    | some t => c.recency < t

/-- What the database may answer before the limit: the order of equals is its own. -/
def Ordered (cs : List Conversation) (user : UserContext) (cursor : Option ℕ) (rows : List Conversation) : Prop :=
  rows.Perm (cs.filter (listed user cursor)) ∧ rows.Pairwise fun c c' => c'.recency ≤ c.recency

def listForUser (ordered : List Conversation) (limit : ℕ) : ConversationPageDTO :=
  -- one more than the limit, to see if there is a next page
  let rows := ordered.take (limit + 1)
  let hasNext := decide (limit < rows.length)
  let pageRows := rows.take limit
  { conversations := pageRows
    nextCursor := if hasNext then pageRows.getLast?.map (·.recency) else none }

/-- The pages from the cursor on, by at most `fuel` requests. -/
def followPages (ordered : Option ℕ → List Conversation) (limit : ℕ) :
    ℕ → Option ℕ → Option (List ConversationPageDTO)
  | 0, _ => none
  | fuel + 1, cursor =>
    let page := listForUser (ordered cursor) limit
    match page.nextCursor with
    | none => some [page]
    | some t => (followPages ordered limit fuel (some t)).map (page :: ·)

section Pages

variable {cs : List Conversation} {user : UserContext} {limit fuel : ℕ} {cursor : Option ℕ}
  {ordered : Option ℕ → List Conversation}

theorem listForUser_eq (rows : List Conversation) (limit : ℕ) : listForUser rows limit =
    ⟨(page Conversation.recency limit rows).1,(page Conversation.recency limit rows).2⟩ := by
  have htake : (rows.take (limit + 1)).take limit = rows.take limit := by
    rw [List.take_take,Nat.min_eq_left (Nat.le_succ limit)]
  have hmore : limit < (rows.take (limit + 1)).length ↔ limit < rows.length := by
    rw [List.length_take]
    omega
  simp only [listForUser,page,htake,hmore,decide_eq_true_eq]

theorem followPages_eq (ordered : Option ℕ → List Conversation) (limit fuel : ℕ) (cursor : Option ℕ) :
    (followPages ordered limit fuel cursor).map (·.map (·.conversations)) =
      follow Conversation.recency ordered limit fuel cursor := by
  induction fuel generalizing cursor with
  | zero => rfl
  | succ fuel ih =>
    rw [followPages,follow]
    simp only [listForUser_eq]
    cases (page Conversation.recency limit (ordered cursor)).2 with
    | none => rfl
    | some t =>
      simp only [← ih]
      cases followPages ordered limit fuel (some t) <;> rfl

theorem answers_of_ordered (h : ∀ cursor, Ordered cs user cursor (ordered cursor)) :
    Answers Conversation.recency (cs.filter (listed user none)) ordered := by
  intro cursor
  refine ⟨(h cursor).1.trans ?_,(h cursor).2⟩
  rw [after,List.filter_filter]
  refine List.Perm.of_eq (List.filter_congr fun c _ => ?_)
  cases cursor with
  | none => simp [listed]
  | some t => simp [listed,Bool.and_comm]

end Pages

/-- The pages end, and they list the user's conversations in non-increasing recency and none twice; they
list every one exactly where no page boundary falls between conversations of equal recency. -/
theorem conversations_paged_iff (cs : List Conversation) (user : UserContext) (limit : ℕ) (hpos : 1 ≤ limit)
    (ordered : Option ℕ → List Conversation) (h : ∀ cursor, Ordered cs user cursor (ordered cursor)) :
    ∃ pages, followPages ordered limit ((cs.filter (listed user none)).length + 1) none = some pages ∧
      (pages.flatMap (·.conversations)).Subperm (cs.filter (listed user none)) ∧
      ((pages.flatMap (·.conversations)).Pairwise fun c c' => c'.recency ≤ c.recency) ∧
      ((pages.flatMap (·.conversations)).Perm (cs.filter (listed user none)) ↔
        Cut limit (keys Conversation.recency (cs.filter (listed user none)))) := by
  have hanswers := answers_of_ordered h
  have hp := (h none).1
  obtain ⟨rows,hfollow,hsub,hdesc,hall⟩ := follow_spec hanswers hpos
    (Nat.lt_succ_of_le (le_of_eq hp.length_eq))
  rw [← followPages_eq,Option.map_eq_some_iff] at hfollow
  obtain ⟨pages,hpages,rfl⟩ := hfollow
  rw [← List.flatMap_def] at hsub hdesc hall
  refine ⟨pages,hpages,hsub.trans hp.subperm,hdesc,?_⟩
  rw [← Descending.map_eq_keys (h none).2 hp,← hall]
  exact ⟨fun h => h.trans hp.symm,fun h => h.trans hp⟩

namespace Sample

def user : UserContext := {userId := "u", tenantCode := "t"}

/-- Two conversations that became active at the same moment; a turn of the second one failed. -/
def tied : List Conversation :=
  [{id := 1, tenantCode := "t", externalUserId := "u", messageCount := 2, lastMessageAt := some 10, createdAt := 5},
    {id := 2, tenantCode := "t", externalUserId := "u", messageCount := 1, createdAt := 10}]

def answers (cursor : Option ℕ) : List Conversation := tied.filter (listed user cursor)

theorem ordered_answers (cursor : Option ℕ) : Ordered tied user cursor (answers cursor) := by
  refine ⟨List.Perm.refl _,?_⟩
  have hp : tied.Pairwise fun c c' => c'.recency ≤ c.recency := by decide
  exact hp.sublist List.filter_sublist

end Sample

theorem conversations_paged_sample :
    ∃ pages, followPages Sample.answers 2 3 none = some pages ∧
      (pages.flatMap (·.conversations)).Perm (Sample.tied.filter (listed Sample.user none)) := by
  obtain ⟨pages,hpages,-,-,hall⟩ := conversations_paged_iff Sample.tied Sample.user 2 (by decide) Sample.answers
    Sample.ordered_answers
  refine ⟨pages,hpages,hall.mpr ?_⟩
  rw [← Descending.map_eq_keys (Sample.ordered_answers none).2 (Sample.ordered_answers none).1]
  exact Cut.of_length (by decide)

/-- With a limit of 1 the second of the two is never listed. -/
theorem conversations_paged_tied :
    (∀ cursor, Ordered Sample.tied Sample.user cursor (Sample.answers cursor)) ∧
      ∃ pages, followPages Sample.answers 1 3 none = some pages ∧
        pages.flatMap (·.conversations) = Sample.tied.take 1 ∧
        ¬(pages.flatMap (·.conversations)).Perm (Sample.tied.filter (listed Sample.user none)) := by
  refine ⟨Sample.ordered_answers,[⟨Sample.tied.take 1,some 10⟩,⟨[],none⟩],rfl,rfl,?_⟩
  intro hp
  have hlen := hp.length_eq
  revert hlen
  decide

end ConversationRepository

end Saarathi
