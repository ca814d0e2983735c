import Saarathi.Paging
import Saarathi.FrameParser
import Saarathi.Reconciling

/-!
# Mitra's record of a session

`MitraRestClient` reads the rows that Mitra keeps of a session page by page: the
first page for the completion poll, and the end of the record for a lost turn.
-/

namespace Saarathi
namespace MitraRestClient

open FrameParser Paging

/-- A row of Mitra's, as the endpoint serialises it. -/
structure CompanyChat where
  id : ℕ
  sender : Option (List (String × Json)) := none
  message : Json := .null
  translatedMessage : Json := .null
  stage : Json := .null
  status : Json := .null

/-- `status == "COMPLETED"`. -/
def CompanyChat.completed (r : CompanyChat) : Bool := match r.status with
  | .str s => s == "COMPLETED"
  | _ => false

/-- `PAGE_SIZE` of Mitra's paging, for a request without a limit. -/
def pageSize : ℕ := 100

/-- `is_session_completed`, from the answer to a request without limit and offset. -/
def isSessionCompleted (data : Page CompanyChat) : Bool := match data.results.getLast? with
  | none => false
  | some r => r.completed

section Rows

variable (b : Builtins) (profileId : String)

/-- `str(v)`. -/
def str : Json → String
  | .str s => s
  | v => b.repr v

def senderId (r : CompanyChat) : String :=
  str b ((Json.lookup (r.sender.getD []) "id").getD (.str ""))

/-- A row as `recent_chat` hands it on. -/
def chatRow (r : CompanyChat) : ChatRow where
  id := r.id
  fromUser := senderId b r == profileId
  message := str b (r.message.orElse (.str ""))
  translatedMessage := str b (r.translatedMessage.orElse (.str ""))
  stage := str b (r.stage.orElse (.str ""))

/-- `recent_chat`, from the answer to its first request and to its second one, with its limit and its
offset. -/
def recentChat (tail : ℕ) (head : Page CompanyChat) (get : ℕ → ℕ → Page CompanyChat) : List ChatRow :=
  if head.count = 0 then []
  else ((get tail (head.count - tail)).results.map (chatRow b profileId)).mergeSort fun r s => r.id ≤ s.id

end Rows

/-- The rows are in ascending order of their ids. -/
def Ascending (rows : List CompanyChat) : Prop := rows.Pairwise (·.id < ·.id)

/-- The row with the greatest id is completed. -/
def LatestCompleted (rows : List CompanyChat) : Prop :=
  ∃ r ∈ rows, (∀ s ∈ rows, s.id ≤ r.id) ∧ r.completed = true

section Completion

variable {rows : List CompanyChat}

theorem Ascending.latest_iff (h : Ascending rows) :
    LatestCompleted rows ↔ rows.getLast?.any CompanyChat.completed = true := by
  rcases List.eq_nil_or_concat rows with rfl | ⟨rows,last,rfl⟩
  · simp [LatestCompleted]
  · rw [List.concat_eq_append] at h ⊢
    have hlast : ∀ s ∈ rows, s.id < last.id := by
      intro s hs
      exact (List.pairwise_append.mp h).2.2 s hs last (List.mem_singleton_self _)
    rw [List.getLast?_concat,Option.any_some]
    constructor
    · rintro ⟨r,hr,hmax,hc⟩
      rcases List.mem_append.mp hr with hr | hr
      · have hlt := hlast r hr
        have hle := hmax last (by simp)
        omega
      · rwa [← List.mem_singleton.mp hr]
    · intro hc
      refine ⟨last,by simp,?_,hc⟩
      intro s hs
      rcases List.mem_append.mp hs with hs | hs
      · exact Nat.le_of_lt (hlast s hs)
      · rw [List.mem_singleton.mp hs]

/-- The row that the poll reads: the last of the first page. -/
theorem isSessionCompleted_eq : isSessionCompleted (page rows pageSize 0) =
    if rows.length ≤ pageSize then rows.getLast?.any CompanyChat.completed
    else rows[pageSize - 1]?.any CompanyChat.completed := by
  have hmatch : ∀ o : Option CompanyChat, (match o with | none => false | some r => r.completed) =
      o.any CompanyChat.completed := by
    intro o
    cases o <;> rfl
  rw [isSessionCompleted,hmatch,getLast?_page (by decide)]
  split <;> rfl

theorem isSessionCompleted_iff (h : Ascending rows) :
    (isSessionCompleted (page rows pageSize 0) = true ↔ LatestCompleted rows) ↔
      (rows.length ≤ pageSize ∨ (rows[pageSize - 1]?.any CompanyChat.completed = true ↔ LatestCompleted rows)) := by
  rw [isSessionCompleted_eq,h.latest_iff]
  by_cases hle : rows.length ≤ pageSize
  · simp [hle]
  · simp [hle]

end Completion

/-- A record of `n` rows, whose last is completed. -/
def record (n : ℕ) : List CompanyChat :=
  (List.range n).map fun i => { id := i + 1, status := .str (if i + 1 = n then "COMPLETED" else "IN_PROGRESS") }

theorem ascending_map_range {f : ℕ → CompanyChat} (hf : ∀ i, (f i).id = i + 1) (n : ℕ) :
    Ascending ((List.range n).map f) := by
  unfold Ascending
  rw [List.pairwise_map]
  refine (List.pairwise_lt_range (n := n)).imp ?_
  intro i j hij
  rw [hf,hf]
  omega

theorem record_ascending (n : ℕ) : Ascending (record n) := ascending_map_range (fun _ => rfl) n

/-- A record longer than a page ends with a row that the poll does not see. -/
theorem record_not_seen {n : ℕ} (h : pageSize < n) :
    isSessionCompleted (page (record n) pageSize 0) = false ∧ LatestCompleted (record n) := by
  have hlen : (record n).length = n := by simp [record]
  have hpos : 0 < n := by omega
  constructor
  · have hne : pageSize - 1 + 1 ≠ n := by
      have hsize : pageSize = 100 := rfl
      omega
    rw [isSessionCompleted_eq,hlen,if_neg (by omega)]
    have hget : (record n)[pageSize - 1]? = some { id := pageSize - 1 + 1, status := .str "IN_PROGRESS" } := by
      have hlt : pageSize - 1 < n := by omega
      simp only [record,List.getElem?_map,List.getElem?_range hlt,Option.map_some,if_neg hne]
    rw [hget]
    decide
  · have hget : (record n).getLast? = some { id := n, status := .str "COMPLETED" } := by
      have hlt : n - 1 < n := by omega
      have hn : n - 1 + 1 = n := by omega
      rw [List.getLast?_eq_getElem?,hlen]
      simp only [record,List.getElem?_map,List.getElem?_range hlt,Option.map_some,hn,if_true]
    rw [(record_ascending n).latest_iff,hget]
    rfl

/-- The poll sees the latest row exactly when the record fits in a page, or when the last row of the
first page has been completed as much as the latest one; so it can be relied on for a number of rows
exactly when that is at most a page. -/
theorem isSessionCompleted_exact {rows : List CompanyChat} (hasc : Ascending rows) :
    ((isSessionCompleted (page rows pageSize 0) = true ↔ LatestCompleted rows) ↔
      (rows.length ≤ pageSize ∨ (rows[pageSize - 1]?.any CompanyChat.completed = true ↔ LatestCompleted rows))) ∧
    ∀ n, (∀ rows, Ascending rows → rows.length = n →
      (isSessionCompleted (page rows pageSize 0) = true ↔ LatestCompleted rows)) ↔ n ≤ pageSize := by
  refine ⟨isSessionCompleted_iff hasc,fun n => ⟨?_,?_⟩⟩
  · intro h
    by_contra hlt
    obtain ⟨hpoll,hlatest⟩ := record_not_seen (n := n) (by omega)
    have hlen : (record n).length = n := by simp [record]
    rw [(h (record n) (record_ascending n) hlen).mpr hlatest] at hpoll
    cases hpoll
  · intro hle rows hasc hlen
    exact (isSessionCompleted_iff hasc).mpr (.inl (by omega))

/-- The poll sees that an interview of three rows is completed. -/
theorem isSessionCompleted_exact_short :
    isSessionCompleted (page (record 3) pageSize 0) = true ↔ LatestCompleted (record 3) :=
  (isSessionCompleted_exact (record_ascending 3)).1.mpr (.inl (by decide))

/-- An interview of 101 rows is completed, and the poll does not say so. -/
theorem isSessionCompleted_long : Ascending (record 101) ∧
    isSessionCompleted (page (record 101) pageSize 0) = false ∧ LatestCompleted (record 101) :=
  ⟨record_ascending 101,record_not_seen (by decide)⟩

section Tail

variable {b : Builtins} {profileId : String} {h : ℕ → List CompanyChat} {tail t₁ t₂ : ℕ}

theorem chatRow_ascending {rows : List CompanyChat} (hasc : Ascending rows) :
    (rows.map (chatRow b profileId)).Pairwise (·.id < ·.id) := List.pairwise_map.mpr hasc

theorem Ascending.last {rows : List CompanyChat} (hasc : Ascending rows) (k : ℕ) :
    Ascending (Paging.last k rows) := hasc.sublist (last_sublist k rows)

/-- The rows of a page need no sorting. -/
theorem mergeSort_chatRow {rows : List CompanyChat} (hasc : Ascending rows) :
    (rows.map (chatRow b profileId)).mergeSort (fun r s => r.id ≤ s.id) = rows.map (chatRow b profileId) := by
  refine List.mergeSort_of_pairwise ((chatRow_ascending hasc).imp ?_)
  intro r s hrs
  simpa using Nat.le_of_lt hrs

theorem recentChat_eq (hg : Growing h) (hasc : ∀ t, Ascending (h t)) (hle : t₁ ≤ t₂) :
    ∃ m, t₁ ≤ m ∧ m ≤ t₂ ∧ recentChat b profileId tail (page (h t₁) 1 0) (page (h t₂)) =
      (Paging.last tail (h m)).map (chatRow b profileId) := by
  by_cases hcount : (h t₁).length = 0
  · refine ⟨t₁,Nat.le_refl _,hle,?_⟩
    have hnil : h t₁ = [] := List.length_eq_zero_iff.mp hcount
    rw [recentChat,if_pos (show (page (h t₁) 1 0).count = 0 from hcount),hnil]
    simp [Paging.last]
  · obtain ⟨m,hm₁,hm₂,hm⟩ := hg.page_eq_last hle tail
    refine ⟨m,hm₁,hm₂,?_⟩
    rw [recentChat,if_neg (show ¬ (page (h t₁) 1 0).count = 0 from hcount)]
    show List.mergeSort ((page (h t₂) tail ((h t₁).length - tail)).results.map (chatRow b profileId)) _ = _
    rw [hm,mergeSort_chatRow ((hasc m).last tail)]

/-- Read while Mitra goes on recording, the tail is that of some moment from the start of the first
request to the end of the second: it has the last rows of that moment, all of them and in order. -/
theorem recentChat_tail (b : Builtins) (profileId : String) {h : ℕ → List CompanyChat} {tail : ℕ}
    (hg : Growing h) (hasc : ∀ t, Ascending (h t)) {start t₁ t₂ stop : ℕ}
    (h₁ : start ≤ t₁) (hle : t₁ ≤ t₂) (h₂ : t₂ ≤ stop) :
    ∃ m, start ≤ m ∧ m ≤ stop ∧
      recentChat b profileId tail (page (h t₁) 1 0) (page (h t₂)) =
        ((h m).drop ((h m).length - min tail (h m).length)).map (chatRow b profileId) ∧
      (recentChat b profileId tail (page (h t₁) 1 0) (page (h t₂))).length = min tail (h m).length ∧
      (recentChat b profileId tail (page (h t₁) 1 0) (page (h t₂))).Pairwise (·.id < ·.id) := by
  obtain ⟨m,hm₁,hm₂,hm⟩ := @recentChat_eq b profileId h tail t₁ t₂ hg hasc hle
  have hlast : Paging.last tail (h m) = (h m).drop ((h m).length - min tail (h m).length) := by
    rw [Paging.last]
    congr 1
    omega
  refine ⟨m,by omega,by omega,?_,?_,?_⟩
  · rw [hm,hlast]
  · rw [hm,List.length_map,length_last]
  · rw [hm]
    exact chatRow_ascending ((hasc m).last tail)

/-- A record that gains a row at every moment. -/
def numbered (n : ℕ) : List CompanyChat := (List.range n).map fun i => { id := i + 1, message := .str "Yes" }

theorem numbered_growing : Growing numbered := by
  intro t
  refine .inr ⟨{ id := t + 1, message := .str "Yes" },?_⟩
  simp only [numbered,List.range_succ,List.map_append,List.map_cons,List.map_nil]

theorem numbered_ascending (n : ℕ) : Ascending (numbered n) := ascending_map_range (fun _ => rfl) n

/-- Two rows were counted and three are there when the page is read. -/
theorem recentChat_tail_stale : ∃ m, 2 ≤ m ∧ m ≤ 3 ∧
    recentChat (knowing "" .null fun _ => none) "7" 10 (page (numbered 2) 1 0) (page (numbered 3)) =
      ((numbered m).drop ((numbered m).length - min 10 (numbered m).length)).map
        (chatRow (knowing "" .null fun _ => none) "7") ∧
    (recentChat (knowing "" .null fun _ => none) "7" 10 (page (numbered 2) 1 0) (page (numbered 3))).length =
      min 10 (numbered m).length ∧
    (recentChat (knowing "" .null fun _ => none) "7" 10 (page (numbered 2) 1 0) (page (numbered 3))).Pairwise
      (·.id < ·.id) :=
  recentChat_tail _ "7" numbered_growing numbered_ascending (Nat.le_refl 2) (by decide) (Nat.le_refl 3)

/-- The tail that a lost turn is judged by is the one that `recent_chat` reads. -/
theorem recentChat_eq_reconciling {counted paged : List CompanyChat} :
    recentChat b profileId Reconciling.tailRows (page counted 1 0) (page paged) =
      Reconciling.recentChat (counted.map (chatRow b profileId)) (paged.map (chatRow b profileId)) := by
  unfold recentChat Reconciling.recentChat Reconciling.tailOf
  rw [List.length_map]
  show (if counted.length = 0 then _ else _) = _
  split
  · rw [List.mergeSort_nil]
  · rw [← List.map_drop,← List.map_take]
    rfl

end Tail

end MitraRestClient
end Saarathi
