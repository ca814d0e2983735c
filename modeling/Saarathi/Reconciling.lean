import Saarathi.Routes

/-!
# What resuming may say about a send

Mitra's transcript grows by rows, or by messages that it merges into the last row.
Resume and the recovery of a timed-out turn judge one send of a text by the last
rows of it.
-/

namespace Saarathi
namespace Reconciling

open Program Program.Prog

/-- A row, whether it records the send that is asked about, and whether it was added after it. -/
structure Entry where
  row : ChatRow
  ours : Bool := false
  since : Bool := false

/-- Mitra adds a row, or merges a message into the last one of its sender. -/
inductive Grows (start : List Entry) : List Entry → Prop
  | start : Grows start start
  | add {h : List Entry} {e : Entry} (hg : Grows start h) (hid : ∀ e' ∈ h, e'.row.id ≤ e.row.id)
      (hsince : e.since = true) : Grows start (h ++ [e])
  | merge {h : List Entry} {e e' : Entry} (hg : Grows start (h ++ [e])) (hid : e'.row.id = e.row.id)
      (hsender : e'.row.fromUser = e.row.fromUser) (hsince : e'.since = e.since)
      (hours : e.ours = true → e'.ours = true) : Grows start (h ++ [e'])

/-- The rows that were there when the text was sent. -/
def before (rows : List ChatRow) : List Entry := rows.map ({ row := · })

/-- The default of `tail`. -/
def tailRows : ℕ := 10

/-- The last rows, by the offset that the count gives. -/
def tailOf {A : Type} (count : ℕ) (paged : List A) : List A :=
  if count = 0 then [] else (paged.drop (count - tailRows)).take tailRows

/-- `recent_chat`: it counts the rows, then asks for the last ones, and sorts them. -/
def recentChat (counted paged : List ChatRow) : List ChatRow :=
  (tailOf counted.length paged).mergeSort fun a b => a.id ≤ b.id

/-- A message of the user that reads as this text. -/
def Entry.reads (e : Entry) (text : String) : Bool := e.row.fromUser && e.row.matches text

/-- The send is in the transcript. -/
def Recorded (h : List Entry) : Prop := ∃ e ∈ h, e.ours = true

/-- Mitra has given this reply after the send. -/
def Given (h : List Entry) (text : String) : Prop :=
  ∃ e ∈ h, e.since = true ∧ e.row.fromUser = false ∧ Text.strip e.row.message = text

/-- Mitra can be asked: there are a client, a remote agent and both remote ids. -/
def Asks (d : Deployment) (agent : Option RegisteredAgent) (session : AgentSession) : Prop :=
  d.mitraEnabled = true ∧ (∃ a, agent = some a ∧ a.spec.remote ≠ none) ∧
    ∃ sid pid, session.remoteSessionId = some sid ∧ session.remoteProfileId = some pid ∧ sid ≠ "" ∧ pid ≠ ""

/-- Whatever follows the last row that reads as this text came after the send, unless the first reply of it
reads like one that did. -/
def Fresh (rows h : List Entry) (text : String) : Prop :=
  ∀ a r b, rows = a ++ r :: b → r.reads text = true → (∀ e ∈ b, e.reads text = false) →
    (∀ e ∈ b, e.row.fromUser = false → e.since = true) ∨
      ∃ e, b.find? (fun e => !e.row.fromUser) = some e ∧ Given h (Text.strip e.row.message)

/-- What is said of the send is right: that it may be sent again only where it is not recorded, and that it
was answered only with a reply given since. -/
def Right (h : List Entry) (result : OrchestrationService.ResumeResult) : Prop :=
  (result.outcome = .notDelivered → ¬ Recorded h) ∧ (result.outcome = .answered → Given h result.text)

section Transcript

variable {start h counted paged : List Entry} {text : String}

theorem Grows.ascending (hg : Grows start h) (hs : start.Pairwise (·.row.id ≤ ·.row.id)) :
    h.Pairwise (·.row.id ≤ ·.row.id) := by
  induction hg with
  | start => exact hs
  | add hg hid hsince ih =>
    refine List.pairwise_append.mpr ⟨ih,List.pairwise_singleton _ _,fun a ha b hb => ?_⟩
    rw [List.mem_singleton.mp hb]
    exact hid a ha
  | merge hg hid hsender hsince hours ih =>
    obtain ⟨hh,-,hle⟩ := List.pairwise_append.mp ih
    refine List.pairwise_append.mpr ⟨hh,List.pairwise_singleton _ _,fun a ha b hb => ?_⟩
    rw [List.mem_singleton.mp hb,hid]
    exact hle a ha _ (by simp)

theorem tailOf_map {A B : Type} (f : A → B) (n : ℕ) (l : List A) : tailOf n (l.map f) = (tailOf n l).map f := by
  unfold tailOf
  split
  · rfl
  · rw [List.map_take,List.map_drop]

theorem tailOf_sublist {A : Type} (n : ℕ) (l : List A) : (tailOf n l).Sublist l := by
  unfold tailOf
  split
  · exact List.nil_sublist l
  · exact (List.take_sublist ..).trans (List.drop_sublist ..)

/-- The rows come in the order of their ids. -/
theorem recentChat_eq (h : paged.Pairwise (·.row.id ≤ ·.row.id)) :
    recentChat (counted.map (·.row)) (paged.map (·.row)) = (tailOf counted.length paged).map (·.row) := by
  rw [recentChat,List.length_map,tailOf_map]
  apply List.mergeSort_of_pairwise
  refine List.pairwise_map.mpr ((h.sublist (tailOf_sublist ..)).imp ?_)
  intro a b hab
  simpa using hab

end Transcript

section Judged

variable {rows : List Entry} {text : String}

theorem matches_empty (r : ChatRow) : r.matches "" = false := by
  have hstrip : Text.strip "" = "" := by decide
  simp [ChatRow.matches,hstrip]

theorem any_map_row : (rows.map (·.row)).any (fun r => r.fromUser && r.matches text) = rows.any (·.reads text) := by
  rw [List.any_map]
  rfl

/-- The rows up to the last one that reads as the text, and what follows it. -/
theorem exists_last (h : rows.any (·.reads text) = true) :
    ∃ a r b, rows = a ++ r :: b ∧ r.reads text = true ∧ ∀ e ∈ b, e.reads text = false := by
  induction rows with
  | nil => simp at h
  | cons e rows ih =>
    by_cases hrest : rows.any (·.reads text) = true
    · obtain ⟨a,r,b,rfl,hr,hb⟩ := ih hrest
      exact ⟨e :: a,r,b,rfl,hr,hb⟩
    · have hnone : ∀ e ∈ rows, e.reads text = false := by simpa using hrest
      have he : e.reads text = true := by simpa [hrest] using h
      exact ⟨[],e,rows,rfl,he,hnone⟩

/-- The reply to the last row that reads as the text is the first row of Mitra's after it. -/
theorem answering_last {a b : List Entry} {r : Entry} (hr : r.reads text = true)
    (hb : ∀ e ∈ b, e.reads text = false) : answering text ((a ++ r :: b).map (·.row)) =
      (b.find? fun e => !e.row.fromUser).map (·.row) := by
  have hnone : (b.map (·.row)).any (fun r => r.fromUser && r.matches text) = false := by
    rw [any_map_row]
    simpa using hb
  induction a with
  | nil =>
    have hr' : (r.row.fromUser && r.row.matches text) = true := hr
    simp only [List.nil_append,List.map_cons,answering,hnone,hr',List.find?_map]
    rfl
  | cons e a ih =>
    have hany : ((a ++ r :: b).map (·.row)).any (fun r => r.fromUser && r.matches text) = true := by
      rw [any_map_row]
      simp [hr]
    rw [List.cons_append,List.map_cons,answering,if_pos hany,ih]

theorem notDelivered_iff {rs : List ChatRow} : (reconcile rs text).outcome = .notDelivered ↔
    rs.any (fun r => r.fromUser && r.matches text) = false := by
  rw [← lastMatch_isSome]
  unfold reconcile
  cases lastMatch rs text with
  | none => simp
  | some i =>
    simp only [Option.isSome_some]
    split <;> simp

/-- What an answer is fresh for. -/
theorem fresh_iff (h : List Entry) (hsub : ∀ e ∈ rows, e ∈ h) :
    ((reconcile (rows.map (·.row)) text).outcome = .answered →
      Given h (reconcile (rows.map (·.row)) text).botText) ↔ Fresh rows h text := by
  constructor
  · rintro hgiven a r b rfl hr hb
    have hanswer := answering_last (a := a) hr hb
    cases hfind : b.find? (fun e => !e.row.fromUser) with
    | none =>
      left
      intro e he hbot
      have hall := List.find?_eq_none.mp hfind e he
      simp [hbot] at hall
    | some e =>
      rw [hfind] at hanswer
      rw [reconcile_of_answering hanswer] at hgiven
      exact .inr ⟨e,rfl,hgiven rfl⟩
  · intro hfresh hanswered
    have hany : rows.any (·.reads text) = true := by
      by_contra hnone
      have hnot : (reconcile (rows.map (·.row)) text).outcome = .notDelivered := by
        rw [notDelivered_iff,any_map_row]
        simpa using hnone
      rw [hnot] at hanswered
      cases hanswered
    obtain ⟨a,r,b,rfl,hr,hb⟩ := exists_last hany
    have hanswer := answering_last (a := a) hr hb
    cases hfind : b.find? (fun e => !e.row.fromUser) with
    | none =>
      rw [hfind] at hanswer
      exact absurd hanswered (not_answered_of_answering hanswer)
    | some e =>
      rw [hfind] at hanswer
      rw [reconcile_of_answering hanswer]
      rcases hfresh a r b rfl hr hb with hsince | ⟨e',he',hgiven⟩
      · have hmem := List.mem_of_find?_eq_some hfind
        have hbot : e.row.fromUser = false := by simpa using List.find?_some hfind
        exact ⟨e,hsub e (by simp [hmem]),hsince e hmem hbot,hbot,rfl⟩
      · obtain rfl : e = e' := by simpa [hfind] using he'
        exact hgiven

end Judged

section Programs

variable {d : Deployment} {f : (o : Op) → Except Exn o.Ans} {session : AgentSession} {rows : List ChatRow}
  {text : String} {id : SessionId}

/-- Mitra is asked for the rows of the session's own remote ids. -/
def Answers (f : (o : Op) → Except Exn o.Ans) (session : AgentSession) (rows : List ChatRow) : Prop :=
  ∀ sid pid, session.remoteSessionId = some sid → session.remoteProfileId = some pid →
    f (.recentChat sid pid) = .ok rows

theorem reconcileTurn_answered {agent : RegisteredAgent} (hchat : Answers f session rows) :
    (Asks d (some agent) session ∧
      (OrchestrationService.reconcileTurn d agent (some session) (.str text)).answered f =
        .ok (some (reconcile rows text))) ∨
    (¬ Asks d (some agent) session ∧
      (OrchestrationService.reconcileTurn d agent (some session) (.str text)).answered f = .ok none) := by
  unfold OrchestrationService.reconcileTurn
  split
  · rename_i henabled hsome hremote
    obtain rfl := Option.some.inj hsome
    split
    · rename_i sid pid hsid hpid
      split
      · rename_i hempty
        refine .inr ⟨?_,rfl⟩
        rintro ⟨-,-,sid',pid',hsid',hpid',hne⟩
        obtain rfl : sid = sid' := by simpa [hsid] using hsid'
        obtain rfl : pid = pid' := by simpa [hpid] using hpid'
        exact hempty.elim hne.1 hne.2
      · rename_i hne
        refine .inl ⟨⟨henabled,⟨agent,rfl,by simp [hremote]⟩,sid,pid,hsid,hpid,not_or.mp hne⟩,?_⟩
        have hrows := hchat sid pid hsid hpid
        simp [RouterService.textOr,hrows]
    · rename_i hids
      refine .inr ⟨?_,rfl⟩
      rintro ⟨-,-,sid,pid,hsid,hpid,-⟩
      exact hids sid pid hsid hpid
  · rename_i hnot
    refine .inr ⟨?_,rfl⟩
    rintro ⟨henabled,⟨a,ha,hremote⟩,-⟩
    obtain rfl := Option.some.inj ha
    obtain ⟨remote,hr⟩ := Option.ne_none_iff_exists'.mp hremote
    exact hnot session remote henabled rfl hr

theorem exists_of_answered_bind {A B : Type} {p : Proc A} {g : A → Proc B} {b : B}
    (h : (p >>= g).answered f = .ok b) : ∃ a, p.answered f = .ok a ∧ (g a).answered f = .ok b := by
  rw [answered_bind] at h
  split at h
  · rename_i a ha
    exact ⟨a,ha,h⟩
  · cases h

theorem storeRecovered_answered {agent : RegisteredAgent} {res : Reconciliation}
    {result : OrchestrationService.ResumeResult}
    (h : (OrchestrationService.storeRecovered session agent res).answered f = .ok result) :
    result.outcome = .answered ∧ result.text = res.botText := by
  unfold OrchestrationService.storeRecovered at h
  obtain ⟨_,-,h⟩ := exists_of_answered_bind h
  obtain ⟨_,-,h⟩ := exists_of_answered_bind h
  obtain ⟨_,-,h⟩ := exists_of_answered_bind h
  obtain ⟨_,-,h⟩ := exists_of_answered_bind h
  obtain ⟨_,-,h⟩ := exists_of_answered_bind h
  obtain rfl := Except.ok.inj h
  exact ⟨rfl,rfl⟩

/-- What resuming says, where Mitra was asked and where it was not. -/
theorem resumeTurn_answered {registry : AgentRegistry} {result : OrchestrationService.ResumeResult}
    (hget : (SessionService.get id).answered f = .ok (some session)) (hregistry : f .snapshot = .ok registry)
    (hlast : (MessageRepository.lastUserContent session.conversationId).answered f = .ok (some text))
    (hchat : Answers f session rows)
    (hres : (OrchestrationService.resumeTurn d id).answered f = .ok (some result)) :
    (Asks d (registry.getById session.agentId) session ∧ result.outcome = (reconcile rows text).outcome ∧
      (result.outcome = .answered → result.text = (reconcile rows text).botText)) ∨
    (¬ Asks d (registry.getById session.agentId) session ∧ result.outcome = .notDelivered) := by
  unfold OrchestrationService.resumeTurn at hres
  rw [answered_bind_ok hget] at hres
  simp only at hres
  rw [answered_bind_ok (show (snapshot : Proc AgentRegistry).answered f = .ok registry from
    (answered_perform _).trans hregistry),answered_bind_ok hlast] at hres
  cases hagent : registry.getById session.agentId with
  | none =>
    simp only [hagent] at hres
    obtain rfl := Option.some.inj (Except.ok.inj hres)
    exact .inr ⟨by simp [Asks],rfl⟩
  | some agent =>
    simp only [hagent] at hres
    split at hres
    · rename_i hempty
      obtain rfl := Option.some.inj (Except.ok.inj hres)
      have hnot : (reconcile rows text).outcome = .notDelivered := by
        rw [notDelivered_iff,hempty]
        simp [matches_empty]
      by_cases hasks : Asks d (some agent) session
      · exact .inl ⟨hasks,hnot.symm,nofun⟩
      · exact .inr ⟨hasks,rfl⟩
    · rcases @reconcileTurn_answered d f session rows text agent hchat with ⟨hasks,heq⟩ | ⟨hasks,heq⟩
      · rw [answered_bind_ok heq] at hres
        simp only at hres
        split at hres
        · rename_i houtcome
          obtain ⟨r,hr,hres⟩ := exists_of_answered_bind hres
          obtain rfl := Option.some.inj (Except.ok.inj hres)
          obtain ⟨hanswered,htext⟩ := storeRecovered_answered hr
          exact .inl ⟨hasks,hanswered.trans houtcome.symm,fun _ => htext⟩
        · rename_i houtcome
          obtain rfl := Option.some.inj (Except.ok.inj hres)
          exact .inl ⟨hasks,rfl,fun h => absurd h houtcome⟩
      · rw [answered_bind_ok heq] at hres
        obtain rfl := Option.some.inj (Except.ok.inj hres)
        exact .inr ⟨hasks,rfl⟩

/-- A timed-out turn is recovered with the reply that Mitra has for it. -/
theorem recoverTimedOutTurn_answered {agent : RegisteredAgent} (hchat : Answers f session rows) :
    (Asks d (some agent) session ∧ (reconcile rows text).outcome = .answered ∧
      ∃ turn, (OrchestrationService.recoverTimedOutTurn d agent (some session) (.str text)).answered f =
        .ok (some turn) ∧ turn.text = (reconcile rows text).botText) ∨
    ((Asks d (some agent) session → (reconcile rows text).outcome ≠ .answered) ∧
      (OrchestrationService.recoverTimedOutTurn d agent (some session) (.str text)).answered f = .ok none) := by
  unfold OrchestrationService.recoverTimedOutTurn
  rcases @reconcileTurn_answered d f session rows text agent hchat with ⟨hasks,heq⟩ | ⟨hasks,heq⟩
  · obtain ⟨a,ha,hremote⟩ := hasks.2.1
    obtain rfl := Option.some.inj ha
    obtain ⟨remote,hr⟩ := Option.ne_none_iff_exists'.mp hremote
    rw [answered_bind,answered_attempt,heq]
    cases houtcome : (reconcile rows text).outcome with
    | answered =>
      refine .inl ⟨hasks,rfl,?_⟩
      simp only [houtcome,hr]
      by_cases hpoll : remote.completionPollEveryTurn = true
      · cases hf : f (.isSessionCompleted session.remoteSessionId) with
        | ok finished =>
          refine ⟨OrchestrationService.recoveredTurn remote session (reconcile rows text).botText finished,?_,rfl⟩
          simp [hpoll,hf]
        | error e =>
          refine ⟨OrchestrationService.recoveredTurn remote session (reconcile rows text).botText false,?_,rfl⟩
          simp [hpoll,hf]
          rfl
      · refine ⟨OrchestrationService.recoveredTurn remote session (reconcile rows text).botText false,?_,rfl⟩
        simp [hpoll]
        rfl
    | pending =>
      refine .inr ⟨fun _ h => (by cases h),?_⟩
      simp only [houtcome]
      rfl
    | notDelivered =>
      refine .inr ⟨fun _ h => (by cases h),?_⟩
      simp only [houtcome]
      rfl
  · refine .inr ⟨fun h => absurd h hasks,?_⟩
    rw [answered_bind,answered_attempt,heq]
    rfl

end Programs

/-- What is said of one send is right exactly where a recorded send is found among the last rows, and where
the last row that reads as its text was answered after it. -/
theorem reconciliation_right_iff {d : Deployment} {f : (o : Op) → Except Exn o.Ans} {session : AgentSession}
    {id : SessionId} {registry : AgentRegistry} {agent : RegisteredAgent} {text : String}
    {result : OrchestrationService.ResumeResult} {start : List ChatRow} {counted paged : List Entry}
    (hascending : start.Pairwise (·.id ≤ ·.id)) (hgrown : Grows (before start) paged)
    (hchat : Answers f session (recentChat (counted.map (·.row)) (paged.map (·.row))))
    (hget : (SessionService.get id).answered f = .ok (some session)) (hregistry : f .snapshot = .ok registry)
    (hlast : (MessageRepository.lastUserContent session.conversationId).answered f = .ok (some text))
    (hres : (OrchestrationService.resumeTurn d id).answered f = .ok (some result)) :
    (Right paged result ∧ ∀ turn, (OrchestrationService.recoverTimedOutTurn d agent (some session)
        (.str text)).answered f = .ok (some turn) → Given paged turn.text) ↔
    (Recorded paged → Asks d (registry.getById session.agentId) session ∧
        (tailOf counted.length paged).any (·.reads text) = true) ∧
      (Asks d (registry.getById session.agentId) session ∨ Asks d (some agent) session →
        Fresh (tailOf counted.length paged) paged text) := by
  have hstart : (before start).Pairwise (·.row.id ≤ ·.row.id) := List.pairwise_map.mpr hascending
  have hrows := @recentChat_eq counted paged (hgrown.ascending hstart)
  rw [hrows] at hchat
  have hfresh := @fresh_iff _ text paged (tailOf_sublist counted.length paged).subset
  have hseen : (reconcile ((tailOf counted.length paged).map (·.row)) text).outcome = .notDelivered ↔
      (tailOf counted.length paged).any (·.reads text) = false := by
    rw [notDelivered_iff,any_map_row]
  have hrecover : (∀ turn, (OrchestrationService.recoverTimedOutTurn d agent (some session)
      (.str text)).answered f = .ok (some turn) → Given paged turn.text) ↔
      (Asks d (some agent) session → Fresh (tailOf counted.length paged) paged text) := by
    rw [← hfresh]
    rcases @recoverTimedOutTurn_answered d f session _ text agent hchat with
      ⟨hasks,houtcome,turn,hturn,htext⟩ | ⟨hnot,hturn⟩
    · rw [← htext]
      constructor
      · intro h _ _
        exact h turn hturn
      · intro h turn' hturn'
        obtain rfl : turn = turn' := by simpa [hturn] using hturn'
        exact h hasks houtcome
    · constructor
      · intro _ hasks houtcome
        exact absurd houtcome (hnot hasks)
      · intro _ turn' hturn'
        simp [hturn] at hturn'
  have hresume : Right paged result ↔
      (Recorded paged → Asks d (registry.getById session.agentId) session ∧
        (tailOf counted.length paged).any (·.reads text) = true) ∧
      (Asks d (registry.getById session.agentId) session →
        Fresh (tailOf counted.length paged) paged text) := by
    rw [← hfresh]
    rcases resumeTurn_answered hget hregistry hlast hchat hres with ⟨hasks,houtcome,htext⟩ | ⟨hasks,houtcome⟩
    · constructor
      · rintro ⟨hnot,hgiven⟩
        refine ⟨fun hrec => ⟨hasks,?_⟩,fun _ hanswered => ?_⟩
        · by_contra hany
          exact hnot (houtcome.trans (hseen.mpr (by simpa using hany))) hrec
        · have hanswered' : result.outcome = .answered := houtcome.trans hanswered
          rw [← htext hanswered']
          exact hgiven hanswered'
      · rintro ⟨hrec,hgiven⟩
        refine ⟨fun hnot hrecorded => ?_,fun hanswered => ?_⟩
        · have hany := hseen.mp (houtcome.symm.trans hnot)
          rw [(hrec hrecorded).2] at hany
          cases hany
        · rw [htext hanswered]
          exact hgiven hasks (houtcome.symm.trans hanswered)
    · constructor
      · rintro ⟨hnot,-⟩
        exact ⟨fun hrec => absurd hrec (hnot houtcome),fun h => absurd h hasks⟩
      · rintro ⟨hrec,-⟩
        refine ⟨fun _ h => hasks (hrec h).1,fun hanswered => ?_⟩
        rw [houtcome] at hanswered
        cases hanswered
  rw [hrecover,hresume,and_assoc,or_imp]

/-- Every call goes through, and Mitra's record has these rows. -/
def oracle (session : AgentSession) (rows : List ChatRow) : (o : Op) → Except Exn o.Ans
  | .snapshot => .ok ⟨[Sample.assistant,Sample.interviewer]⟩
  | .recentChat .. => .ok rows
  | .commit => .ok ()
  | .stmt (.getSession _) => .ok [session]
  | .stmt (.lastUserContent _) => .ok ["Yes"]
  | .stmt (.updateStateAndFields ..) => .ok [session]
  | .stmt (.nextSeqForUpdate _) => .ok [3]
  | .stmt (.insertMessage _) => .ok (3 : ℕ)
  | .stmt (.touch ..) => .ok ()
  | _ => .error .rejected

/-- A session whose first turn timed out: the remote ids were not stored. -/
def firstTurn : AgentSession where
  id := 1
  conversationId := 1
  agentId := 2
  startedAt := 0
  lastActivityAt := 0

def laterTurn : AgentSession :=
  { firstTurn with state := .awaitingUser, remoteSessionId := some "remote-session", remoteProfileId := some "profile" }

/-- A question that was there before. -/
def question : ChatRow := { id := 1, fromUser := false, message := "Did it rain?" }

/-- The question, this answer to it, and the reply. -/
def answeredSince : List Entry :=
  [{ row := question },{ row := { id := 2, fromUser := true, message := "Yes" }, ours := true, since := true },
    { row := { id := 3, fromUser := false, message := "How much?" }, since := true }]

theorem grows_answeredSince : Grows (before [question]) answeredSince := by
  have h₁ : Grows (before [question]) (before [question]) := .start
  have h₂ := h₁.add (e := { row := { id := 2, fromUser := true, message := "Yes" }, ours := true, since := true })
    (by simp [before,question]) rfl
  exact h₂.add (e := { row := { id := 3, fromUser := false, message := "How much?" }, since := true })
    (by simp [before,question]) rfl

/-- What Mitra is asked for. -/
def rowsOf (h : List Entry) : List ChatRow := recentChat (h.map (·.row)) (h.map (·.row))

theorem rowsOf_answeredSince : rowsOf answeredSince = answeredSince.map (·.row) :=
  recentChat_eq (by simp [answeredSince,question])

theorem reconciliation_right_iff_answered : ∃ result, result.text = "How much?" ∧
    ((Right answeredSince result ∧ ∀ turn, (OrchestrationService.recoverTimedOutTurn Sample.deployment
        Sample.interviewer (some laterTurn) (.str "Yes")).answered (oracle laterTurn (rowsOf answeredSince)) =
          .ok (some turn) → Given answeredSince turn.text) ↔
      (Recorded answeredSince → Asks Sample.deployment (some Sample.interviewer) laterTurn ∧
          (tailOf answeredSince.length answeredSince).any (·.reads "Yes") = true) ∧
        (Asks Sample.deployment (some Sample.interviewer) laterTurn ∨
          Asks Sample.deployment (some Sample.interviewer) laterTurn →
          Fresh (tailOf answeredSince.length answeredSince) answeredSince "Yes")) := by
  let result : OrchestrationService.ResumeResult :=
    { outcome := .answered, session := laterTurn, text := "How much?" }
  have hres : (OrchestrationService.resumeTurn Sample.deployment 1).answered
      (oracle laterTurn (rowsOf answeredSince)) = .ok (some result) := by
    rw [rowsOf_answeredSince]
    rfl
  exact ⟨result,rfl,reconciliation_right_iff (by simp) grows_answeredSince (fun _ _ _ _ => rfl) rfl rfl rfl hres⟩

/-- The same answer to two questions, the second of which Mitra has not got. -/
def repeated : List Entry :=
  before [{ id := 1, fromUser := true, message := "Yes" },{ question with id := 2 }]

theorem rowsOf_repeated : rowsOf repeated = repeated.map (·.row) := recentChat_eq (by simp [repeated,before,question])

/-- A recorded first turn may be sent again, and a lost answer has the reply to an earlier one. -/
theorem resume_misjudges :
    (∃ result, (OrchestrationService.resumeTurn Sample.deployment 1).answered
        (oracle firstTurn (rowsOf answeredSince)) = .ok (some result) ∧
      Grows (before [question]) answeredSince ∧ ¬ Right answeredSince result) ∧
    ∃ result, (OrchestrationService.resumeTurn Sample.deployment 1).answered
        (oracle laterTurn (rowsOf repeated)) = .ok (some result) ∧
      Grows repeated repeated ∧ ¬ Right repeated result := by
  constructor
  · refine ⟨{ outcome := .notDelivered, session := firstTurn },rfl,grows_answeredSince,fun h => ?_⟩
    refine h.1 rfl ⟨{ row := { id := 2, fromUser := true, message := "Yes" }, ours := true, since := true },?_,rfl⟩
    simp [answeredSince]
  · refine ⟨{ outcome := .answered, session := laterTurn, text := "Did it rain?" },?_,.start,fun h => ?_⟩
    · rw [rowsOf_repeated]
      rfl
    · obtain ⟨e,he,hsince,-⟩ := h.2 rfl
      obtain ⟨row,-,rfl⟩ := List.mem_map.mp he
      cases hsince

end Reconciling
end Saarathi
