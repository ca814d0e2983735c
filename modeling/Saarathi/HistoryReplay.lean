import Saarathi.TranscriptMoves

/-!
# Replaying a conversation

The transcript of a conversation that is opened is made from its messages; the notices
of the sessions that were completed are not stored and are made anew.
-/

namespace Saarathi

open Transcript Anchoring SessionLifecycle

variable {renderAgentHtml : String → String} {history : History} {now : ℕ}

/-- The notice of a completed session. -/
def History.notice (history : History) (refs : Refs) (now : ℕ) (s : SessionPayload) : Insertion where
  now := now
  sessionId := s.id
  kind := .sessionComplete
  fields := {
    content := if truthy s.reportUrl then (copyFor refs s).ready else (copyFor refs s).checking
    agentName := if truthy (history.agentNameOf s.id) then history.agentNameOf s.id else refs.lastAgent
    agentSessionId := some s.id
    reportUrl := if truthy s.reportUrl then s.reportUrl else none }

namespace SessionLifecycle

/-- Where no session is being finalized, the notice is put in after what the session's last item is. -/
theorem renderCompleted_notice (history : History) (now : ℕ) {hook : Page} {s : SessionPayload} (hid : s.id ≠ "")
    (hno : ∀ it ∈ hook.chat.items, it.kind ≠ .sessionFinalizing) :
    (hook.renderCompleted now s (history.agentNameOf s.id) (some s.id)).chat =
      hook.chat.insertAll [history.notice hook.refs now s] ∧
    (hook.renderCompleted now s (history.agentNameOf s.id) (some s.id)).refs = hook.refs := by
  have hkept : hook.dispatch (.removeKind .sessionFinalizing) = hook := by
    have hitems : hook.chat.items.filter (fun it => it.kind ≠ .sessionFinalizing) = hook.chat.items :=
      List.filter_eq_self.mpr fun it hit => by simpa using hno it hit
    unfold Page.dispatch Chat.dispatch reducer
    dsimp only
    rw [hitems]
  unfold Page.renderCompleted
  dsimp only
  rw [hkept]
  unfold Chat.insertAll History.notice
  by_cases hurl : truthy s.reportUrl
  · rw [if_pos hurl,if_neg hid,List.foldl_cons,List.foldl_nil,if_pos hurl,if_pos hurl]
    exact ⟨rfl,rfl⟩
  · rw [if_neg hurl,if_neg hid,List.foldl_cons,List.foldl_nil,if_neg hurl,if_neg hurl]
    exact ⟨rfl,rfl⟩

end SessionLifecycle

namespace Transcript

theorem insertAll_perm (chat : Chat) (calls : List Insertion) :
    (chat.insertAll calls).items.Perm (chat.items ++ Insertion.items chat.seq calls) := by
  rw [insertAll_eq]
  exact foldl_insertAfterLast_perm _ _

theorem insertAll_append (chat : Chat) (calls calls' : List Insertion) :
    chat.insertAll (calls ++ calls') = (chat.insertAll calls).insertAll calls' := List.foldl_append

theorem mem_insertions {calls : List Insertion} {seq : ℕ} {it : Item} (h : it ∈ Insertion.items seq calls) :
    ∃ c ∈ calls, ∃ n, it = c.item (nextId n) := by
  induction calls generalizing seq with
  | nil => cases h
  | cons c calls ih =>
    rcases List.mem_cons.mp h with rfl | h
    · exact ⟨c,List.mem_cons_self,_,rfl⟩
    · obtain ⟨c',hc',hn⟩ := ih h
      exact ⟨c',List.mem_cons_of_mem _ hc',hn⟩

theorem length_insertions (seq : ℕ) (calls : List Insertion) : (Insertion.items seq calls).length = calls.length := by
  induction calls generalizing seq with
  | nil => rfl
  | cons c calls ih => rw [Insertion.items,List.length_cons,List.length_cons,ih]

end Transcript

namespace History

/-- The notices of all completed sessions. -/
theorem notices_inserted (sessions : List SessionPayload) (hook : Page) (hids : ∀ s ∈ sessions, s.id ≠ "")
    (hno : ∀ it ∈ hook.chat.items, it.kind ≠ .sessionFinalizing) :
    (sessions.foldl (fun hook s => hook.renderCompleted now s (history.agentNameOf s.id) (some s.id)) hook).chat =
      hook.chat.insertAll (sessions.map (history.notice hook.refs now)) := by
  induction sessions generalizing hook with
  | nil => rfl
  | cons s sessions ih =>
    obtain ⟨hchat,hrefs⟩ := renderCompleted_notice history now (hids s List.mem_cons_self) hno
    rw [List.foldl_cons,ih _ (fun s' hs' => hids s' (List.mem_cons_of_mem _ hs')),hchat,hrefs,List.map_cons]
    · exact (insertAll_append hook.chat [history.notice hook.refs now s] _).symm
    · rw [hchat]
      intro it hit
      rcases List.mem_append.mp ((insertAll_perm _ _).mem_iff.mp hit) with hit | hit
      · exact hno it hit
      · obtain ⟨c,hc,n,rfl⟩ := mem_insertions hit
        obtain rfl := List.mem_singleton.mp hc
        exact (by decide : Kind.sessionComplete ≠ .sessionFinalizing)

/-- What an item shows of a message. -/
theorem items_show (history : History) (renderAgentHtml : String → String) (now seq : ℕ) :
    (history.items renderAgentHtml now seq).map (fun it => (it.kind,it.content,it.agentName,it.agentSessionId,it.timestamp)) =
      history.messages.map fun m => (m.kind,m.content,m.agentName,m.agentSessionId,m.createdAt) := by
  unfold items
  generalize history.messages = messages
  induction messages generalizing seq with
  | nil => rfl
  | cons m messages ih => exact congrArg _ (ih (seq + 1))

theorem mem_items {seq : ℕ} {it : Item} (h : it ∈ history.items renderAgentHtml now seq) :
    (it.kind = .user ∨ it.kind = .agent) ∧ ChatPage.live it = false := by
  obtain ⟨k,-,-,f,hf,rfl⟩ := mem_makeItems h
  obtain ⟨m,-,rfl⟩ := List.mem_map.mp hf
  constructor
  · change m.kind = .user ∨ m.kind = .agent
    unfold StoredMessage.kind
    split
    · exact .inr rfl
    · exact .inl rfl
  · simp [ChatPage.live,makeItem,StoredMessage.fields]

/-- The session of a message has an item in view. -/
theorem exists_item {seq : ℕ} {m : StoredMessage} (h : m ∈ history.messages) :
    ∃ it ∈ history.items renderAgentHtml now seq, it.agentSessionId = m.agentSessionId := by
  have hshow := items_show history renderAgentHtml now seq
  have hmem : (m.kind,m.content,m.agentName,m.agentSessionId,m.createdAt) ∈ (history.items renderAgentHtml now seq).map
      (fun it => (it.kind,it.content,it.agentName,it.agentSessionId,it.timestamp)) := by
    rw [hshow]
    exact List.mem_map_of_mem h
  obtain ⟨it,hit,heq⟩ := List.mem_map.mp hmem
  exact ⟨it,hit,congrArg (fun p => p.2.2.2.1) heq⟩

/-- The transcript with the notices in it. -/
structure Shows (history : History) (base shown : List Item) : Prop where
  messages : (shown.filter fun it => it.kind ≠ .sessionComplete) = base
  notices : (shown.countP fun it => it.kind = .sessionComplete) = history.completed.length
  places : ∀ s ∈ history.completed, ∃ before last note after, shown = before ++ last :: note :: after ∧
    note.kind = .sessionComplete ∧ note.agentSessionId = some s.id ∧ last ∈ base ∧
    last.agentSessionId = some s.id ∧ ∀ it ∈ after, it.agentSessionId ≠ some s.id
  settled : shown.countP ChatPage.live = 0

theorem shows_anchored (refs : Refs) (seq : ℕ) (hd : (history.completed.map (·.id)).Nodup)
    (hin : ∀ s ∈ history.completed, ∃ m ∈ history.messages, m.agentSessionId = some s.id) :
    history.Shows (history.items renderAgentHtml now seq) (({
      seq := seq + history.messages.length
      items := history.items renderAgentHtml now seq } : Chat).insertAll
        (history.completed.map (history.notice refs now))).items := by
  let chat : Chat := { seq := seq + history.messages.length, items := history.items renderAgentHtml now seq }
  let calls := history.completed.map (history.notice refs now)
  have hkeys : calls.map (·.sessionId) = history.completed.map (·.id) := by
    rw [List.map_map]
    rfl
  have hdistinct : (calls.map (·.sessionId)).Nodup := hkeys ▸ hd
  have hview : ∀ c ∈ calls, ∃ it ∈ chat.items, it.agentSessionId = some c.sessionId := by
    intro c hc
    obtain ⟨s,hs,rfl⟩ := List.mem_map.mp hc
    obtain ⟨m,hm,hsession⟩ := hin s hs
    obtain ⟨it,hit,heq⟩ := exists_item hm
    exact ⟨it,hit,heq.trans hsession⟩
  have hperm := insertAll_perm chat calls
  have hnotes : ∀ it ∈ Insertion.items chat.seq calls, it.kind = .sessionComplete ∧ ChatPage.live it = false := by
    intro it hit
    obtain ⟨c,hc,n,rfl⟩ := mem_insertions hit
    obtain ⟨s,-,rfl⟩ := List.mem_map.mp hc
    exact ⟨rfl,rfl⟩
  have hmessages : ∀ it ∈ chat.items, it.kind ≠ .sessionComplete := by
    intro it hit heq
    rcases (mem_items hit).1 with h | h <;> rw [heq] at h <;> cases h
  have hanchored := insertAll_anchored hdistinct hview
  constructor
  · have hbase : chat.items.filter (fun it => it.kind ≠ .sessionComplete) = chat.items :=
      List.filter_eq_self.mpr fun it hit => by simpa using hmessages it hit
    have hnone : (Insertion.items chat.seq calls).filter (fun it => it.kind ≠ .sessionComplete) = [] :=
      List.filter_eq_nil_iff.mpr fun it hit => by simp [(hnotes it hit).1]
    have hsub : chat.items.Sublist ((chat.insertAll calls).items.filter fun it => it.kind ≠ .sessionComplete) := by
      have hsub : chat.items.Sublist (chat.insertAll calls).items := hanchored ▸ sublist_anchored chat.items _
      have hkept := hsub.filter fun it => it.kind ≠ .sessionComplete
      rwa [hbase] at hkept
    refine (hsub.eq_of_length ?_).symm
    rw [(hperm.filter _).length_eq,List.filter_append,hbase,hnone,List.append_nil]
  · have hall : (Insertion.items chat.seq calls).countP (fun it => it.kind = .sessionComplete) = history.completed.length := by
      rw [List.countP_eq_length.mpr fun it hit => by simpa using (hnotes it hit).1,length_insertions,List.length_map]
    have hnone : chat.items.countP (fun it => it.kind = .sessionComplete) = 0 :=
      List.countP_eq_zero.mpr fun it hit => by simpa using hmessages it hit
    rw [hperm.countP_eq,List.countP_append,hall,hnone,Nat.zero_add]
  · intro s hs
    obtain ⟨n,-,hmem⟩ := exists_mem_items chat.seq (List.mem_map_of_mem (f := history.notice refs now) hs)
    obtain ⟨before,last,after,heq,hlast,hk,hafter⟩ := anchored_split (nodup_sessions hdistinct) hmem
      (hview _ (List.mem_map_of_mem hs))
    rw [← hanchored] at heq
    exact ⟨before,last,_,after,heq,rfl,rfl,hlast,hk,hafter⟩
  · rw [hperm.countP_eq,List.countP_append,List.countP_eq_zero.mpr fun it hit => by simpa using (mem_items hit).2,
      List.countP_eq_zero.mpr fun it hit => by simpa using (hnotes it hit).2]

end History

namespace ChatPage

/-- The page's hook with the messages in the transcript. -/
def replayed (page : ChatPage) (renderAgentHtml : String → String) (now : ℕ) (history : History) : Page :=
  {(page.setItems renderAgentHtml now history).hook with refs.lastAgent := history.lastAgentName}

/-- Only a session that is being finalized adds to the transcript after the notices. -/
theorem loaded_items (page : ChatPage) (renderAgentHtml : String → String) (now : ℕ) (id : String) (history : History) :
    (page.historyAnswered renderAgentHtml now id (.loaded history)).conversationId = some id ∧
    ∃ tail, (page.historyAnswered renderAgentHtml now id (.loaded history)).items =
      (history.completed.foldl (fun hook s => hook.renderCompleted now s (history.agentNameOf s.id) (some s.id))
        (page.replayed renderAgentHtml now history)).chat.items ++ tail ∧
      tail.map (·.kind) =
        (if history.sessions.getLast?.any (·.state = .finalizing) then [.sessionFinalizing] else []) ∧
      tail.countP live = 0 := by
  unfold historyAnswered
  dsimp only
  cases history.sessions.getLast? with
  | none => exact ⟨rfl,[],(List.append_nil _).symm,rfl,rfl⟩
  | some latest =>
    dsimp only
    by_cases hf : latest.state = .finalizing
    · rw [if_pos hf,Option.any_some,decide_eq_true hf]
      unfold handleSession Page.handleSession
      rw [if_pos hf]
      exact ⟨rfl,[_],rfl,rfl,rfl⟩
    · rw [if_neg hf,Option.any_some,decide_eq_false hf]
      by_cases hc : latest.state ≠ .completed
      · rw [if_pos hc]
        exact ⟨rfl,[],(List.append_nil _).symm,rfl,rfl⟩
      · rw [if_neg hc]
        exact ⟨rfl,[],(List.append_nil _).symm,rfl,rfl⟩

end ChatPage

open ChatPage

/-- A conversation that is opened is shown with its messages in their order, whatever page it is opened from. Each
completed session has one notice, directly after the last message of the session; a session that is being finalized
last has one at the end; and no options can be chosen from. -/
theorem history_replayed (renderAgentHtml : String → String) (page : ChatPage) (now k : ℕ) (id : String)
    (hk : page.tasks[k]? = some (.history id)) (history : History) (hids : ∀ s ∈ history.completed, s.id ≠ "")
    (hd : (history.completed.map (·.id)).Nodup)
    (hin : ∀ s ∈ history.completed, ∃ m ∈ history.messages, m.agentSessionId = some s.id) :
    ∃ page' shown tail, step renderAgentHtml page (.history now k (.loaded history)) = some page' ∧
      page'.conversationId = some id ∧ page'.items = shown ++ tail ∧
      ((shown.filter fun it => it.kind ≠ .sessionComplete).map fun it =>
        (it.kind,it.content,it.agentName,it.agentSessionId,it.timestamp)) =
        (history.messages.map fun m => (m.kind,m.content,m.agentName,m.agentSessionId,m.createdAt)) ∧
      (shown.countP fun it => it.kind = .sessionComplete) = history.completed.length ∧
      (∀ s ∈ history.completed, ∃ before last note after, shown = before ++ last :: note :: after ∧
        note.kind = .sessionComplete ∧ note.agentSessionId = some s.id ∧
        last.kind ≠ .sessionComplete ∧ last.agentSessionId = some s.id ∧
        ∀ it ∈ after, it.agentSessionId ≠ some s.id) ∧
      tail.map (·.kind) =
        (if history.sessions.getLast?.any (·.state = .finalizing) then [.sessionFinalizing] else []) ∧
      page'.items.countP live = 0 := by
  have hstep : step renderAgentHtml page (.history now k (.loaded history)) =
      some ((page.resumed k).historyAnswered renderAgentHtml now id (.loaded history)) := by rw [step,hk]
  obtain ⟨hconversation,tail,hitems,hkinds,htail⟩ := loaded_items (page.resumed k) renderAgentHtml now id history
  have hno : ∀ it ∈ ((page.resumed k).replayed renderAgentHtml now history).chat.items, it.kind ≠ .sessionFinalizing := by
    intro it hit heq
    rcases (History.mem_items hit).1 with h | h <;> rw [heq] at h <;> cases h
  rw [History.notices_inserted history.completed _ hids hno] at hitems
  have hshows : history.Shows (history.items renderAgentHtml now page.hook.chat.seq) _ :=
    History.shows_anchored ((page.resumed k).replayed renderAgentHtml now history).refs page.hook.chat.seq hd hin
  refine ⟨_,_,tail,hstep,hconversation,hitems,?_,hshows.notices,?_,hkinds,?_⟩
  · exact (congrArg _ hshows.messages).trans (history.items_show renderAgentHtml now page.hook.chat.seq)
  · intro s hs
    obtain ⟨before,last,note,after,heq,hkind,hnote,hlast,hsession,hafter⟩ := hshows.places s hs
    refine ⟨before,last,note,after,heq,hkind,hnote,fun hkind => ?_,hsession,hafter⟩
    rcases (History.mem_items hlast).1 with h | h <;> rw [hkind] at h <;> cases h
  · rw [hitems,List.countP_append,htail,Nat.add_zero]
    exact hshows.settled

section Sample

def Sample.said (role content : String) (agentName agentSessionId : Option String) (createdAt : ℕ) : StoredMessage where
  role := role
  content := content
  agentName := agentName
  agentSessionId := agentSessionId
  options := none
  selectedOptionId := none
  createdAt := createdAt

/-- A story that was completed, and a talk with another agent after it. -/
def Sample.told : History where
  messages := [Sample.said "user" "A story" none (some "s") 1,Sample.said "assistant" "Thanks" (some "Story") (some "s") 2,
    Sample.said "user" "Hello" none none 3,Sample.said "assistant" "Hi" (some "Saarthi") none 4]
  sessions := [{ id := "s", state := .completed, reportUrl := some "/report.pdf" }]

end Sample

theorem history_replayed_told : ∃ page' shown tail,
    step id (boot 0 (some "c")) (.history 5 0 (.loaded Sample.told)) = some page' ∧ page'.items = shown ++ tail ∧
    page'.items.map (·.content) = ["A story","Thanks","✅ Your story is ready.","Hello","Hi"] ∧
    (shown.countP fun it => it.kind = .sessionComplete) = 1 := by
  obtain ⟨page',shown,tail,hstep,-,hitems,-,hnotices,-⟩ := history_replayed id (boot 0 (some "c")) 5 0 "c" rfl
    Sample.told (by decide) (by decide) (by decide)
  have hcontent : ((step id (boot 0 (some "c")) (.history 5 0 (.loaded Sample.told))).map fun page =>
      page.items.map (·.content)) = some ["A story","Thanks","✅ Your story is ready.","Hello","Hi"] := by
    decide +kernel
  rw [hstep] at hcontent
  exact ⟨page',shown,tail,hstep,hitems,Option.some.inj hcontent,hnotices⟩

end Saarathi
