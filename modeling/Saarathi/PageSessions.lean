import Saarathi.PageTurns

/-!
# The session that is remembered

A session is remembered so that it can be asked about a turn that timed out. It has to
be one of the conversation on the page: the page forgets it when it is left.
-/

namespace Saarathi

open Transcript Machine

namespace Task

def isHistory : Task → Bool
  | history _ => true
  | _ => false

end Task

namespace ChatPage

variable {owner : String → String} {page page' : ChatPage} {t : Task} {item : Item} {origin : Origin} {message : String}
  {optionId text : Option String} {autostart : Bool} {button : Option ActionButton} {now k : ℕ}
  {renderAgentHtml : String → String}

/-- The history of a conversation is awaited. -/
def Loading (page : ChatPage) : Prop := 0 < page.tasks.countP Task.isHistory

/-- The answer to a turn is about the conversation of the session that it names, and of a conversation that has
sessions it does not lead away. -/
structure OfTurn (owner : String → String) (body : TurnBody) (reply : TurnReply) : Prop where
  session : ∀ s, reply.session = some s → orNull reply.conversationId = some (owner s.id)
  stays : ∀ s c, body.conversationId = some (owner s) → orNull reply.conversationId = some c → c = owner s

/-- Sessions are listed with their own conversation, and while a conversation is loaded no turn is sent and
no other is opened. -/
def Patient (owner : String → String) (page : ChatPage) : Act → Prop
  | .submit _ => ¬Loading page
  | .selectOption _ _ _ => ¬Loading page
  | .selectConversation _ => ¬Loading page
  | .recover _ => ¬Loading page
  | .reset _ k _ => Loading page → ∀ action button, page.tasks[k]? ≠ some (.reset (.start action button))
  | .check _ _ .canResend => ¬Loading page
  | .turn _ k (.success reply) => ∀ body button, page.tasks[k]? = some (.turn body button) → OfTurn owner body reply
  | .turn _ k (.failure conversationId _ _) => ∀ body button, page.tasks[k]? = some (.turn body button) →
    ∀ s c, body.conversationId = some (owner s) → orNull conversationId = some c → c = owner s
  | .history _ k (.loaded history) => ∀ id, page.tasks[k]? = some (.history id) →
    ∀ s ∈ history.sessions, owner s.id = id
  | _ => True

/-- The session that is remembered is of the conversation on the page, and of the one that a turn was sent to; none
is while a conversation is loaded. -/
structure Placed (owner : String → String) (page : ChatPage) : Prop where
  shown : ∀ s, page.lastSessionId = some s → page.conversationId = some (owner s)
  loading : Loading page → page.lastSessionId = none
  idle : Loading page → page.tasks.countP Task.isTurn = 0
  one : page.tasks.countP Task.isHistory ≤ 1
  sent : ∀ body button, .turn body button ∈ page.tasks → ∀ s, page.lastSessionId = some s →
    body.conversationId = some (owner s)

theorem Placed.of_eq (h : Placed owner page) (htasks : page'.tasks = page.tasks)
    (hconversation : page'.conversationId = page.conversationId) (hsession : page'.lastSessionId = page.lastSessionId) :
    Placed owner page' := by
  constructor
  · rw [hsession,hconversation]
    exact h.shown
  · rw [Loading,htasks,hsession]
    exact h.loading
  · rw [Loading,htasks]
    exact h.idle
  · rw [htasks]
    exact h.one
  · rw [htasks,hsession]
    exact h.sent

/-- Where no session is remembered there is little to see to. -/
theorem Placed.forgotten (h : Placed owner page) (htasks : page'.tasks = page.tasks)
    (hsession : page'.lastSessionId = none) : Placed owner page' := by
  refine ⟨fun s hs => ?_,fun _ => hsession,?_,?_,fun body button _ s hs => ?_⟩
  · rw [hsession] at hs
    cases hs
  · rw [Loading,htasks]
    exact h.idle
  · rw [htasks]
    exact h.one
  · rw [hsession] at hs
    cases hs

theorem Placed.await (h : Placed owner page) (hturn : t.isTurn = false) (hhistory : t.isHistory = false) :
    Placed owner (page.await t) := by
  have hcount : (page.await t).tasks.countP Task.isHistory = page.tasks.countP Task.isHistory := by
    change (page.tasks ++ [t]).countP Task.isHistory = _
    rw [List.countP_append,List.countP_singleton,if_neg (by simp [hhistory]),Nat.add_zero]
  have hturns : (page.await t).tasks.countP Task.isTurn = page.tasks.countP Task.isTurn := by
    change (page.tasks ++ [t]).countP Task.isTurn = _
    rw [List.countP_append,List.countP_singleton,if_neg (by simp [hturn]),Nat.add_zero]
  refine ⟨h.shown,?_,?_,?_,fun body button hmem => ?_⟩
  · rw [Loading,hcount]
    exact h.loading
  · rw [Loading,hcount,hturns]
    exact h.idle
  · rw [hcount]
    exact h.one
  · rcases List.mem_append.mp hmem with hmem | hmem
    · exact h.sent body button hmem
    · obtain rfl := List.mem_singleton.mp hmem
      cases hturn

theorem Placed.resumed (h : Placed owner page) (k : ℕ) : Placed owner (page.resumed k) := by
  have hsub : (page.resumed k).tasks.Sublist page.tasks := List.eraseIdx_sublist page.tasks k
  have hloading : Loading (page.resumed k) → Loading page := fun hl => Nat.lt_of_lt_of_le hl hsub.countP_le
  exact ⟨h.shown,fun hl => h.loading (hloading hl),
    fun hl => Nat.le_zero.mp (Nat.le_trans hsub.countP_le (Nat.le_of_eq (h.idle (hloading hl)))),
    Nat.le_trans hsub.countP_le h.one,fun body button hmem => h.sent body button (hsub.subset hmem)⟩

theorem Placed.post (h : Placed owner page) (howner : ∀ s, owner s ≠ "") (hl : ¬Loading page) :
    Placed owner (page.post message optionId autostart origin button) := by
  have hnone : ¬Loading (page.post message optionId autostart origin button) := by
    change ¬0 < (page.tasks ++ [_]).countP Task.isHistory
    rw [List.countP_append]
    exact hl
  refine ⟨h.shown,fun hl' => absurd hl' hnone,fun hl' => absurd hl' hnone,?_,fun body button' hmem s hs => ?_⟩
  · rw [Loading,Nat.not_lt,Nat.le_zero] at hnone
    rw [hnone]
    exact Nat.zero_le 1
  · rcases List.mem_append.mp hmem with hmem | hmem
    · exact h.sent body button' hmem s hs
    · obtain ⟨rfl,-⟩ := Task.turn.inj (List.mem_singleton.mp hmem)
      change orNull page.conversationId = _
      rw [h.shown s hs,orNull,Option.filter_some,if_pos (by simpa using howner s)]

theorem Placed.sendMessage (h : Placed owner page) (howner : ∀ s, owner s ≠ "") (hl : ¬Loading page) :
    Placed owner (page.sendMessage text optionId autostart origin button) := by
  unfold ChatPage.sendMessage
  dsimp only
  split
  · exact h.of_eq rfl rfl rfl
  · split
    · exact h.of_eq rfl rfl rfl
    · exact h.post howner hl

theorem Placed.again (h : Placed owner page) (howner : ∀ s, owner s ≠ "") (hl : ¬Loading page) :
    Placed owner ((page.dispatch (.remove item.id)).sendMessage (page.retryText item) none false origin none) := by
  have hremoved : Placed owner (page.dispatch (.remove item.id)) := h.of_eq rfl rfl rfl
  exact hremoved.sendMessage howner hl

/-- The conversation is opened, and what was remembered of the one before is forgotten. -/
theorem placed_loadConversationHistory (hl : ¬Loading page) (hidle : page.tasks.countP Task.isTurn = 0) (id : String) :
    Placed owner (page.loadConversationHistory id) := by
  have hnone : page.tasks.countP Task.isHistory = 0 := Nat.le_zero.mp (Nat.not_lt.mp hl)
  refine ⟨fun s hs => (by cases hs),fun _ => rfl,fun _ => ?_,?_,fun _ _ _ s hs => by cases hs⟩
  · change (page.tasks ++ [_]).countP Task.isTurn = 0
    rw [List.countP_append,hidle]
    rfl
  · change (page.tasks ++ [_]).countP Task.isHistory ≤ 1
    rw [List.countP_append,hnone]
    exact Nat.le_refl 1

/-- Where nothing is awaited that would be about a conversation. -/
theorem Placed.of_quiet (hturns : page.tasks.countP Task.isTurn = 0) (hhistory : page.tasks.countP Task.isHistory = 0)
    (hshown : ∀ s, page.lastSessionId = some s → page.conversationId = some (owner s)) : Placed owner page := by
  have hl : ¬Loading page := Nat.not_lt.mpr (Nat.le_of_eq hhistory)
  refine ⟨hshown,fun h => absurd h hl,fun h => absurd h hl,?_,fun body button hmem => ?_⟩
  · rw [hhistory]
    exact Nat.zero_le 1
  · exact absurd rfl (List.countP_eq_zero.mp hturns _ hmem)

theorem switchContext_place (page : ChatPage) (now : ℕ) (agentName : String) :
    (page.switchContext now agentName).conversationId = page.conversationId ∧
    (page.switchContext now agentName).lastSessionId = page.lastSessionId := by
  unfold switchContext
  split <;> exact ⟨rfl,rfl⟩

/-- Where the page is after the answer to a turn, and which session is remembered. -/
theorem success_place (renderAgentHtml : String → String) (now : ℕ) (page : ChatPage) (body : TurnBody)
    (button : Option ActionButton) (reply : TurnReply) :
    (page.turnAnswered renderAgentHtml now body button (.success reply)).conversationId =
      (orNull reply.conversationId <|> page.conversationId) ∧
    (page.turnAnswered renderAgentHtml now body button (.success reply)).lastSessionId =
      ((reply.session.map (·.id)) <|> page.lastSessionId) := by
  have hplace := switchContext_place {(page.adopt reply.conversationId) with currentAgentKey := none} now reply.agentName
  unfold ChatPage.turnAnswered ChatPage.succeed
  dsimp only
  split
  · rename_i session hs
    rw [hs]
    exact ⟨hplace.1,rfl⟩
  · rename_i hs
    rw [hs]
    exact hplace

theorem failure_place (renderAgentHtml : String → String) (now : ℕ) (page : ChatPage) (body : TurnBody)
    (button : Option ActionButton) (conversationId errorCode error : Option String) :
    (page.turnAnswered renderAgentHtml now body button (.failure conversationId errorCode error)).conversationId =
      (orNull conversationId <|> page.conversationId) ∧
    (page.turnAnswered renderAgentHtml now body button (.failure conversationId errorCode error)).lastSessionId =
      page.lastSessionId := by
  unfold ChatPage.turnAnswered
  dsimp only
  split <;> exact ⟨rfl,rfl⟩

/-- An answer that does not lead away leaves the page where its session is. -/
theorem Placed.stays (h : Placed owner page) {body : TurnBody} (hmem : .turn body button ∈ page.tasks) {c : Option String}
    (hc : ∀ s c', body.conversationId = some (owner s) → c = some c' → c' = owner s) {s : String}
    (hs : page.lastSessionId = some s) : (c <|> page.conversationId) = some (owner s) := by
  cases c with
  | none => exact h.shown s hs
  | some c' => exact congrArg some (hc s c' (h.sent body button hmem s hs) rfl)

theorem Placed.turnAnswered (h : Placed owner page) (ho : Orderly page) {body : TurnBody}
    (hk : page.tasks[k]? = some (.turn body button)) {answer : TurnAnswer}
    (hp : Patient owner page (.turn now k answer)) :
    Placed owner ((page.resumed k).turnAnswered renderAgentHtml now body button answer) := by
  have hmem : Task.turn body button ∈ page.tasks := List.mem_of_getElem? hk
  obtain ⟨-,htasks,-⟩ := turnAnswered_rest renderAgentHtml now (page.resumed k) body button answer
  have hturns : (page.tasks.eraseIdx k).countP Task.isTurn = 0 := (ho.turn hk).2
  have hhistory : (page.tasks.eraseIdx k).countP Task.isHistory = 0 := by
    refine Nat.le_zero.mp (Nat.le_trans (List.eraseIdx_sublist _ _).countP_le (Nat.not_lt.mp fun hl => ?_))
    exact absurd rfl (List.countP_eq_zero.mp (h.idle hl) _ hmem)
  refine .of_quiet (by rw [htasks]; exact hturns) (by rw [htasks]; exact hhistory) fun s hs => ?_
  cases answer with
  | raised => exact h.shown s hs
  | failure conversationId errorCode error =>
    obtain ⟨hconversation,hsession⟩ := failure_place renderAgentHtml now (page.resumed k) body button
      conversationId errorCode error
    rw [hsession] at hs
    rw [hconversation]
    exact h.stays hmem (hp body button hk) hs
  | success reply =>
    obtain ⟨hconversation,hsession⟩ := success_place renderAgentHtml now (page.resumed k) body button reply
    have hturn : OfTurn owner body reply := hp body button hk
    rw [hsession] at hs
    rw [hconversation]
    cases hreply : reply.session with
    | none =>
      rw [hreply] at hs
      exact h.stays hmem hturn.stays hs
    | some session =>
      rw [hreply] at hs
      obtain rfl := Option.some.inj hs
      rw [hturn.session session hreply]
      rfl

theorem Placed.resetAnswered (h : Placed owner page) (howner : ∀ s, owner s ≠ "") {next : Afterwards}
    (hl : ∀ action button, next = .start action button → ¬Loading page) (answer : ResetAnswer) :
    Placed owner (page.resetAnswered now next answer) := by
  have hreset : ∀ conversationId agentKey, Placed owner {(({page with conversationId := conversationId}.resetToGreeting
      now).resetConversationScopedState) with currentAgentKey := agentKey} := fun _ _ => h.forgotten rfl rfl
  cases next with
  | nothing => exact hreset _ none
  | pin agentKey => exact hreset _ _
  | start action button =>
    have hnot : ¬Loading page := hl action button rfl
    unfold ChatPage.resetAnswered
    dsimp only
    split
    · exact (hreset _ _).sendMessage howner hnot
    · exact h.forgotten rfl rfl

theorem historyAnswered_tasks (page : ChatPage) (id : String) (answer : HistoryAnswer) :
    (page.historyAnswered renderAgentHtml now id answer).tasks = page.tasks := by
  cases answer with
  | raised => rfl
  | refused => rfl
  | notFound => rfl
  | loaded history =>
    unfold ChatPage.historyAnswered
    dsimp only
    split
    · rfl
    · split
      · rfl
      · split <;> rfl

theorem Placed.historyAnswered (h : Placed owner page) {id : String} (hk : page.tasks[k]? = some (.history id))
    {answer : HistoryAnswer} (hp : Patient owner page (.history now k answer)) :
    Placed owner ((page.resumed k).historyAnswered renderAgentHtml now id answer) := by
  have hmem : Task.history id ∈ page.tasks := List.mem_of_getElem? hk
  have hl : Loading page := List.countP_pos_iff.mpr ⟨_,hmem,rfl⟩
  have hsession : page.lastSessionId = none := h.loading hl
  have hturns : (page.tasks.eraseIdx k).countP Task.isTurn = 0 :=
    Nat.le_zero.mp (Nat.le_trans (List.eraseIdx_sublist _ _).countP_le (Nat.le_of_eq (h.idle hl)))
  have hhistory : (page.tasks.eraseIdx k).countP Task.isHistory = 0 := by
    have hone := h.one
    have hone' : Task.isHistory (.history id) = true := rfl
    rw [countP_eraseIdx hk Task.isHistory,if_pos hone'] at hone
    omega
  refine .of_quiet (by rw [historyAnswered_tasks]; exact hturns) (by rw [historyAnswered_tasks]; exact hhistory)
    fun s hs => ?_
  cases answer with
  | raised => exact h.shown s hs
  | refused => exact h.shown s hs
  | notFound =>
    have hnone : ((page.resumed k).historyAnswered renderAgentHtml now id .notFound).lastSessionId = none := hsession
    rw [hnone] at hs
    cases hs
  | loaded history =>
    have hsessions : ∀ s ∈ history.sessions, owner s.id = id := hp id hk
    unfold ChatPage.historyAnswered at hs ⊢
    dsimp only at hs ⊢
    cases hlatest : history.sessions.getLast? with
    | none =>
      rw [hlatest] at hs
      exact absurd (hsession.symm.trans hs) (by simp)
    | some latest =>
      have howned : owner latest.id = id := hsessions latest (List.mem_of_getLast? hlatest)
      rw [hlatest] at hs
      dsimp only at hs ⊢
      split at hs
      · rename_i hstate
        obtain rfl := Option.some.inj hs
        rw [if_pos hstate,howned]
        rfl
      · rename_i hstate
        split at hs
        · rename_i hother
          obtain rfl := Option.some.inj hs
          rw [if_neg hstate,if_pos hother,howned]
          rfl
        · exact absurd (hsession.symm.trans hs) (by simp)

theorem Placed.recover (h : Placed owner page) (howner : ∀ s, owner s ≠ "") (hl : ¬Loading page) (item : Item) :
    Placed owner (page.recover item) := by
  unfold ChatPage.recover
  split
  · exact h
  · have hlatched : Placed owner {page with checking := page.checking ++ [item.id]} := h.of_eq rfl rfl rfl
    dsimp only
    split
    · exact hlatched.await rfl rfl
    · exact hlatched.again howner hl

theorem Placed.checkAnswered (h : Placed owner page) (howner : ∀ s, owner s ≠ "") (item : Item) (sessionId : String)
    (attempt : ℕ) (answer : ResumeAnswer) (hl : answer = .canResend → ¬Loading page) :
    Placed owner (page.checkAnswered renderAgentHtml now item sessionId attempt answer) := by
  cases answer with
  | raised => exact h.of_eq rfl rfl rfl
  | pending => exact h.await rfl rfl
  | other => exact h.of_eq rfl rfl rfl
  | canResend =>
    unfold ChatPage.checkAnswered
    exact h.again howner (hl rfl)
  | answered text session => cases session <;> exact h.of_eq rfl rfl rfl

theorem Placed.startNewConversation (h : Placed owner page) (next : Afterwards) :
    Placed owner (page.startNewConversation next) := by
  have hclear : Placed owner page.clearAll := h.of_eq rfl rfl rfl
  exact hclear.await rfl rfl

theorem not_loading_resumed (k : ℕ) (hl : ¬Loading page) : ¬Loading (page.resumed k) := fun h =>
  hl (Nat.lt_of_lt_of_le h (List.eraseIdx_sublist page.tasks k).countP_le)

theorem Placed.step {act : Act} (h : Placed owner page) (ho : Orderly page) (howner : ∀ s, owner s ≠ "")
    (hp : Patient owner page act) (hs : page.step renderAgentHtml act = some page') : Placed owner page' := by
  cases stepped_of_step hs with
  | nothing => exact h
  | type draft => exact h.of_eq rfl rfl rfl
  | submit now =>
    have hshown : Placed owner ({page with draft := "", typed := page.typed ++ [trim page.draft]}.append now .user
        {content := trim page.draft}) := h.of_eq rfl rfl rfl
    exact hshown.sendMessage howner hp
  | selectOption now itemId opt =>
    have hshown : Placed owner ((page.dispatch .disableAllOptions).append now .user {content := opt.label}) :=
      h.of_eq rfl rfl rfl
    exact hshown.sendMessage howner hp
  | start pending next =>
    have hlatched : Placed owner {page with pending := pending} := h.of_eq rfl rfl rfl
    exact hlatched.startNewConversation next
  | selectConversation id hb =>
    have hidle := ho.turns
    rw [hb] at hidle
    exact placed_loadConversationHistory hp hidle id
  | recover itemId item => exact h.recover howner hp item
  | turn now k hk answer => exact h.turnAnswered ho hk hp
  | reset now k hk answer =>
    refine (h.resumed k).resetAnswered howner (fun action button heq => not_loading_resumed k fun hl => ?_) answer
    exact hp hl action button (heq ▸ hk)
  | history now k hk answer => exact h.historyAnswered hk hp
  | check now k hk answer =>
    refine (h.resumed k).checkAnswered howner _ _ _ answer fun heq => ?_
    subst heq
    exact not_loading_resumed k hp
  | pause k =>
    have hresumed := h.resumed k
    unfold ChatPage.paused
    split
    · exact hresumed.of_eq rfl rfl rfl
    · exact hresumed.await rfl rfl
  | sessions hook => exact h.of_eq rfl rfl rfl

theorem placed_boot (now : ℕ) (stored : Option String) : Placed owner (boot now stored) := by
  unfold boot
  dsimp only
  split
  · refine placed_loadConversationHistory (fun hl => ?_) rfl _
    cases hl
  · exact .of_quiet rfl rfl fun s hs => by cases hs

/-- A check that was begun asks about the session that is remembered. -/
theorem mem_recover {item' : Item} {sessionId : String} {attempt : ℕ}
    (hmem : Task.check item' sessionId attempt ∈ (page.recover item).tasks) :
    Task.check item' sessionId attempt ∈ page.tasks ∨ page.lastSessionId = some sessionId := by
  unfold ChatPage.recover at hmem
  split at hmem
  · exact .inl hmem
  · dsimp only at hmem
    split at hmem
    · rename_i s hs
      rcases List.mem_append.mp hmem with hmem | hmem
      · exact .inl hmem
      · obtain ⟨-,rfl,-⟩ := Task.check.inj (List.mem_singleton.mp hmem)
        exact .inr (Option.filter_eq_some_iff.mp hs).1
    · unfold handleRetry ChatPage.sendMessage at hmem
      dsimp only at hmem
      split at hmem
      · exact .inl hmem
      · split at hmem
        · exact .inl hmem
        · rcases List.mem_append.mp hmem with hmem | hmem
          · exact .inl hmem
          · cases List.mem_singleton.mp hmem

end ChatPage

open ChatPage

section Sample

def Sample.remembered : SessionLifecycle.SessionPayload where
  id := "s"
  state := .inProgress

/-- The reply to a turn of the conversation "c", from an interview. -/
def Sample.nextQuestion : TurnAnswer := .success {
  conversationId := some "c"
  agentName := "Story"
  response := "And then?"
  options := none
  session := some Sample.remembered }

end Sample

/-- A turn that is sent while another conversation is being loaded leaves its session behind there. -/
theorem session_left_behind : ∃ page, Reach (step id) anyAct (boot 0 none) page ∧ page.lastSessionId = some "s" ∧
    page.conversationId = some "d" := by
  have hrun : ((run (step id) anyAct (boot 0 none) [.type "Hello",.submit 1,.turn 2 0 Sample.nextQuestion,
      .selectConversation "d",.type "Well",.submit 3,.turn 4 1 Sample.nextQuestion,
      .history 5 0 (.loaded { messages := [], sessions := [] })]).any fun page =>
        decide (page.lastSessionId = some "s" ∧ page.conversationId = some "d")) = true := by
    decide +kernel
  obtain ⟨page,hr,hP⟩ := exists_reach_of_run hrun
  exact ⟨page,hr,of_decide_eq_true hP⟩

end Saarathi
