import Saarathi.OwnSessions

/-!
# The turn limit of an agent

`RateLimits.check` reads the open session of the conversation before `open_for`
decides whose session the turn takes.
-/

namespace Saarathi

open Machine Program Program.Prog Interleaving ReadCommitted OrchestrationService

namespace TurnLimits

variable {d : Deployment} {x : Conn} {w w' : World} {c : ConversationId} {agent : RegisteredAgent}
  {rows : List AgentSession} {s u : AgentSession} {m : ℤ} {es : Trace Op Op.Ans Exn}

/-- `s` is an open session of the conversation, as `x` sees it. -/
def OpenIn (w : World) (x : Conn) (c : ConversationId) (s : AgentSession) : Prop :=
  ∃ id, w.db.sessions.view x id = some s ∧ s.conversationId = c ∧ s.isOpen = true

/-- Where the open session of its conversation is in `rows`, the turn goes on with `s` as it is. -/
def Attaches (d : Deployment) (c : ConversationId) (agent : RegisteredAgent) (rows : List AgentSession)
    (s : AgentSession) : Prop :=
  Runs (SessionService.openFor c agent (closeRemoteChannel d c)) [⟨.stmt (.getOpenForConversation c),.ok rows⟩]
    (.ok (some s))

/-- The check has refused the turn for its session's length. -/
def Refused (out : Except Exn Unit) : Prop := ∃ message, out = .error (.turnLimitExceeded "max_turns" message)

theorem length_filterMap_le_one {α β : Type} {f : α → Option β} : ∀ {as : List α}, as.Nodup →
    (∀ a ∈ as, ∀ b ∈ as, (f a).isSome → (f b).isSome → a = b) → (as.filterMap f).length ≤ 1
  | [],_,_ => by simp
  | a :: as,hnodup,h => by
    obtain ⟨hmem,hnodup⟩ := List.nodup_cons.mp hnodup
    cases ha : f a with
    | none =>
      rw [List.filterMap_cons_none ha]
      exact length_filterMap_le_one hnodup fun b hb b' hb' => h b (by simp [hb]) b' (by simp [hb'])
    | some v =>
      have hnone : ∀ b ∈ as, f b = none := by
        intro b hb
        by_contra hsome
        have heq := h a (by simp) b (by simp [hb]) (by simp [ha]) (Option.isSome_iff_ne_none.mpr hsome)
        exact hmem (heq ▸ hb)
      rw [List.filterMap_cons_some ha,List.filterMap_eq_nil_iff.mpr hnone]
      exact Nat.le_refl 1

/-- A conversation has one open session at most. -/
theorem select_open_le_one (hc : AgentSession.Consistent w.db.sessions) :
    (w.db.sessions.select x fun s => s.conversationId = c && s.isOpen).length ≤ 1 := by
  refine length_filterMap_le_one w.db.sessions.nodup ?_
  intro k _ k' _ hk hk'
  obtain ⟨u,hu⟩ := Option.isSome_iff_exists.mp hk
  obtain ⟨v,hv⟩ := Option.isSome_iff_exists.mp hk'
  obtain ⟨hu,hopen⟩ := Option.filter_eq_some_iff.mp hu
  obtain ⟨hv,hopen'⟩ := Option.filter_eq_some_iff.mp hv
  by_contra hne
  have hconflict := hc.unique_view x k k' u v hne hu hv
  simp only [Bool.and_eq_true,decide_eq_true_eq] at hopen hopen'
  have htrue : u.conflict v = true := by
    simp [AgentSession.conflict,hopen.1,hopen.2,hopen'.1,hopen'.2]
  exact absurd (htrue.symm.trans hconflict) (by decide)

theorem mem_select_open : s ∈ (w.db.sessions.select x fun s => s.conversationId = c && s.isOpen) ↔
    OpenIn w x c s := by
  rw [Table.mem_select]
  refine exists_congr fun id => and_congr_right fun _ => ?_
  simp

/-- What the query of the open session answers. -/
theorem rows_of_called (h : Called d x (.stmt (.getOpenForConversation c)) w (.ok rows) w') :
    rows.length ≤ 1 ∧ ∀ s, s ∈ rows ↔ OpenIn w x c s := by
  obtain ⟨p,he⟩ := h.effect
  have hrows : (w.db.sessions.select x fun s => s.conversationId = c && s.isOpen) = rows :=
    (Prod.mk.inj (Effect.ok.inj he)).1
  rw [← hrows]
  exact ⟨select_open_le_one h.before,fun s => mem_select_open⟩

theorem eq_nil_or_singleton (h : rows.length ≤ 1) : rows = [] ∨ ∃ s, rows = [s] := by
  cases rows with
  | nil => exact .inl rfl
  | cons s ss =>
    rw [List.length_cons] at h
    obtain rfl : ss = [] := List.length_eq_zero_iff.mp (by omega)
    exact .inr ⟨s,rfl⟩

/-- A query of the open session, in front of other calls. -/
theorem of_getOpen {α : Type} {f : Option AgentSession → Proc α} {out : Except Exn α} (h : rows.length ≤ 1)
    (hrun : Runs (do f (← AgentSessionRepository.getOpenForConversation c)) es out)
    (hanswer : ∀ e ∈ es.head?, e = ⟨.stmt (.getOpenForConversation c),.ok rows⟩) :
    ∃ es', es = ⟨.stmt (.getOpenForConversation c),.ok rows⟩ :: es' ∧ Runs (f rows.head?) es' out := by
  change Runs (Prog.call (Op.stmt (.getOpenForConversation c)) _) es out at hrun
  cases hrun with
  | call hrun =>
    obtain ⟨-,hr⟩ := Sigma.mk.inj_iff.mp (hanswer _ rfl)
    obtain rfl := eq_of_heq hr
    refine ⟨_,rfl,?_⟩
    rcases eq_nil_or_singleton h with rfl | ⟨s,rfl⟩
    · exact hrun
    · exact hrun

/-- A turn goes on with the open session exactly where that is its agent's. -/
theorem attaches_iff (h : rows.length ≤ 1) : Attaches d c agent rows s ↔ s ∈ rows ∧ s.agentId = agent.id := by
  constructor
  · intro hrun
    obtain ⟨es',hes,hrun⟩ := of_getOpen h hrun fun e he => (Option.some.inj he).symm
    obtain rfl : es' = [] := by simpa using hes
    rcases eq_nil_or_singleton h with rfl | ⟨u,rfl⟩
    · change Runs (if agent.spec.routing.pinSession then _ else _) [] _ at hrun
      split at hrun
      · cases hrun
      · cases hrun
    · change Runs (if u.agentId = agent.id then _ else _) [] _ at hrun
      split at hrun
      · next hown =>
        cases hrun
        exact ⟨List.mem_singleton_self _,hown⟩
      · cases hrun
  · rintro ⟨hs,hown⟩
    obtain rfl : rows = [s] := by
      rcases eq_nil_or_singleton h with rfl | ⟨u,rfl⟩
      · cases hs
      · rw [List.mem_singleton.mp hs]
    refine Runs.call ?_
    change Runs (if s.agentId = agent.id then _ else _) [] _
    rw [if_pos hown]
    exact .done _

/-- The check refuses the turn for any open session that is long enough. -/
theorem refused_iff {out : Except Exn Unit} (h : rows.length ≤ 1)
    (hrun : Runs (checkMaxTurns c (some m)) es out)
    (hanswer : ∀ e ∈ es, e = ⟨.stmt (.getOpenForConversation c),.ok rows⟩) :
    Refused out ↔ m ≠ 0 ∧ ∃ s ∈ rows, m ≤ s.turnCount := by
  by_cases hm : m = 0
  · simp only [checkMaxTurns,hm,if_true] at hrun
    obtain ⟨-,rfl⟩ := Runs.of_pure hrun
    refine iff_of_false ?_ (fun h => h.1 hm)
    rintro ⟨message,hout⟩
    cases hout
  · simp only [checkMaxTurns,hm,if_false] at hrun
    obtain ⟨es',rfl,hrest⟩ := of_getOpen h hrun fun e he => hanswer e (List.mem_of_mem_head? he)
    rcases eq_nil_or_singleton h with rfl | ⟨s,rfl⟩
    · obtain ⟨-,rfl⟩ := Runs.of_pure hrest
      refine iff_of_false ?_ (by simp)
      rintro ⟨message,hout⟩
      cases hout
    · change Runs (if m ≤ s.turnCount then _ else _) es' out at hrest
      split at hrest
      · next hle =>
        obtain ⟨-,rfl⟩ := Runs.of_throw hrest
        exact iff_of_true ⟨_,rfl⟩ ⟨hm,s,List.mem_singleton_self s,hle⟩
      · next hle =>
        obtain ⟨-,rfl⟩ := Runs.of_pure hrest
        refine iff_of_false ?_ (by simp [hle])
        rintro ⟨message,hout⟩
        cases hout

theorem runs_bind_error {α β : Type} {p : Proc α} {f : α → Proc β} {e : Exn} (h : Runs p es (.error e)) :
    Runs (p >>= f) es (.error e) := by
  generalize hout : Except.error e = out at h
  induction h with
  | done a => cases hout
  | fail e' =>
    cases hout
    exact .fail e
  | call h ih => exact .call (ih hout)

/-- A turn that the check refuses ends there. -/
theorem admitTurn_refused {conv : Conversation} {e : Exn}
    (hrun : Runs (checkMaxTurns conv.id agent.spec.limits.maxTurns) es (.error e)) :
    Runs (admitTurn d conv agent) es (.error e) := by
  have hcheck : Runs (checkRateLimits conv.id agent.spec.limits) es (.error e) := runs_bind_error hrun
  exact runs_bind_error hcheck

end TurnLimits

namespace TurnLimits

/-- An interview has had its first turn. -/
def opened : List (Cue World Conn Req Choice World.EnvAct Op) :=
  [.act (.start 0 (Sample.turn "hello" "story" .absent)),.serve 0 Sample.smooth 60,.act (.finish 0)]

def limited (agent : RegisteredAgent) : RegisteredAgent :=
  { agent with spec := { agent.spec with limits := { maxTurns := some 1 } } }

def queried (w : World) : Option (Except Exn (List AgentSession) × World) :=
  w.exec Sample.deployment 0 (.stmt (.getOpenForConversation 0)) (.db (.go {}))

theorem opened_queried : ∃ k s w', Reach (step (system Sample.deployment)) anyAct (idle Sample.world) k ∧
    queried k.world = some (.ok [s],w') ∧ s.agentId = 2 ∧ 1 ≤ s.turnCount := by
  have hrun : ((play (system Sample.deployment) anyAct opened (idle Sample.world)).any fun k =>
      (queried k.world).any fun q => q.1.toOption.any fun ss =>
        decide (ss.map (fun s => (s.agentId,decide (1 ≤ s.turnCount))) = [(2,true)])) = true := by
    decide +kernel
  obtain ⟨k,hk,hP⟩ := exists_reach_of_play hrun
  obtain ⟨⟨r,w'⟩,hq,hr⟩ := (Option.any_eq_true _ _).mp hP
  cases r with
  | error e => cases hr
  | ok ss =>
    obtain ⟨s,rest,rfl,hs,hrest⟩ := List.map_eq_cons_iff.mp (of_decide_eq_true hr)
    obtain rfl := List.map_eq_nil_iff.mp hrest
    obtain ⟨hagent,hturns⟩ := Prod.mk.inj hs
    exact ⟨k,s,w',hk,hq,hagent,of_decide_eq_true hturns⟩

def talk : Conversation := { id := 0, tenantCode := "default", externalUserId := "user", createdAt := 0 }

def refusal : Exn := .turnLimitExceeded "max_turns" "This interview has reached its limit of 1 turns."

theorem runs_refused (hs : 1 ≤ s.turnCount) : Runs (checkMaxTurns talk.id (limited agent).spec.limits.maxTurns)
    [⟨.stmt (.getOpenForConversation talk.id),.ok [s]⟩] (.error refusal) := by
  refine Runs.call ?_
  change Runs (if (1 : ℤ) ≤ s.turnCount then throw _ else pure ()) [] _
  rw [if_pos (by omega)]
  exact .fail _

end TurnLimits

end Saarathi
