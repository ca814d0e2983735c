import Saarathi.Dialogue
import Saarathi.LlmHandler

/-!
# The tool loop

Every list of messages that the handler sends has the calls of each assistant
message answered, and the turn's traces are the calls that were run.
-/

namespace Saarathi

open Program Program.Prog Dialogue

/-- The ids of the calls that an assistant message makes. -/
def ChatMessage.asks : ChatMessage → Option (List (Option String))
  | ai m => some (m.toolCalls.map (·.id))
  | _ => none

/-- The id of the call that a tool message answers. -/
def ChatMessage.answers : ChatMessage → Option (Option String)
  | tool _ toolCallId => some (some toolCallId)
  | _ => none

/-- The calls of each assistant message are answered in order, each by one tool message with its id,
before the next assistant message. -/
abbrev Answered (msgs : List ChatMessage) : Prop := Dialogue.Answered ChatMessage.asks ChatMessage.answers msgs

abbrev LlmTrace := Trace LlmOp LlmOp.Ans Exn

namespace LlmTrace

/-- The lists of messages passed to the model. -/
def sent (es : LlmTrace) : List (List ChatMessage) := es.filterMap fun
  | ⟨.invoke msgs,_⟩ => some msgs
  | _ => none

def responses (es : LlmTrace) : List AiMessage := es.filterMap fun
  | ⟨.invoke _,.ok r⟩ => some r
  | _ => none

/-- The tools that were invoked, and on what. -/
def invoked (es : LlmTrace) : List (String × Json) := es.filterMap fun
  | ⟨.toolInvoke name args,_⟩ => some (name,args)
  | _ => none

/-- What `time.monotonic` answered. -/
def readings (es : LlmTrace) : List ℚ := es.filterMap fun
  | ⟨.monotonic,.ok now⟩ => some now
  | _ => none

variable (es es' : LlmTrace)

@[simp] theorem sent_append : sent (es ++ es') = sent es ++ sent es' := List.filterMap_append
@[simp] theorem responses_append : responses (es ++ es') = responses es ++ responses es' :=
  List.filterMap_append
@[simp] theorem invoked_append : invoked (es ++ es') = invoked es ++ invoked es' := List.filterMap_append
@[simp] theorem readings_append : readings (es ++ es') = readings es ++ readings es' :=
  List.filterMap_append

/-- The clock never goes back. -/
def Forward : Prop := (readings es).Pairwise (· ≤ ·)

variable {es es'}

theorem Forward.left (h : Forward (es ++ es')) : Forward es := by
  rw [Forward,readings_append] at h
  exact (List.pairwise_append.mp h).1

theorem Forward.right (h : Forward (es ++ es')) : Forward es' := by
  rw [Forward,readings_append] at h
  exact (List.pairwise_append.mp h).2.1

end LlmTrace

open LlmTrace

/-- A call as its trace names it. -/
def ToolTrace.call (t : ToolTrace) : ℕ × String × Json := (t.iteration,t.toolName,t.arguments)

def ToolCall.inIteration (i : ℕ) (c : ToolCall) : ℕ × String × Json := (i,c.name,c.args)

/-- The calls of the responses that the iterations from `i` on run. -/
def executedFrom (i : ℕ) : List AiMessage → List (ℕ × String × Json)
  | [] => []
  | r :: rs => r.toolCalls.map (ToolCall.inIteration i) ++ executedFrom (i + 1) rs

/-- Of these calls, the ones that a tool of the agent is invoked for. -/
def LlmAgentSpec.invokes (s : LlmAgentSpec) (calls : List (ℕ × String × Json)) : List (String × Json) :=
  (calls.filter (·.2.1 ∈ s.tools)).map (·.2)

theorem LlmAgentSpec.invokes_append (s : LlmAgentSpec) (calls calls' : List (ℕ × String × Json)) :
    s.invokes (calls ++ calls') = s.invokes calls ++ s.invokes calls' := by
  rw [invokes,List.filter_append,List.map_append]
  rfl

/-- What the table and the repository ask of a trace. -/
structure ToolTrace.Storable (t : ToolTrace) : Prop where
  first : 1 ≤ t.iteration
  last : t.iteration ≤ 10
  duration : 0 ≤ t.durationMs
  explained : t.status = .success ∨ t.error.getD "" ≠ ""

namespace ToolTrace

theorem Storable.check {t : ToolTrace} (h : t.Storable) (messageId : ℕ) (agentId : AgentId) :
    (t.row messageId agentId).check = true := by
  have herr : t.status = .success ∨ t.error.isSome = true := by
    rcases h.explained with hs | he
    · exact .inl hs
    · cases ht : t.error with
      | none => exact absurd (by rw [ht,Option.getD_none]) he
      | some e => exact .inr rfl
  simp only [ToolExecution.check,row,h.first,h.last,h.duration,decide_true,Bool.true_and,Bool.or_eq_true]
  exact herr.imp_left decide_eq_true

theorem checkTraces_of_storable {ts : List ToolTrace} (h : ∀ t ∈ ts, t.Storable) :
    ToolExecutionRepository.checkTraces ts = pure () := by
  induction ts with
  | nil => rfl
  | cons t ts ih =>
    have hok : ¬ (t.status ≠ .success ∧ t.error.getD "" = "") := fun hbad =>
      (h t List.mem_cons_self).explained.elim hbad.1 fun he => he hbad.2
    rw [ToolExecutionRepository.checkTraces,if_neg hok]
    exact ih fun t' ht' => h t' (List.mem_cons_of_mem _ ht')

end ToolTrace

namespace LlmAgentHandler

variable {b : FrameParser.Builtins} {s : LlmAgentSpec}

theorem milliseconds_nonneg {q : ℚ} (h : 0 ≤ q) : 0 ≤ milliseconds q := by
  rw [milliseconds,if_pos h]
  exact Int.floor_nonneg.mpr (mul_nonneg h (by norm_num))

/-- Calls that do not invoke the model. -/
def Aside (o : LlmOp) : Prop := ∀ msgs, o ≠ .invoke msgs

theorem sent_of_aside {es : LlmTrace} (h : ∀ e ∈ es, Aside e.1) : sent es = [] ∧ responses es = [] := by
  constructor
  · refine List.filterMap_eq_nil_iff.mpr fun e he => ?_
    obtain ⟨o,r⟩ := e
    cases o with
    | invoke msgs => exact absurd rfl (h _ he msgs)
    | monotonic => rfl
    | toolInvoke name args => rfl
  · refine List.filterMap_eq_nil_iff.mpr fun e he => ?_
    obtain ⟨o,r⟩ := e
    cases o with
    | invoke msgs => exact absurd rfl (h _ he msgs)
    | monotonic => rfl
    | toolInvoke name args => rfl

theorem outcome_aside (c : ToolCall) : All Aside (outcome b s c) := by
  unfold outcome
  split
  · exact All.bind ((all_perform _).mpr nofun) fun _ => trivial
  · trivial

theorem turnOf_aside (t0 : ℚ) (traces : List ToolTrace) (default : String) (r : AiMessage) :
    All Aside (turnOf b s t0 traces default r) :=
  All.bind (all_settle _) fun _ => All.bind ((all_perform _).mpr nofun) fun _ => trivial

theorem runCall_aside (i : ℕ) (c : ToolCall) (st : Loop) : All Aside (runCall b s i c st) := by
  refine All.bind ((all_perform _).mpr nofun) fun _ => All.bind (outcome_aside c) fun _ =>
    All.bind ((all_perform _).mpr nofun) fun _ => ?_
  dsimp only
  split <;> trivial

theorem runCalls_aside (i : ℕ) (cs : List ToolCall) (st : Loop) : All Aside (runCalls b s i cs st) := by
  induction cs generalizing st with
  | nil => trivial
  | cons c cs ih => exact All.bind (runCall_aside i c st) fun st' => ih st'

/-- What running the calls of one response does to the loop. -/
structure Ran (s : LlmAgentSpec) (i : ℕ) (cs : List ToolCall) (es : LlmTrace) (st st' : Loop) : Prop where
  answers : ∃ rs, st'.msgs = st.msgs ++ rs ∧ (∀ m ∈ rs, m.asks = none) ∧
    rs.filterMap ChatMessage.answers = cs.map (·.id)
  traces : ∃ new, st'.traces = st.traces ++ new ∧ new.map ToolTrace.call = cs.map (ToolCall.inIteration i) ∧
    (Forward es → 1 ≤ i → i ≤ 10 → ∀ t ∈ new, t.Storable)
  invoked : invoked es = s.invokes (cs.map (ToolCall.inIteration i))

theorem outcome_runs {c : ToolCall} {es : LlmTrace} {out : String} {status : ToolStatus} {err : Option String}
    (h : Runs (outcome b s c) es (.ok (out,status,err))) :
    readings es = [] ∧ (status = .success ∨ err.getD "" ≠ "") ∧
      ∀ i, invoked es = s.invokes [c.inIteration i] := by
  unfold outcome at h
  split at h
  · rename_i hknown
    rcases Runs.of_bind h with ⟨e,-,he⟩ | ⟨answer,es₁,es₂,h₁,h₂,rfl⟩
    · cases he
    · obtain rfl := Runs.of_perform h₁
      obtain ⟨rfl,hout⟩ := Runs.of_pure h₂
      cases hout
      exact ⟨rfl,.inl rfl,fun i => by simp [hknown,LlmTrace.invoked,LlmAgentSpec.invokes,ToolCall.inIteration]⟩
  · rename_i hunknown
    obtain ⟨rfl,hout⟩ := Runs.of_pure h
    cases hout
    exact ⟨rfl,.inr (by decide),fun i => by
      simp [hunknown,LlmTrace.invoked,LlmAgentSpec.invokes,ToolCall.inIteration]⟩

theorem runCall_ran {i : ℕ} {c : ToolCall} {st st' : Loop} {es : LlmTrace}
    (h : Runs (runCall b s i c st) es (.ok st')) : Ran s i [c] es st st' := by
  unfold runCall at h
  rcases Runs.of_bind h with ⟨e,-,he⟩ | ⟨tstart,es₁,es₂,hstart,hrest,rfl⟩
  · cases he
  rcases Runs.of_bind hrest with ⟨e,-,he⟩ | ⟨⟨out,status,err⟩,es₃,es₄,houtcome,hrest',rfl⟩
  · cases he
  rcases Runs.of_bind hrest' with ⟨e,-,he⟩ | ⟨tend,es₅,es₆,hend,hlast,rfl⟩
  · cases he
  obtain rfl := Runs.of_perform hstart
  obtain rfl := Runs.of_perform hend
  obtain ⟨hquiet,hexplained,hinvoked⟩ := outcome_runs houtcome
  dsimp only at hlast
  rcases hid : c.id with _ | id
  · rw [hid] at hlast
    obtain ⟨-,hout⟩ := Runs.of_throw hlast
    cases hout
  · rw [hid] at hlast
    obtain ⟨rfl,hout⟩ := Runs.of_pure hlast
    cases hout
    refine ⟨⟨_,rfl,by simp [ChatMessage.asks],by simp [ChatMessage.answers,hid]⟩,⟨_,rfl,rfl,?_⟩,?_⟩
    · intro hforward hfirst hlast t ht
      obtain rfl := List.mem_singleton.mp ht
      have hle : tstart ≤ tend := by
        simp only [Forward,readings_append,hquiet] at hforward
        exact List.pairwise_pair.mp hforward
      exact ⟨hfirst,hlast,milliseconds_nonneg (sub_nonneg.mpr hle),hexplained⟩
    · simpa [LlmTrace.invoked] using hinvoked i

theorem runCalls_ran {i : ℕ} {cs : List ToolCall} {st st' : Loop} {es : LlmTrace}
    (h : Runs (runCalls b s i cs st) es (.ok st')) : Ran s i cs es st st' := by
  induction cs generalizing st es with
  | nil =>
    obtain ⟨rfl,hout⟩ := Runs.of_pure h
    cases hout
    exact ⟨⟨[],by simp⟩,⟨[],by simp⟩,rfl⟩
  | cons c cs ih =>
    rcases Runs.of_bind h with ⟨e,-,he⟩ | ⟨st₁,es₁,es₂,h₁,h₂,rfl⟩
    · cases he
    obtain ⟨⟨rs₁,hm₁,hq₁,ha₁⟩,⟨new₁,ht₁,hc₁,hs₁⟩,hi₁⟩ := runCall_ran h₁
    obtain ⟨⟨rs₂,hm₂,hq₂,ha₂⟩,⟨new₂,ht₂,hc₂,hs₂⟩,hi₂⟩ := ih h₂
    refine ⟨⟨rs₁ ++ rs₂,by rw [hm₂,hm₁,List.append_assoc],?_,?_⟩,
      ⟨new₁ ++ new₂,by rw [ht₂,ht₁,List.append_assoc],?_,?_⟩,?_⟩
    · exact fun m hm => (List.mem_append.mp hm).elim (hq₁ m) (hq₂ m)
    · rw [List.filterMap_append,ha₁,ha₂]
      rfl
    · rw [List.map_append,hc₁,hc₂]
      rfl
    · intro hforward hfirst hlast t ht
      rcases List.mem_append.mp ht with ht | ht
      · exact hs₁ hforward.left hfirst hlast t ht
      · exact hs₂ hforward.right hfirst hlast t ht
    · rw [invoked_append,hi₁,hi₂,← s.invokes_append]
      rfl

theorem turnOf_turn {t0 : ℚ} {traces : List ToolTrace} {default : String} {r : AiMessage} {es : LlmTrace}
    {turn : LlmReply} (h : Runs (turnOf b s t0 traces default r) es (.ok turn)) :
    turn.toolTraces = traces ∧ invoked es = [] := by
  unfold turnOf at h
  rcases Runs.of_bind h with ⟨e,-,he⟩ | ⟨text,es₁,es₂,htext,hrest,rfl⟩
  · cases he
  rcases Runs.of_bind hrest with ⟨e,-,he⟩ | ⟨now,es₃,es₄,hnow,hlast,rfl⟩
  · cases he
  obtain ⟨rfl,-⟩ := Runs.of_settle htext
  obtain rfl := Runs.of_perform hnow
  obtain ⟨rfl,hout⟩ := Runs.of_pure hlast
  cases hout
  exact ⟨rfl,rfl⟩

/-- What a stretch of the handler sends, and what it adds to the traces of the turn. -/
structure Sends (s : LlmAgentSpec) (i n : ℕ) (traces : List ToolTrace) (es : LlmTrace)
    (out : Except Exn LlmReply) : Prop where
  answered : ∀ msgs ∈ sent es, Answered msgs
  length : (sent es).length ≤ n + 1
  traced : ∀ turn, out = .ok turn → ∃ new, turn.toolTraces = traces ++ new ∧
    new.map ToolTrace.call = executedFrom i ((responses es).take n) ∧
    invoked es = s.invokes (new.map ToolTrace.call) ∧
    (Forward es → 1 ≤ i → i + n ≤ 11 → ∀ t ∈ new, t.Storable)

/-- A turn that an exception ends, before the model is invoked again. -/
theorem sends_raised {i n : ℕ} {traces : List ToolTrace} {msgs : List ChatMessage} {e : Exn} {es : LlmTrace}
    {r : Except Exn (LlmOp.Ans (.invoke msgs))} (hm : Answered msgs) (hsent : sent es = []) :
    Sends s i n traces (⟨.invoke msgs,r⟩ :: es) (.error e) := by
  have hsent' : sent (⟨.invoke msgs,r⟩ :: es) = [msgs] := congrArg (msgs :: ·) hsent
  refine ⟨?_,?_,nofun⟩
  · rw [hsent']
    exact List.forall_mem_singleton.mpr hm
  · rw [hsent']
    exact Nat.succ_le_succ (Nat.zero_le n)

/-- The response that ends the turn. -/
theorem sends_turnOf {i n : ℕ} {t0 : ℚ} {traces : List ToolTrace} {msgs : List ChatMessage} {default : String}
    {r : AiMessage} {es : LlmTrace} {out : Except Exn LlmReply} (hm : Answered msgs)
    (hr : n = 0 ∨ r.toolCalls = []) (h : Runs (turnOf b s t0 traces default r) es out) :
    Sends s i n traces (⟨.invoke msgs,.ok r⟩ :: es) out := by
  obtain ⟨hsent,hresponses⟩ := sent_of_aside (h.all (turnOf_aside ..))
  have hsent' : sent (⟨.invoke msgs,.ok r⟩ :: es) = msgs :: sent es := rfl
  have hresponses' : responses (⟨.invoke msgs,.ok r⟩ :: es) = r :: responses es := rfl
  refine ⟨?_,?_,?_⟩
  · rw [hsent',hsent]
    exact List.forall_mem_singleton.mpr hm
  · rw [hsent',hsent]
    exact Nat.succ_le_succ (Nat.zero_le n)
  · rintro turn rfl
    obtain ⟨hturn,hinvoked⟩ := turnOf_turn h
    refine ⟨[],by rw [hturn,List.append_nil],?_,hinvoked,by simp⟩
    rw [hresponses',hresponses]
    rcases hr with rfl | hr
    · rfl
    · cases n <;> simp [executedFrom,hr]

/-- One iteration: the loop goes on with the calls of the response answered. -/
theorem answered_ran {i : ℕ} {r : AiMessage} {es : LlmTrace} {st st' : Loop} (hm : Answered st.msgs)
    (h : Ran s i r.toolCalls es { st with msgs := st.msgs ++ [.ai r] } st') : Answered st'.msgs := by
  obtain ⟨rs,hmsgs,hquiet,hanswers⟩ := h.answers
  rw [hmsgs,List.append_assoc]
  exact hm.append_asking rfl hquiet hanswers

/-- An iteration, and what comes after it. -/
theorem Sends.iteration {i n : ℕ} {r : AiMessage} {es₁ es₂ : LlmTrace} {st st' : Loop}
    {out : Except Exn LlmReply} (hm : Answered st.msgs) (hsent : sent es₁ = []) (hresponses : responses es₁ = [])
    (hran : Ran s i r.toolCalls es₁ { st with msgs := st.msgs ++ [.ai r] } st')
    (h : Sends s (i + 1) n st'.traces es₂ out) :
    Sends s i (n + 1) st.traces (⟨.invoke st.msgs,.ok r⟩ :: (es₁ ++ es₂)) out := by
  have hsent' : sent (⟨.invoke st.msgs,.ok r⟩ :: (es₁ ++ es₂)) = st.msgs :: sent es₂ := by
    change st.msgs :: sent (es₁ ++ es₂) = _
    rw [sent_append,hsent,List.nil_append]
  have hresponses' : responses (⟨.invoke st.msgs,.ok r⟩ :: (es₁ ++ es₂)) = r :: responses es₂ := by
    change r :: responses (es₁ ++ es₂) = _
    rw [responses_append,hresponses,List.nil_append]
  have hinvoked' : invoked (⟨.invoke st.msgs,.ok r⟩ :: (es₁ ++ es₂)) = invoked es₁ ++ invoked es₂ :=
    invoked_append es₁ es₂
  have hreadings : readings (⟨.invoke st.msgs,.ok r⟩ :: (es₁ ++ es₂)) = readings (es₁ ++ es₂) := rfl
  refine ⟨?_,?_,?_⟩
  · rw [hsent']
    exact List.forall_mem_cons.mpr ⟨hm,h.answered⟩
  · rw [hsent']
    exact Nat.succ_le_succ h.length
  · intro turn hout
    obtain ⟨new,htraces,hcalls,hinvoked,hstorable⟩ := h.traced turn hout
    obtain ⟨new₁,htraces₁,hcalls₁,hstorable₁⟩ := hran.traces
    refine ⟨new₁ ++ new,by rw [htraces,htraces₁,List.append_assoc],?_,?_,?_⟩
    · rw [List.map_append,hcalls₁,hcalls,hresponses']
      rfl
    · rw [hinvoked',hran.invoked,hinvoked,List.map_append,s.invokes_append,hcalls₁]
    · intro hforward hfirst hlast t ht
      rw [Forward,hreadings] at hforward
      rcases List.mem_append.mp ht with ht | ht
      · exact hstorable₁ (Forward.left hforward) hfirst (by omega) t ht
      · exact hstorable (Forward.right hforward) (by omega) (by omega) t ht

theorem sends_iterate {t0 : ℚ} {n i : ℕ} {st : Loop} {es : LlmTrace} {out : Except Exn LlmReply}
    (hm : Answered st.msgs) (h : Runs (iterate b s t0 n i st) es out) : Sends s i n st.traces es out := by
  induction n generalizing i st es with
  | zero =>
    rcases Runs.of_bind h with ⟨e,hp,rfl⟩ | ⟨r,es₁,es₂,hp,hrest,rfl⟩
    · obtain rfl := Runs.of_perform hp
      exact sends_raised hm rfl
    · obtain rfl := Runs.of_perform hp
      exact sends_turnOf hm (.inl rfl) hrest
  | succ n ih =>
    rcases Runs.of_bind h with ⟨e,hp,rfl⟩ | ⟨r,es₁,es₂,hp,hrest,rfl⟩
    · obtain rfl := Runs.of_perform hp
      exact sends_raised hm rfl
    obtain rfl := Runs.of_perform hp
    split at hrest
    · rename_i hnone
      exact sends_turnOf hm (.inr (List.isEmpty_iff.mp hnone)) hrest
    rcases Runs.of_bind hrest with ⟨e,hcalls,rfl⟩ | ⟨st',es₃,es₄,hcalls,hnext,rfl⟩
    · exact sends_raised hm (sent_of_aside (hcalls.all (runCalls_aside ..))).1
    · obtain ⟨hsent,hresponses⟩ := sent_of_aside (hcalls.all (runCalls_aside ..))
      have hran := runCalls_ran hcalls
      have hstep := Sends.iteration hm hsent hresponses hran (ih (answered_ran hm hran) hnext)
      exact hstep

theorem answered_historyMessages (hs : List Message) {ms : List ChatMessage} (hm : Answered ms) :
    Answered (ms ++ hs.map historyMessage) := by
  induction hs generalizing ms with
  | nil => simpa using hm
  | cons h hs ih =>
    rw [List.map_cons,← List.singleton_append,← List.append_assoc]
    refine ih ?_
    unfold historyMessage
    split
    · exact hm.append_quiet (by simp [ChatMessage.asks]) (by simp [ChatMessage.answers])
    · exact hm.append_asking (rfl : _ = some []) (by simp) rfl

theorem answered_messages {history : List Message} {text : Json} {msgs : List ChatMessage}
    (h : messages s history text = .ok msgs) : Answered msgs := by
  unfold messages at h
  rcases hlast : humanMessage text with e | last
  · rw [hlast] at h
    cases h
  rw [hlast] at h
  obtain rfl := Except.ok.inj h
  have hquiet : last.asks = none ∧ last.answers = none := by
    unfold humanMessage at hlast
    split at hlast
    · cases hlast
      exact ⟨rfl,rfl⟩
    · split at hlast
      · cases hlast
        exact ⟨rfl,rfl⟩
      · cases hlast
    · cases hlast
  have hsystem : Answered [.system s.prompt] :=
    Dialogue.Answered.nil.append_quiet (by simp [ChatMessage.asks]) (by simp [ChatMessage.answers])
  exact (answered_historyMessages _ hsystem).append_quiet (by simpa using hquiet.1) (by simpa using hquiet.2)

/-- The calls that the turn executes: those of the first `max_tool_iterations` responses, of an agent
that has tools. -/
def executed (s : LlmAgentSpec) (rs : List AiMessage) : List (ℕ × String × Json) :=
  if s.tools.isEmpty then [] else executedFrom 1 (rs.take s.limits.maxToolIterations)

/-- How many iterations the tool loop of this agent may take. -/
def iterations (s : LlmAgentSpec) : ℕ := if s.tools.isEmpty then 0 else s.limits.maxToolIterations

theorem executed_eq (rs : List AiMessage) : executed s rs = executedFrom 1 (rs.take (iterations s)) := by
  unfold executed iterations
  split <;> rfl

/-- A run of the handler that reaches the model, after its first reading of the clock. -/
theorem sends_handle {history : List Message} {text : Json} {es : LlmTrace} {out : Except Exn LlmReply}
    (h : Runs (handle b s history text) es out) :
    (sent es = [] ∧ ∃ e, out = .error e) ∨
      ∃ now es', es = ⟨.monotonic,.ok now⟩ :: es' ∧ Sends s 1 (iterations s) [] es' out := by
  rcases Runs.of_bind h with ⟨e,hp,rfl⟩ | ⟨now,es₁,es₂,hp,hrest,rfl⟩
  · obtain rfl := Runs.of_perform hp
    exact .inl ⟨rfl,e,rfl⟩
  obtain rfl := Runs.of_perform hp
  rcases Runs.of_bind hrest with ⟨e,hmsgs,rfl⟩ | ⟨msgs,es₃,es₄,hmsgs,hloop,rfl⟩
  · obtain ⟨rfl,-⟩ := Runs.of_settle hmsgs
    exact .inl ⟨rfl,e,rfl⟩
  obtain ⟨rfl,hok⟩ := Runs.of_settle hmsgs
  have hm : Answered msgs := answered_messages hok.symm
  refine .inr ⟨now,es₄,rfl,?_⟩
  unfold iterations
  split at hloop
  · rename_i hnone
    rw [if_pos hnone]
    rcases Runs.of_bind hloop with ⟨e,hp',rfl⟩ | ⟨r,es₅,es₆,hp',hturn,rfl⟩
    · obtain rfl := Runs.of_perform hp'
      exact sends_raised hm rfl
    · obtain rfl := Runs.of_perform hp'
      exact sends_turnOf hm (.inl rfl) hturn
  · rename_i htools
    rw [if_neg htools]
    exact sends_iterate hm hloop

theorem iterations_le (s : LlmAgentSpec) : iterations s ≤ s.limits.maxToolIterations := by
  unfold iterations
  split
  · exact Nat.zero_le _
  · exact le_rfl

/-- In every run of the handler the model is sent lists of messages whose calls are all answered, it is
invoked at most once more than there may be iterations, and the traces of a turn are the calls that were
executed, in order, each as the repository and the table accept it. -/
theorem tool_loop_protocol {history : List Message} {text : Json} {es : LlmTrace} {out : Except Exn LlmReply}
    (hmax : s.limits.maxToolIterations ≤ 10) (hrun : Runs (handle b s history text) es out)
    (hclock : Forward es) :
    (∀ msgs ∈ sent es, Answered msgs) ∧ (sent es).length ≤ s.limits.maxToolIterations + 1 ∧
    ∀ turn, out = .ok turn →
      turn.toolTraces.map ToolTrace.call = executed s (responses es) ∧
      invoked es = s.invokes (executed s (responses es)) ∧
      ToolExecutionRepository.checkTraces turn.toolTraces = pure () ∧
      ∀ t ∈ turn.toolTraces, ∀ messageId agentId, (t.row messageId agentId).check = true := by
  rcases sends_handle hrun with ⟨hnone,e,rfl⟩ | ⟨now,es',rfl,hanswered,hlength,htraced⟩
  · rw [hnone]
    exact ⟨nofun,Nat.zero_le _,nofun⟩
  have hle := iterations_le s
  refine ⟨hanswered,hlength.trans (by omega),fun turn hout => ?_⟩
  obtain ⟨new,htraces,hcalls,hinvoked,hstorable⟩ := htraced turn hout
  rw [List.nil_append] at htraces
  subst htraces
  have hclock' : Forward ([⟨.monotonic,.ok now⟩] ++ es') := hclock
  have hforward : Forward es' := hclock'.right
  have hall := hstorable hforward le_rfl (by omega)
  have hexecuted : turn.toolTraces.map ToolTrace.call = executed s (responses es') :=
    hcalls.trans (executed_eq _).symm
  refine ⟨hexecuted,?_,ToolTrace.checkTraces_of_storable hall,fun t ht => (hall t ht).check⟩
  exact hexecuted ▸ hinvoked

namespace Sample

def lookupSpec : LlmAgentSpec where
  key := "assistant"
  kind := .llm "model"
  prompt := "Answer briefly."
  tools := ["lookup"]

/-- A model that calls a tool it has and one it has not, and then answers. -/
def lookupAnswers : (o : LlmOp) → Except Exn o.Ans
  | .monotonic => .ok (0 : ℚ)
  | .toolInvoke .. => .ok "12 schools"
  | .invoke msgs => .ok (if msgs.length = 2 then
        ({ content := .str "", toolCalls := [⟨"lookup",.obj [],some "a"⟩,⟨"search",.obj [],some "b"⟩] } : AiMessage)
      else { content := .str "There are 12." })

/-- `repr` of a text without quotes. -/
def builtins : FrameParser.Builtins := { FrameParser.knowing "" .null fun _ => none with
  repr := fun
    | .str s => "'" ++ s ++ "'"
    | _ => "None"
  repr_ne := by
    intro v
    cases v <;> simp }

def lookup : LlmProc LlmReply := handle builtins lookupSpec [] (.str "How many?")

def lookupTrace : LlmTrace := (lookup.calls lookupAnswers).map fun o => ⟨o,lookupAnswers o⟩

end Sample

theorem tool_loop_protocol_lookup :
    (∀ msgs ∈ sent Sample.lookupTrace, Answered msgs) ∧
    ∃ turn, Sample.lookup.answered Sample.lookupAnswers = .ok turn ∧
      turn.toolTraces.map ToolTrace.call = [(1,"lookup",.obj []),(1,"search",.obj [])] ∧
      ToolExecutionRepository.checkTraces turn.toolTraces = pure () := by
  have hclock : Forward Sample.lookupTrace := by
    change (readings Sample.lookupTrace).Pairwise (· ≤ ·)
    decide +kernel
  obtain ⟨hanswered,-,hturn⟩ := tool_loop_protocol (by decide) (Runs.answered Sample.lookupAnswers Sample.lookup)
    hclock
  obtain ⟨hcalls,-,hcheck,-⟩ := hturn _ rfl
  exact ⟨hanswered,_,rfl,hcalls.trans rfl,hcheck⟩

end LlmAgentHandler

end Saarathi
