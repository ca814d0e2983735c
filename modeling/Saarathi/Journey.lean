import Saarathi.Catalogue
import Saarathi.TranscriptPages
import Mathlib.Data.List.Chain

/-!
# The agent journey

A conversation shows the agents that answered in it as a row of stops, one for each
time that another agent took over. The stops are computed anew from the messages
whenever they are shown.
-/

namespace Saarathi

open Machine Program Program.Prog Interleaving ReadCommitted

section Collapse

variable {A B : Type} [DecidableEq A]

/-- The loop of `distinct_agent_sequence`. -/
def collapse (as : List A) : List A :=
  as.foldl (fun stops a => if stops.getLast? = some a then stops else stops ++ [a]) []

variable {as bs : List A} {a : A}

theorem collapse_concat : collapse (as ++ [a]) =
    if (collapse as).getLast? = some a then collapse as else collapse as ++ [a] := by
  rw [collapse,List.foldl_append]
  rfl

theorem getLast?_collapse : (collapse as).getLast? = as.getLast? := by
  induction as using List.reverseRecOn with
  | nil => rfl
  | append_singleton as a ih =>
    rw [collapse_concat,List.getLast?_concat]
    split
    · assumption
    · exact List.getLast?_concat

theorem collapse_grows_concat : collapse as <+: collapse (as ++ [a]) := by
  rw [collapse_concat]
  split
  · exact List.prefix_rfl
  · exact List.prefix_append ..

/-- What was collapsed stays, whatever comes after it. -/
theorem collapse_grows (h : as <+: bs) : collapse as <+: collapse bs := by
  obtain ⟨cs,rfl⟩ := h
  induction cs using List.reverseRecOn with
  | nil => simp only [List.append_nil,List.prefix_rfl]
  | append_singleton cs c ih =>
    rw [← List.append_assoc]
    exact ih.trans collapse_grows_concat

theorem mem_collapse : a ∈ collapse as ↔ a ∈ as := by
  induction as using List.reverseRecOn with
  | nil => rfl
  | append_singleton as b ih =>
    rw [collapse_concat]
    split
    · rename_i hlast
      have hb : b ∈ collapse as := List.mem_of_getLast? hlast
      rw [List.mem_append,List.mem_singleton,← ih]
      constructor
      · exact .inl
      · rintro (h | rfl)
        · exact h
        · exact hb
    · rw [List.mem_append,List.mem_append,ih]

/-- No two neighbours are equal. -/
theorem isChain_collapse : (collapse as).IsChain (· ≠ ·) := by
  induction as using List.reverseRecOn with
  | nil => exact List.IsChain.nil
  | append_singleton as a ih =>
    rw [collapse_concat]
    split
    · exact ih
    · rename_i hlast
      refine ih.append (List.IsChain.singleton a) fun x hx y hy => ?_
      rintro rfl
      obtain rfl : a = x := by simpa using hy
      exact hlast hx

omit [DecidableEq A] in
/-- Neighbours stay different under a renaming that tells the elements apart. -/
theorem isChain_filterMap {f : A → Option B} (h : as.IsChain (· ≠ ·)) (hf : ∀ a ∈ as, f a ≠ none)
    (hinj : ∀ a a' b, f a = some b → f a' = some b → a = a') : (as.filterMap f).IsChain (· ≠ ·) := by
  induction as with
  | nil => exact List.IsChain.nil
  | cons a as ih =>
    obtain ⟨b,hb⟩ := Option.ne_none_iff_exists'.mp (hf a List.mem_cons_self)
    have hrest := ih h.tail fun a' ha' => hf a' (List.mem_cons_of_mem a ha')
    rw [List.filterMap_cons_some hb]
    cases as with
    | nil => exact List.IsChain.singleton b
    | cons a' as =>
      obtain ⟨b',hb'⟩ := Option.ne_none_iff_exists'.mp (hf a' (List.mem_cons_of_mem a List.mem_cons_self))
      rw [List.filterMap_cons_some hb'] at hrest ⊢
      refine List.isChain_cons_cons.mpr ⟨?_,hrest⟩
      rintro rfl
      exact (List.isChain_cons_cons.mp h).1 (hinj a a' b hb hb')

omit [DecidableEq A] in
/-- The last value, where every element has one. -/
theorem getLast?_filterMap_of_some {f : A → Option B} (h : ∀ a ∈ as, f a ≠ none) :
    (as.filterMap f).getLast? = as.getLast?.bind f := by
  induction as using List.reverseRecOn with
  | nil => rfl
  | append_singleton as a ih =>
    obtain ⟨b,hb⟩ := Option.ne_none_iff_exists'.mp (h a (List.mem_append_right _ (List.mem_singleton_self a)))
    rw [List.filterMap_append,List.filterMap_cons_some hb,List.filterMap_nil,List.getLast?_concat,
      List.getLast?_concat,Option.bind_some,hb]

end Collapse

/-- The agents' display names, of those whose ids are asked for. -/
def Catalogue.resolveAgentNames (cat : Catalogue) (ids : List AgentId) : List (AgentId × String) :=
  (cat.agents.filter (·.id ∈ ids)).map fun a => (a.id,a.name)

structure FlowPayload where
  title : Option String
  stops : List String
  currentIndex : ℤ

namespace Database

variable (db : Database) (x : Conn)

def distinctAgentSequence (c : ConversationId) : List AgentId :=
  collapse ((db.transcript x c).filterMap (·.new.agentId))

def flowPayload (cat : Catalogue) (c : ConversationId) : FlowPayload :=
  let title := (db.conversations.select x (·.id = c)).head?.bind (·.title)
  let agentIds := db.distinctAgentSequence x c
  let agentNames := cat.resolveAgentNames agentIds
  let stops := agentIds.filterMap fun aid => agentNames.lookup aid
  { title := title
    stops := stops
    currentIndex := if stops.isEmpty then -1 else (stops.length : ℤ) - 1 }

end Database

/-- The name of an agent. -/
def Catalogue.nameOf (cat : Catalogue) (id : AgentId) : Option String := (cat.agents.find? (·.id = id)).map (·.name)

namespace Catalogue

variable {cat : Catalogue} {id id' : AgentId} {ids : List AgentId} {name : String}

theorem lookup_resolveAgentNames (h : id ∈ ids) : (cat.resolveAgentNames ids).lookup id = cat.nameOf id := by
  rw [resolveAgentNames,nameOf]
  induction cat.agents with
  | nil => rfl
  | cons a as ih =>
    by_cases ha : a.id = id
    · have hfilter : (a :: as).filter (·.id ∈ ids) = a :: as.filter (·.id ∈ ids) :=
        List.filter_cons_of_pos (by simpa [ha] using h)
      rw [hfilter,List.map_cons]
      rw [ha,List.lookup_cons_self,List.find?_cons_of_pos (by simpa using ha),Option.map_some]
    · rw [List.find?_cons_of_neg (by simpa using ha),← ih]
      by_cases hmem : a.id ∈ ids
      · have hfilter : (a :: as).filter (·.id ∈ ids) = a :: as.filter (·.id ∈ ids) :=
          List.filter_cons_of_pos (by simpa using hmem)
        have hne : (id == a.id) = false := by simpa using Ne.symm ha
        rw [hfilter,List.map_cons]
        rw [List.lookup_cons,hne]
      · have hfilter : (a :: as).filter (·.id ∈ ids) = as.filter (·.id ∈ ids) :=
          List.filter_cons_of_neg (by simpa using hmem)
        rw [hfilter]

/-- Two agents do not share a name. -/
theorem nameOf_inj (h : cat.nameOf id = some name) (h' : cat.nameOf id' = some name) : id = id' := by
  obtain ⟨a,ha,hname⟩ := Option.map_eq_some_iff.mp h
  obtain ⟨a',ha',hname'⟩ := Option.map_eq_some_iff.mp h'
  have heq : a = a' := List.inj_on_of_nodup_map cat.agent_name (List.mem_of_find?_eq_some ha)
    (List.mem_of_find?_eq_some ha') (hname.trans hname'.symm)
  have hid : a.id = id := by simpa using List.find?_some ha
  have hid' : a'.id = id' := by simpa using List.find?_some ha'
  rw [← hid,← hid',heq]

end Catalogue

/-- A message is the user's, or that of the agent that answered. -/
def NewMessage.Spoken (m : NewMessage) : Prop :=
  m.role = .user ∧ m.agentId = none ∨ m.role = .assistant ∧ m.agentId ≠ none

namespace Journey

variable {d : Deployment} {α : Type} {conv : Conversation}

def Op.Speaks (o : Op) : Prop := ∀ m, o = .stmt (.insertMessage m) → m.Spoken

def spec : Spec Op Op.Ans Exn Unit where
  pre o _ := Op.Speaks o
  post o _ r _ := o.sure = true → ∃ a, r = .ok a

abbrev Speaking (p : Proc α) : Prop := Keeps spec (fun _ => True) p

theorem call_speaking {o : Op} (h : Op.Speaks o) : Keeps.Call spec (fun _ => True) o :=
  fun _ _ _ _ => ⟨h,fun _ _ _ => trivial⟩

theorem call_calm {o : Op} (h : o.calm = true) : Keeps.Call spec (fun _ => True) o := by
  refine call_speaking ?_
  rintro m rfl
  cases h

theorem calm_speaking {p : Proc α} (h : Calm p) : Speaking p := h.keeps fun _ => call_calm

theorem stmt_speaking {s : Stmt} (h : ∀ m, s ≠ .insertMessage m) : Speaking (stmt s) :=
  Keeps.perform (call_speaking fun m hm => absurd (Op.stmt.inj hm) (h m))

theorem insert_speaking {m : NewMessage} (h : m.Spoken) : Speaking (MessageRepository.insert m) := by
  refine Keeps.perform (call_speaking ?_)
  rintro m' hm
  obtain rfl := Stmt.insertMessage.inj (Op.stmt.inj hm)
  exact h

theorem nextSeq_speaking (c : ConversationId) : Speaking (ConversationRepository.nextSeqForUpdate c) := by
  refine Keeps.bind (stmt_speaking fun _ h => by cases h) fun rows => ?_
  rcases rows with _ | ⟨n,_ | ⟨n',rest⟩⟩
  · exact Keeps.throw _
  · exact Keeps.pure n
  · exact Keeps.throw _

theorem touch_speaking {c : ConversationId} {title : Option Json} : Speaking (ConversationRepository.touch c title) :=
  stmt_speaking fun _ h => by cases h

open OrchestrationService

theorem recordUserMessage_speaking (inp : TurnInput) : Speaking (recordUserMessage inp conv) := by
  refine Keeps.bind (nextSeq_speaking _) fun seq => Keeps.bind (insert_speaking (.inl ⟨rfl,rfl⟩)) fun id => ?_
  split
  · exact touch_speaking
  · have htitle : Speaking (conversationTitle inp.text) := calm_speaking (conversationTitle_calm _)
    exact Keeps.bind htitle fun title => Keeps.bind touch_speaking fun _ =>
      Keeps.bind htitle fun title' => stmt_speaking fun _ h => by cases h

theorem storeReply_speaking (inp : TurnInput) (decision : RouteDecision) (agent : RegisteredAgent) (turn : AgentTurn)
    (session : Option AgentSession) : Speaking (storeReply inp conv decision agent turn session) := by
  refine Keeps.bind (nextSeq_speaking _) fun seq => Keeps.bind (insert_speaking (.inr ⟨rfl,by simp⟩)) fun id => ?_
  refine Keeps.bind (calm_speaking (Calm.branch (bulkInsert_calm ..) (.pure _))) fun _ => ?_
  split
  · refine Keeps.bind touch_speaking fun _ => ?_
    exact Keeps.bind (calm_speaking (agentFallbackTitle_calm agent)) fun title => stmt_speaking fun _ h => by cases h
  · exact Keeps.bind (calm_speaking (conversationTitle_calm _)) fun title => touch_speaking

theorem storeRecovered_speaking (session : AgentSession) (agent : RegisteredAgent) (result : Reconciliation) :
    Speaking (storeRecovered session agent result) := by
  have happly := (SessionService.apply_calls session { state := .awaitingUser }).within
  refine Keeps.bind (nextSeq_speaking _) fun seq => Keeps.bind (insert_speaking (.inr ⟨rfl,by simp⟩)) fun id => ?_
  refine Keeps.bind (calm_speaking (.of_within happly (by decide))) fun updated => ?_
  refine Keeps.bind touch_speaking fun _ => ?_
  exact Keeps.bind (calm_speaking (.perform rfl)) fun _ => Keeps.pure _

theorem handleTurnLocked_speaking (inp : TurnInput) : Speaking (handleTurnLocked d inp conv) := by
  have hcommit : Speaking (perform Op.commit : Proc Unit) := calm_speaking (.perform rfl)
  refine Keeps.bind (recordUserMessage_speaking inp) fun _ => ?_
  refine Keeps.bind (calm_speaking (routeTurn_calm ..)) ?_
  rintro ⟨decision,agent⟩
  refine Keeps.bind (calm_speaking (admitTurn_calm ..)) ?_
  rintro ⟨session,history⟩
  refine Keeps.bind hcommit fun _ => ?_
  refine Keeps.bind (calm_speaking (runHandler_calm ..)) fun turn => ?_
  refine Keeps.bind (calm_speaking (settleTurn_calm ..)) fun session => ?_
  refine Keeps.bind (storeReply_speaking inp decision agent turn session) fun _ => ?_
  exact Keeps.bind hcommit fun _ => Keeps.pure _

theorem handleTurn_speaking (inp : TurnInput) : Speaking (handleTurn d inp) := by
  have hget : Speaking (ConversationRepository.getOrCreate inp.conversationId inp.user) :=
    calm_speaking (.of_within (ConversationRepository.getOrCreate_calls ..).within (by decide))
  refine Keeps.bind hget fun conv => Keeps.bind (stmt_speaking fun _ h => by cases h) fun locked => ?_
  split
  · refine Keeps.ensuring (handleTurnLocked_speaking inp) ?_
    exact Keeps.bind (Keeps.attempt (stmt_speaking fun _ h => by cases h)) fun _ => Keeps.pure _
  · exact Keeps.throw _

theorem sure : Routes.Sure spec := fun _ _ _ _ ho hpost => hpost ho

theorem prog_speaking (req : Req) : Speaking (req.prog d) :=
  Req.keeps_prog sure (fun _ => call_calm) handleTurn_speaking storeRecovered_speaking req

/-- Every version of a message is somebody's. -/
def outline (d : Deployment) : Outline (system d) anyAct Unit where
  loc _ _ := ()
  spec _ := spec
  G w := ∀ k v, w.db.messages.Version k v → v.new.Spoken
  Free _ _ := True
  Q _ _ _ := True
  rely_refl _ _ := rfl
  rely_trans _ _ _ _ _ _ := rfl
  free_rely _ _ _ _ _ := trivial
  free_end _ _ _ _ := trivial
  begin_ok _ _ req hG _ _ := ⟨hG,prog_speaking req _ trivial,fun _ _ => rfl⟩
  exec_ok := by
    intro c x o k ch r w hG hx _ hpre he
    refine ⟨fun key v hv => ?_,fun hsure => ?_,fun _ _ => rfl⟩
    · rcases (World.dbMove_of_exec he).messages_alter.version hv with hold | ⟨⟨s,hs,hstep⟩,-⟩
      · exact hG key v hold
      · exact hpre v.new (hs.trans (congrArg Op.stmt hstep.1))
    · obtain ⟨done,w₁,hp,-⟩ := World.performed_of_exec he
      exact hp.sure hsure
  env_ok := by
    intro c e w hG _ he
    rw [(World.envFrame he).db]
    exact ⟨hG,fun _ => rfl⟩

end Journey

namespace Moment

variable {d : Deployment} {w : World} (m : Moment d w)

def journey (c : ConversationId) : List AgentId := m.config.world.db.distinctAgentSequence m.conn c

def flow (c : ConversationId) (cat : Catalogue) : FlowPayload := m.config.world.db.flowPayload m.conn cat c

/-- The replies of a conversation. -/
def replies (c : ConversationId) : List Message := (m.transcript c).filter (·.new.role = .assistant)

theorem flow_stops (c : ConversationId) (cat : Catalogue) :
    (m.flow c cat).stops = (m.journey c).filterMap cat.nameOf := by
  refine List.filterMap_congr fun id hid => ?_
  exact Catalogue.lookup_resolveAgentNames hid

theorem flow_currentIndex (c : ConversationId) (cat : Catalogue) :
    (m.flow c cat).currentIndex = ((m.flow c cat).stops.length : ℤ) - 1 := by
  rw [flow,Database.flowPayload]
  dsimp only
  split
  · rename_i hempty
    rw [List.isEmpty_iff.mp hempty]
    rfl
  · rfl

variable {m} {c : ConversationId}

theorem spoken (hw : w.AtRest) (hspoken : ∀ k v, w.db.messages.Version k v → v.new.Spoken) {v : Message}
    (hv : v ∈ m.transcript c) : v.new.Spoken := by
  obtain ⟨⟨k,hk⟩,-⟩ := (m.mem_transcript hw).mp hv
  exact ((Journey.outline d).inv_of_reach m.reached hspoken fun _ => trivial).1 k v (.inl hk)

/-- The agents of a conversation's messages are those of its replies, each of which has one. -/
theorem agents_eq (hs : ∀ v ∈ m.transcript c, v.new.Spoken) :
    (m.transcript c).filterMap (·.new.agentId) = (m.replies c).filterMap (·.new.agentId) := by
  rw [replies,List.filterMap_filter]
  refine List.filterMap_congr fun v hv => ?_
  rcases hs v hv with ⟨hrole,hagent⟩ | ⟨hrole,-⟩
  · simp [hrole,hagent]
  · simp [hrole]

theorem reply_agent (hs : ∀ v ∈ m.transcript c, v.new.Spoken) {v : Message} (hv : v ∈ m.replies c) :
    v.new.agentId ≠ none := by
  obtain ⟨hmem,hrole⟩ := List.mem_filter.mp hv
  rcases hs v hmem with ⟨huser,-⟩ | ⟨-,hagent⟩
  · simp [huser] at hrole
  · exact hagent

theorem getLast?_journey (hs : ∀ v ∈ m.transcript c, v.new.Spoken) :
    (m.journey c).getLast? = (m.replies c).getLast?.bind (·.new.agentId) := by
  rw [journey,Database.distinctAgentSequence,getLast?_collapse]
  show ((m.transcript c).filterMap (·.new.agentId)).getLast? = _
  rw [agents_eq hs,getLast?_filterMap_of_some fun v hv => reply_agent hs hv]

theorem mem_journey (hs : ∀ v ∈ m.transcript c, v.new.Spoken) {a : AgentId} :
    a ∈ m.journey c ↔ ∃ v ∈ m.replies c, v.new.agentId = some a := by
  rw [journey,Database.distinctAgentSequence,mem_collapse]
  show a ∈ (m.transcript c).filterMap (·.new.agentId) ↔ _
  rw [agents_eq hs,List.mem_filterMap]

end Moment

namespace Sample

/-- The two agents of the registry. -/
def speakers : List Agent :=
  [{ id := 1, key := "assistant", name := "Saarthi" },{ id := 2, key := "story", name := "Story" }]

theorem speakers_distinct : (speakers.map (·.id)).Nodup ∧ (speakers.map (·.key)).Nodup ∧
    (speakers.map (·.name)).Nodup ∧ Agent.SingleDefault speakers := by decide

def cast : Catalogue :=
  { Catalogue.blank with
    agents := speakers
    agent_id := speakers_distinct.1
    agent_key := speakers_distinct.2.1
    agent_name := speakers_distinct.2.2.1
    single_default := speakers_distinct.2.2.2 }

end Sample

end Saarathi
