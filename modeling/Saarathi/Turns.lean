import Saarathi.Footprints

/-!
# What a turn returns

Whichever way a turn comes about, it leaves its session waiting for the user and
stores the flow of the agent that ran; only an interview ends.
-/

namespace Saarathi

open Program Program.Prog OrchestrationService

variable {d : Deployment}

/-- The turn of an agent carries the flow that the agent ran with, and ends only an interview. -/
structure TurnOf (agent : RegisteredAgent) (turn : AgentTurn) : Prop where
  flow : ∀ delta, turn.sessionDelta = some delta →
    ∃ remote, agent.spec.remote = some remote ∧ delta.remoteFlow = some remote.flowName
  state : ∀ delta, turn.sessionDelta = some delta → delta.state = .awaitingUser
  terminal : turn.terminal = true → turn.sessionDelta.isSome = true

theorem turnOf_reply (agent : RegisteredAgent) (reply : LlmReply) : TurnOf agent reply.turn := by
  constructor <;> simp [LlmReply.turn]

theorem turnOf_remote {agent : RegisteredAgent} {remote : RemoteSpec} {turn : AgentTurn}
    {delta : SessionDelta} (hr : agent.spec.remote = some remote) (ht : turn.sessionDelta = some delta)
    (hd : delta.remoteFlow = some remote.flowName) (hs : delta.state = .awaitingUser) : TurnOf agent turn where
  flow delta' hd' := by
    obtain rfl := Option.some.inj (ht.symm.trans hd')
    exact ⟨remote,hr,hd⟩
  state delta' hd' := by
    obtain rfl := Option.some.inj (ht.symm.trans hd')
    exact hs
  terminal _ := by simp [ht]

theorem returns_handle (c : ConversationId) (agent : RegisteredAgent) (user : UserContext)
    (session : Option AgentSessionView) (text : Json) :
    Returns (TurnOf agent) (handle d c agent user session text) := by
  unfold handle
  split
  · refine Returns.bind (Returns.any _) fun reply _ => ?_
    exact turnOf_reply agent reply
  · rename_i remote hkind
    have hremote : agent.spec.remote = some remote := by simp [AgentSpec.remote,hkind]
    split
    · unfold RemoteFlowAgentHandler.handle
      split
      · trivial
      · refine Returns.bind (Returns.any _) fun sess _ => ?_
        refine Returns.bind (Returns.any _) fun bot _ => ?_
        refine Returns.bind (Returns.any _) fun finished _ => ?_
        exact turnOf_remote hremote rfl rfl rfl
    · trivial

theorem returns_recoverTimedOutTurn (agent : RegisteredAgent) (session : Option AgentSession) (text : Json) :
    Returns (fun t => ∀ turn, t = some turn → TurnOf agent turn)
      (recoverTimedOutTurn d agent session text) := by
  unfold recoverTimedOutTurn
  refine Returns.bind (Returns.any _) fun result _ => ?_
  split
  · intro turn ht
    cases ht
  · intro turn ht
    cases ht
  · split
    · rename_i session remote _ hremote
      refine Returns.bind (Returns.any _) fun finished _ => ?_
      intro turn ht
      obtain rfl := Option.some.inj ht
      exact turnOf_remote hremote rfl rfl rfl
    · intro turn ht
      cases ht

theorem returns_runHandler (inp : TurnInput) (conv : Conversation) (agent : RegisteredAgent)
    (session : Option AgentSession) (history : List Message) :
    Returns (TurnOf agent) (runHandler d inp conv agent session history) := by
  have hmarked : Returns (TurnOf agent) (marked conv.id ⟨agent,session.map (·.id),inp.text,history⟩
      (handle d conv.id agent inp.user (session.map (·.toSessionView)) inp.text)) :=
    Returns.bind (Returns.any _) fun _ _ => (returns_handle ..).ensuring
  refine Returns.bind hmarked.attempt fun r hr => ?_
  split
  · exact hr _ rfl
  · refine Returns.bind (returns_recoverTimedOutTurn ..) fun t ht => ?_
    cases t with
    | none => trivial
    | some turn => exact ht turn rfl
  · trivial

end Saarathi
