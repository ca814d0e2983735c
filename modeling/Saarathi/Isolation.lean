import Saarathi.Leftovers
import Saarathi.Requests

/-!
# Isolation of callers

A caller's conversations, their sessions and their messages are out of reach of
every other caller, however the requests interleave.
-/

namespace Saarathi

open Machine Program Interleaving ReadCommitted

namespace Confinement

variable {d : Deployment} {P : Owner → Prop} {x y : Conn} {w w' : World}

namespace Aside

theorem refl (w : World) : Aside P x w w := ⟨.of_db rfl,rfl⟩

theorem trans {w'' : World} (h₁ : Aside P x w w') (h₂ : Aside P x w' w'') : Aside P x w w'' :=
  ⟨h₁.toUp.trans h₂.toUp,h₂.events.trans h₁.events⟩

theorem of_begin {req : Req} (hy : y ≠ x) : Aside P x w ((system d).begin w y req) :=
  ⟨.of_db rfl,by simp [system,Function.update_of_ne hy.symm]⟩

theorem of_exec {o : Op} {ch : Choice} {r : Except Exn o.Ans} (hy : y ≠ x)
    (he : w.exec d y o ch = some (r,w')) : Aside P x w w' := by
  have hm := World.dbMove_of_exec he
  refine ⟨⟨hm.steady,hm.ownWrites_of_ne hy⟩,?_⟩
  obtain ⟨done,w₁,hp,rfl⟩ := World.performed_of_exec he
  simp [World.record,hp.events,Function.update_of_ne hy.symm]

theorem of_env {e : World.EnvAct} (he : w.env d e = some w') : Aside P x w w' := by
  have hf := World.envFrame he
  exact ⟨.of_db hf.db,by rw [hf.events]⟩

end Aside

/-- A call that stays with users of `P`. -/
theorem answered_of_exec {o : Op} {ch : Choice} {r : Except Exn o.Ans} (ha : w.db.Attributed)
    (hpre : (spec d P x).pre o w) (he : w.exec d x o ch = some (r,w')) : Answered d P x o w r w' where
  attributed := ha
  exec := ⟨ch,he⟩
  writes := (World.dbMove_of_exec he).ownWrites ha (fun _ hs => hpre.1.stmt hs) hpre.2

theorem attributed_step {c c' : Config} {a : Action} (h : c.world.db.Attributed)
    (hs : Stepped (system d) c a c') : c'.world.db.Attributed := by
  cases hs with
  | start hx => exact h
  | call hx he => exact (World.dbMove_of_exec he).attributed h
  | finish hx hp => exact h
  | env he =>
    rename_i e w'
    change w'.db.Attributed
    rw [(World.envFrame he).db]
    exact h

/-- One request on behalf of a user of `P`, whatever the others do. -/
def solo (d : Deployment) (P : Owner → Prop) (x : Conn) : Solo (system d) anyAct x World where
  loc w := w
  spec := spec d P x
  G c := c.world.db.Attributed
  rely_refl := .refl
  rely_trans _ _ _ := .trans
  G_step _ _ _ hG _ hs := attributed_step hG hs
  call_ok _ _ _ _ _ _ hG _ _ hpre he := answered_of_exec hG hpre he
  start_ok _ _ _ hy _ _ := Aside.of_begin hy
  other_ok _ _ _ _ _ _ _ hy _ _ _ he := .of_exec hy he
  env_ok _ _ _ _ _ he := .of_env he

theorem own_of_idle (h : w.db.Idle x) : Own P x w where
  conversation k v hd := absurd hd (h.conversations k v)
  session k v hd := absurd hd (h.sessions k v)
  message k v hd := absurd hd (h.messages k v)

theorem own_of_start {c₀ c₁ : Config} {req : Req} (hw : w.AtRest)
    (h₀ : Reach (step (system d)) anyAct (idle w) c₀) (h₁ : step (system d) c₀ (.start x req) = some c₁) :
    Own P x c₁.world := by
  cases stepped_of_step h₁ with
  | start hx => exact own_of_idle (requests_leave_nothing hw.idle h₀ (.inl hx))

/-- The database as it was, apart from what is of users of `P`. -/
structure Beyond (P : Owner → Prop) (db₀ db : Database) : Prop where
  attributed : db.Attributed
  conversations : Table.Apart (fun v => P v.owner) db₀.conversations db.conversations
  sessions : Table.Apart (fun v => db.Owns P v.conversationId) db₀.sessions db.sessions
  messages : Table.Apart (fun v => db.Owns P v.new.conversationId) db₀.messages db.messages

namespace Beyond

variable {db₀ db db' : Database}

theorem refl (h : db.Attributed) : Beyond P db db := ⟨h,.refl,.refl,.refl⟩

theorem exec {o : Op} {ch : Choice} {r : Except Exn o.Ans} (h : Beyond P db₀ w.db)
    (hpre : (spec d P x).pre o w) (he : w.exec d x o ch = some (r,w')) : Beyond P db₀ w'.db := by
  have hm := World.dbMove_of_exec he
  have hs : ∀ s, o = .stmt s → s.Stays P w.db := fun s hs => hpre.1.stmt hs
  refine ⟨hm.attributed h.attributed,?_,?_,?_⟩
  · exact h.conversations.step (fun v hv => hv) hm.conversations_alter fun k hne =>
      hm.conversation_changed h.attributed hs hpre.2 hne
  · exact h.sessions.step (fun v hv => hm.steady.owns _ hv) hm.sessions_alter fun k hne =>
      hm.session_changed h.attributed hs hpre.2 hne
  · exact h.messages.step (fun v hv => hm.steady.owns _ hv) hm.messages_alter fun k hne =>
      hm.message_changed h.attributed hs hpre.2 hne

/-- A conversation of another user is not one of `P`. -/
theorem not_owns (h : Beyond P db₀ db) {c : ConversationId} {conv : Conversation}
    (hc : db₀.conversations.committed c = some conv) (hP : ¬ P conv.owner) : ¬ db.Owns P c := by
  intro howns
  have hold : db₀.conversations.Version c conv := .inl hc
  rcases h.conversations.row c with hrow | hrow
  · refine hP (howns.2 conv ?_)
    rw [Table.Version,hrow]
    exact hold
  · exact hP (hrow conv (.inl hold))

end Beyond

end Confinement

/-- Only others than `u` make requests. -/
def Others (u : UserContext) (_ : Config) : Action → Prop
  | .start _ req => ∃ v, req.user = some v ∧ v.owner ≠ u.owner
  | _ => True

instance (u : UserContext) (c : Config) (a : Action) : Decidable (Others u c a) :=
  match a with
  | .start _ req => decidable_of_iff (req.user.any fun v => v.owner ≠ u.owner)
      (by simp [Others,Option.any_eq_true])
  | .call .. => isTrue trivial
  | .finish _ => isTrue trivial
  | .env _ => isTrue trivial

namespace Confinement

/-- All requests, none of which is `u`'s. -/
def outline (d : Deployment) (u : UserContext) (db₀ : Database) : Outline (system d) (Others u) World where
  loc w _ := w
  spec x := spec d (· ≠ u.owner) x
  G w := Beyond (· ≠ u.owner) db₀ w.db
  Free x w := Own (· ≠ u.owner) x w
  Q x _ w := Own (· ≠ u.owner) x w
  rely_refl _ := .refl
  rely_trans _ _ _ _ := .trans
  free_rely _ _ _ hw h := lasting_own _ _ hw h.toUp
  free_end _ _ _ h := h
  begin_ok c x req hG hfree hok := by
    obtain ⟨v,hv,hne⟩ := hok
    have hown : Own (· ≠ u.owner) x ((system d).begin c.world x req) := hfree
    exact ⟨hG,wp_prog hv hne hown,fun y hy => .of_begin hy.symm⟩
  exec_ok _ _ _ _ _ _ _ hG _ _ hpre he :=
    ⟨hG.exec hpre he,answered_of_exec hG.attributed hpre he,fun _ hy => .of_exec hy.symm he⟩
  env_ok c e w hG _ he := by
    refine ⟨?_,fun y => .of_env he⟩
    rw [(World.envFrame he).db]
    exact hG

end Confinement

/-- Whatever the others do, in whatever order, on every connection the caller's conversations, the
sessions of each and its transcript are what they were. -/
theorem callers_isolated {d : Deployment} {w : World} {c : Config} {u : UserContext} (hw : w.AtRest)
    (hconv : w.db.conversations.Settled Conversation.constraints Conversation.Keyed)
    (hs : w.db.sessions.Settled AgentSession.constraints AgentSession.Keyed)
    (h : Reach (step (system d)) (Others u) (idle w) c) (y : Conn) :
    (∀ q : Conversation → Bool, c.world.db.conversations.select y (fun v => v.belongsTo u && q v) =
      w.db.conversations.select y fun v => v.belongsTo u && q v) ∧
    ∀ k conv, w.db.conversations.committed k = some conv → conv.belongsTo u = true →
      (∀ q : AgentSession → Bool, c.world.db.sessions.select y (fun v => v.conversationId = k && q v) =
        w.db.sessions.select y fun v => v.conversationId = k && q v) ∧
      c.world.db.transcript y k = w.db.transcript y k := by
  have hstart : w.db.Attributed := Database.attributed_of_settled hconv hs hw.messages
  have hfree : ∀ x, Confinement.Own (· ≠ u.owner) x w := fun x =>
    Confinement.own_of_idle (hw.idle x)
  have hbeyond : Confinement.Beyond (· ≠ u.owner) w.db c.world.db :=
    ((Confinement.outline d u w.db).inv_of_reach h (.refl hstart) hfree).1
  refine ⟨fun q => hbeyond.conversations.select ?_ y,fun k conv hk hb => ?_⟩
  · intro v hne
    have hfalse : v.belongsTo u = false := by
      rw [← Bool.not_eq_true,Conversation.belongsTo_iff]
      exact hne
    rw [hfalse,Bool.false_and]
  have howner : conv.owner = u.owner := Conversation.belongsTo_iff.mp hb
  have hnot : ¬ c.world.db.Owns (· ≠ u.owner) k := hbeyond.not_owns hk fun hne => hne howner
  refine ⟨fun q => hbeyond.sessions.select ?_ y,?_⟩
  · intro v howns
    have hne : v.conversationId ≠ k := fun e => hnot (e ▸ howns)
    simp [hne]
  · rw [Database.transcript,hbeyond.messages.select ?_ y,Database.transcript]
    intro v howns
    have hne : v.new.conversationId ≠ k := fun e => hnot (e ▸ howns)
    simp [hne]

namespace Sample

def neighbour : UserContext := { userId := "neighbour", tenantCode := "default" }

def neighbours : Conversation where
  id := 0
  tenantCode := "default"
  externalUserId := "neighbour"
  createdAt := 0

/-- A world in which the neighbour has a conversation. -/
def inhabited : World :=
  { world with db := { world.db with conversations := (world.db.conversations.put 0 0 neighbours).commit 0 } }

theorem inhabited_settled : inhabited.db.conversations.Settled Conversation.constraints Conversation.Keyed :=
  Table.Settled.put_commit Table.settled_empty rfl rfl fun _ _ _ h => by cases h

theorem inhabited_atRest : inhabited.AtRest where
  handling _ := rfl
  events _ := rfl
  tx _ := rfl
  sessions _ := rfl
  conversations := inhabited_settled.clean
  messages _ := rfl

end Sample

/-- The caller opens a conversation beside the neighbour's. -/
theorem callers_isolated_neighbour : ∃ c : Config, c.world.db.conversations.keys = [0,1] ∧
    c.world.db.conversations.select 1 (fun v => v.belongsTo Sample.neighbour && true) =
      Sample.inhabited.db.conversations.select 1 fun v => v.belongsTo Sample.neighbour && true := by
  have hrun : ((play (system Sample.deployment) (Others Sample.neighbour)
      [.act (.start 0 (Sample.turn "hello" "assistant" .absent)),.serve 0 Sample.smooth 60,.act (.finish 0)]
      (idle Sample.inhabited)).any fun c => decide (c.world.db.conversations.keys = [0,1])) = true := by
    decide +kernel
  obtain ⟨c,hr,hP⟩ := exists_reach_of_play hrun
  exact ⟨c,of_decide_eq_true hP,
    (callers_isolated Sample.inhabited_atRest Sample.inhabited_settled Table.settled_empty hr 1).1 fun _ => true⟩

end Saarathi
