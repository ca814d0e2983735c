import Saarathi.Appending
import Saarathi.Custody
import Saarathi.TextNumbers
import Mathlib.Data.List.Dedup

/-!
# Replies that are stored once

A reply of Mitra is named by the text that it answers. The ledger follows each
reply from the call that hears it, or finds it in Mitra's record, to the
transaction that stores it.
-/

namespace Saarathi

open Machine Program Program.Prog Interleaving

/-- A text that was sent: the channel, and its number there. -/
abbrev SentText := ChannelId × ℕ

/-- Which text a row of a remote session's record answers. -/
abbrev MitraRecord := String → ℕ → SentText

/-- The replies that the kept frames of the last call on a channel belong to. -/
def World.heard (w : World) (i : ChannelId) : List SentText :=
  match w.returned i with
  | some (_,used) => (used.filterMap (·.answers)).dedup.map (i,·)
  | none => []

/-- `(text or "")`, where that is a string. -/
def soughtText : Json → String
  | .str s => s
  | _ => ""

abbrev ReplyEffect := Custody.Effect String SentText

namespace Op

/-- The text that a request looks for in Mitra's record: that of its turn, or the last one of its
conversation. -/
def soughtAfter (sought : String) : (o : Op) → Except Exn o.Ans → String
  | .handleBegin _ run,_ => soughtText run.text
  | .stmt (.lastUserContent _),.ok [text] => text
  | _,_ => sought

/-- What a call does with the replies in the request's hand. A commit of an aborted transaction
loses what was written. -/
def replyEffect (record : MitraRecord) (w : World) (x : Conn) (w' : World) (sought : String) :
    (o : Op) → Except Exn o.Ans → ReplyEffect
  | .handleBegin ..,_ => .drops
  | .stmt (.lastUserContent _),_ => .drops
  | .sendAndAwaitTurn i ..,.ok bot => .obtains (w'.heard i) (bot : Channel.BotTurn).text
  | .recentChat sid _,.ok rows => match answering sought rows with
    | some row => .obtains [record sid row.id] (Text.strip row.message)
    | none => .nothing
  | .stmt (.insertMessage m),.ok _ => if m.role = .assistant then .writes else .nothing
  | .commit,.ok _ => if w.db.tx x = .active then .commits else .loses
  | .commit,.error _ => .loses
  | .rollback,_ => .leaves
  | _,_ => .nothing

end Op

/-- The text that each request looks for, and where the replies are. -/
structure Ledger where
  sought : Conn → String := fun _ => ""
  custody : Custody.State Conn String SentText := {}

def Ledger.after (record : MitraRecord) (w : World) (x : Conn) (o : Op) (r : Except Exn o.Ans) (w' : World)
    (s : Ledger) : Ledger where
  sought := Function.update s.sought x (o.soughtAfter (s.sought x) r)
  custody := s.custody.after x (o.replyEffect record w x w' (s.sought x) r)

/-- All requests, with a ledger of the replies. -/
def replies (d : Deployment) (record : MitraRecord) :
    Interp (World × Ledger) Conn Req Choice World.EnvAct Op Op.Ans Exn Response :=
  (system d).observing (Ledger.after record)

abbrev Ledgered := Interleaving.Config (World × Ledger) Conn Op Op.Ans Exn Response

/-- The next call of the request on `x`, if it goes through as chosen. -/
def Ledgered.next (d : Deployment) (c : Ledgered) (x : Conn) (ch : Choice) :
    Option ((o : Op) × Except Exn o.Ans × World) :=
  (c.nextCall x).bind fun o => (c.world.1.exec d x o ch).map fun p => ⟨o,p⟩

/-- Mitra's record holds replies to texts that were sent, and the frames that a call keeps are to its own text. -/
def Attributed (d : Deployment) (record : MitraRecord) (c : Ledgered) : Action → Bool
  | .call x ch => match c.next d x ch with
    | some ⟨.recentChat sid _,.ok rows,_⟩ => (answering (c.world.2.sought x) rows).all fun row =>
        (record sid row.id).2 ≤ c.world.1.sentOn (record sid row.id).1
    | some ⟨.sendAndAwaitTurn i ..,.ok _,w⟩ => (w.returned i).all fun p =>
        p.2.all fun a => a.answers.all (· = p.1)
    | _ => true
  | _ => true

/-- A reply that a request finds in Mitra's record is not stored, nor has another request it in hand or
in its transaction. -/
def Unclaimed (d : Deployment) (record : MitraRecord) (c : Ledgered) : Action → Bool
  | .call x ch => match c.next d x ch with
    | some ⟨.recentChat sid _,.ok rows,_⟩ => (answering (c.world.2.sought x) rows).all fun row =>
        let t := record sid row.id
        t ∉ c.world.2.custody.stored ∧ t ∉ c.world.2.custody.pending.map (·.2) ∧
          ∀ p ∈ c.world.2.custody.held, p.1 ≠ x → p.2 ≠ t
    | _ => true
  | _ => true

/-- No reply has been inserted twice as an assistant message, uncommitted ones included. -/
def Ledger.InsertedOnce (s : Ledger) : Prop := (s.custody.stored ++ s.custody.pending.map (·.2)).Nodup

/-- The replies are in one place each, and they answer texts that were sent. -/
structure Ledger.Fit (w : World) (s : Ledger) : Prop where
  sound : s.custody.Sound
  sent : ∀ t ∈ s.custody.all, t.2 ≤ w.sentOn t.1

namespace Ledger

variable {d : Deployment} {record : MitraRecord} {w w' : World} {s : Ledger} {x : Conn}

theorem Fit.insertedOnce (h : s.Fit w) : s.InsertedOnce := (List.nodup_append.mp h.sound.nodup).1

theorem fit_empty (w : World) : Fit w {} := ⟨Custody.State.sound_empty,fun t ht => by cases ht⟩

/-- What is heard answers the text that was just sent. -/
theorem eq_of_heard {i : ChannelId} {n : ℕ} {used : List Channel.Arrival} {t : SentText}
    (hw : w.returned i = some (n,used)) (hused : (used.all fun a => a.answers.all (· = n)) = true)
    (ht : t ∈ w.heard i) : t = (i,n) := by
  simp only [World.heard,hw,List.mem_map,List.mem_dedup,List.mem_filterMap] at ht
  obtain ⟨m,⟨a,ha,hm⟩,rfl⟩ := ht
  have hn := List.all_eq_true.mp hused a ha
  have hmn : m = n := by simpa [hm] using hn
  rw [hmn]

theorem heard_nodup (w : World) (i : ChannelId) : (w.heard i).Nodup := by
  unfold World.heard
  split
  · exact (List.nodup_dedup _).map (Prod.mk_right_injective i)
  · exact List.nodup_nil

/-- The effects of a call that obtain nothing and write nothing. -/
theorem allows_of_obtained {e : ReplyEffect} (he : e.obtained = [])
    (hw : e = .writes → ∀ h, s.custody.hand x = some h → h.written = false) : s.custody.Allows x e := by
  cases e with
  | obtains things label =>
    obtain rfl : things = [] := he
    exact ⟨List.nodup_nil,by simp⟩
  | writes => exact hw rfl
  | _ => trivial

end Ledger

namespace RepliesOnce

variable {α : Type} {d : Deployment} {record : MitraRecord} {x : Conn}

/-- What the ledger says about one request. -/
structure Notes where
  sought : String
  hand : Option (Custody.Hand String SentText)

/-- Before an assistant message is inserted, the reply in hand is not written yet and the message is its
text. -/
def spec (d : Deployment) (record : MitraRecord) (x : Conn) : Spec Op Op.Ans Exn Notes where
  pre o n := ∀ m, o = .stmt (.insertMessage m) → m.role = .assistant → ∀ h, n.hand = some h →
    h.written = false ∧ m.content = .str h.label
  post o n r n' := ∃ w ch w', World.exec w d x o ch = some (r,w') ∧
    n' = ⟨o.soughtAfter n.sought r,Custody.Hand.after n.hand (o.replyEffect record w x w' n.sought r)⟩

/-- The reply in hand, if there is one, has this text and is not written. -/
def Notes.Holds (n : Notes) (text : String) : Prop := ∀ h, n.hand = some h → h.written = false ∧ h.label = text

def Op.unsaid (o : Op) : Prop := ∀ m, o = .stmt (.insertMessage m) → m.role ≠ .assistant

/-- The calls that leave the notes alone. -/
def Op.still : Op → Bool
  | .handleBegin .. => false
  | .stmt (.lastUserContent _) => false
  | .stmt (.insertMessage _) => false
  | .sendAndAwaitTurn .. => false
  | .recentChat .. => false
  | .rollback => false
  | _ => true

/-- The program inserts no assistant message. -/
def Silent (p : Proc α) : Prop := All Op.unsaid p

theorem Silent.bind {β : Type} {p : Proc α} {f : α → Proc β} (hp : Silent p) (hf : ∀ a, Silent (f a)) :
    Silent (p >>= f) := All.bind hp hf

theorem Silent.branch {b : Prop} [Decidable b] {p q : Proc α} (hp : Silent p) (hq : Silent q) :
    Silent (if b then p else q) := by
  split
  · exact hp
  · exact hq

theorem unsaid_of_role {o : Op} (h : o.role ≠ .record) : Op.unsaid o := by
  intro m hm
  subst hm
  exact absurd rfl h

theorem silent_of_within {R : List Role} {p : Proc α} (h : Within R p) (hs : .record ∉ R) : Silent p :=
  All.mono h fun _ ho => unsaid_of_role fun hr => hs (hr ▸ ho)

def inserts : Stmt → Bool
  | .insertMessage _ => true
  | _ => false

theorem silent_stmt {s : Stmt} (h : inserts s = false) : Silent (stmt s) := by
  refine (all_perform _).mpr fun m hm => ?_
  obtain rfl := Op.stmt.inj hm
  cases h

theorem silent_insert {m : NewMessage} (h : m.role ≠ .assistant) : Silent (MessageRepository.insert m) := by
  refine (all_perform _).mpr fun m' hm => ?_
  obtain rfl := Stmt.insertMessage.inj (Op.stmt.inj hm)
  exact h

section Calls

variable {A : Notes → Prop} {n : Notes} {o : Op}

theorem pre_of_unsaid (h : Op.unsaid o) : (spec d record x).pre o n := fun m hm hrole => absurd hrole (h m hm)

/-- Where nothing is known about the hand, every call but an assistant message goes. -/
theorem keeps_silent {p : Proc α} (h : Silent p) : Keeps (spec d record x) (fun _ => True) p :=
  Keeps.of_all h fun _ ho _ _ _ _ => ⟨pre_of_unsaid ho,fun _ _ _ => trivial⟩

theorem effect_of_still (record : MitraRecord) (w : World) (x : Conn) (w' : World) (r : Except Exn o.Ans)
    (h : Op.still o = true) :
    o.soughtAfter n.sought r = n.sought ∧
      Custody.Hand.after n.hand (o.replyEffect record w x w' n.sought r) = n.hand := by
  cases o with
  | stmt s => cases s <;> first | exact ⟨rfl,rfl⟩ | cases h
  | commit =>
    refine ⟨rfl,?_⟩
    cases r with
    | error e => rfl
    | ok u =>
      simp only [Op.replyEffect]
      split <;> rfl
  | _ => first | exact ⟨rfl,rfl⟩ | cases h

theorem unsaid_of_still (h : Op.still o = true) : Op.unsaid o := by
  rintro m rfl
  cases h

theorem call_still (h : Op.still o = true) : Keeps.Call (spec d record x) A o := by
  intro n hn n₁ h₁
  obtain rfl : n = n₁ := h₁
  refine ⟨pre_of_unsaid (unsaid_of_still h),fun r n₂ h₂ => ?_⟩
  obtain ⟨w,ch,w',-,rfl⟩ := h₂
  obtain ⟨hsought,hhand⟩ := effect_of_still (n := n) record w x w' r h
  rw [hsought,hhand]
  exact hn

theorem keeps_still {p : Proc α} (h : All (fun o => Op.still o = true) p) : Keeps (spec d record x) A p :=
  Keeps.of_all h fun _ ho => call_still ho

theorem sure : Routes.Sure (spec d record x) := by
  rintro _ n r n' ho ⟨w,ch,w',he,-⟩
  obtain ⟨done,w₁,hp,-⟩ := World.exec_eq he
  exact (World.performed hp).sure ho

end Calls

/-! Everything but the tail of a turn and of a recovery inserts no assistant message. -/

section Silent

theorem silent_of_calm {p : Proc α} (h : Calm p) : Silent p := by
  refine All.mono h fun o ho m hm => ?_
  subst hm
  cases ho

theorem silent_touch (c : ConversationId) (title : Option Json) : Silent (ConversationRepository.touch c title) :=
  silent_stmt rfl

theorem silent_nextSeqForUpdate (c : ConversationId) : Silent (ConversationRepository.nextSeqForUpdate c) :=
  Silent.bind (silent_stmt rfl) fun _ => silent_of_within (R := []) (Within.scalarOne _) (by decide)

/-- The user's message is not the assistant's. -/
theorem silent_recordUserMessage (inp : TurnInput) (conv : Conversation) :
    Silent (OrchestrationService.recordUserMessage inp conv) := by
  unfold OrchestrationService.recordUserMessage
  refine Silent.bind (silent_nextSeqForUpdate _) fun seq => ?_
  refine Silent.bind ?_ fun id => ?_
  · exact silent_insert (show MessageRole.user ≠ .assistant by decide)
  split
  · exact silent_touch _ _
  · have htitle := silent_of_calm (OrchestrationService.conversationTitle_calm inp.text)
    refine Silent.bind htitle fun title => Silent.bind (silent_touch _ _) fun _ => ?_
    exact Silent.bind htitle fun _ => silent_stmt rfl

end Silent

/-! From the handler to the insert, the reply in hand is the text of the turn. -/

section Still

/-- Every call of the program leaves the notes alone. -/
def Still (p : Proc α) : Prop := All (fun o => Op.still o = true) p

theorem Still.bind {β : Type} {p : Proc α} {f : α → Proc β} (hp : Still p) (hf : ∀ a, Still (f a)) :
    Still (p >>= f) := All.bind hp hf

theorem Still.attempt {p : Proc α} (hp : Still p) : Still p.attempt := All.attempt hp

theorem Still.perform {o : Op} (h : Op.still o = true) : Still (Prog.perform o) := (all_perform o).mpr h

def stillRoles : List Role :=
  [.newConversation,.create,.apply,.claim,.abandon,.pin,.unpin,.lock,.unlock,.commit,.pop,.story,.report]

theorem still_of_role {o : Op} (h : o.role ∈ stillRoles) : Op.still o = true := by
  cases o with
  | stmt s =>
    cases s with
    | insertMessage m => exact absurd h (show Role.record ∉ stillRoles by decide)
    | lastUserContent c => exact absurd h (show Role.query ∉ stillRoles by decide)
    | _ => rfl
  | handleBegin c run => exact absurd h (show Role.mark ∉ stillRoles by decide)
  | sendAndAwaitTurn ch text t g sess => exact absurd h (show Role.channel ∉ stillRoles by decide)
  | recentChat sid pid => exact absurd h (show Role.read ∉ stillRoles by decide)
  | rollback => exact absurd h (show Role.rollback ∉ stillRoles by decide)
  | _ => rfl

theorem still_of_within {R : List Role} {p : Proc α} (h : Within R p) (hs : R ⊆ stillRoles) : Still p :=
  All.mono h fun _ ho => still_of_role (hs ho)

theorem Still.one {s : Stmt} {f : s.Ans → List α} (h : Op.still (.stmt s) = true) :
    Still (do scalarOneOrNone (f (← stmt s))) := by
  refine Still.bind (Still.perform h) fun r => ?_
  exact still_of_within (R := []) (Within.scalarOneOrNone _) (by decide)

theorem still_nextSeqForUpdate (c : ConversationId) : Still (ConversationRepository.nextSeqForUpdate c) := by
  refine Still.bind (Still.perform rfl) fun r => ?_
  exact still_of_within (R := []) (Within.scalarOne _) (by decide)

theorem still_finalize (session : AgentSession) (agent : Option RegisteredAgent) (user : UserContext) :
    Still (OrchestrationService.finalize d session agent user) := by
  refine Still.bind (still_of_within (SessionService.claimFinalizing_calls _).within (by decide)) ?_
  rintro (_ | claimed)
  · exact Still.bind (Still.one rfl) fun _ => trivial
  · refine Still.bind (Still.perform rfl) fun _ => ?_
    exact still_of_within (OrchestrationService.finalizeClaimed_calls ..).within (by decide)

theorem still_settleTurn (inp : TurnInput) (agent : RegisteredAgent) (turn : AgentTurn)
    (session : Option AgentSession) : Still (OrchestrationService.settleTurn d inp agent turn session) := by
  unfold OrchestrationService.settleTurn
  split
  · trivial
  refine Still.bind ?_ fun session => ?_
  · split
    · exact still_of_within (SessionService.apply_calls ..).within (by decide)
    · trivial
  · split
    · exact Still.bind (still_finalize ..) fun _ => trivial
    · trivial

theorem still_remoteSession (remote : RemoteSpec) (user : UserContext) (session : AgentSessionView) :
    Still (RemoteFlowAgentHandler.remoteSession remote user session) := by
  have henv : ∀ name, Still (RemoteFlowAgentHandler.resolveEnv name) := by
    intro name
    refine Still.bind (Still.perform rfl) ?_
    rintro (_ | value)
    · trivial
    · simp only
      split <;> trivial
  refine Still.bind (henv _) fun botRoute => ?_
  split
  · refine Still.bind (henv _) fun company => ?_
    refine Still.bind (Still.perform rfl) fun profileId => ?_
    exact Still.bind (Still.perform rfl) fun remoteSid => trivial
  · trivial

end Still

section Handler

/-- What is heard is in hand. -/
theorem wp_send {i : ChannelId} {text : Json} {t g : ℕ} {auth : Auth} {n : Notes} (hn : n.hand = none) :
    wp (spec d record x) (RemoteFlowAgentHandler.sendOn i text t g auth)
      (fun r n' => (∀ b, r = .ok b → n'.Holds b.text) ∧ ∀ e, r = .error e → n'.hand = none) n := by
  refine wp_perform.mpr fun n₁ h₁ => ?_
  obtain rfl : n = n₁ := h₁
  refine ⟨pre_of_unsaid (unsaid_of_role (show Role.channel ≠ .record by decide)),?_⟩
  rintro r n₂ ⟨w,ch,w',-,rfl⟩
  constructor
  · rintro b rfl h hh
    obtain rfl := Option.some.inj hh
    exact ⟨rfl,rfl⟩
  · rintro e rfl
    exact hn

theorem converse_triple (c : ConversationId) (auth : Auth) (text : Json) (t g : ℕ) :
    Triple (spec d record x) (fun n => n.hand = none) (RemoteFlowAgentHandler.converse c auth text t g)
      fun bot n => n.Holds bot.text := by
  have hstill : ∀ {β : Type} {p : Proc β}, Still p →
      Triple (spec d record x) (fun n => n.hand = none) p fun _ n => n.hand = none := fun h =>
    Triple.of_keeps (keeps_still h)
  have hsend : ∀ i, Triple (spec d record x) (fun n => n.hand = none)
      (RemoteFlowAgentHandler.sendOn i text t g auth) fun bot n => n.Holds bot.text := fun i n hn =>
    wp_mono (wp_send hn) fun _ _ h => h.1
  refine Triple.bind (hstill (Still.perform rfl)) fun i n hn => ?_
  refine wp_bind.mpr (wp_attempt.mpr (wp_mono (wp_send hn) ?_))
  rintro (e | bot) n₁ ⟨hok,herror⟩
  · have hn₁ := herror e rfl
    dsimp only
    split
    · rename_i heq
      cases heq
    · have hreacquire : Still (MitraSessionManager.reacquire c auth) :=
        Still.bind (Still.perform rfl) fun _ => Still.perform rfl
      exact Triple.bind (hstill hreacquire) hsend n₁ hn₁
    · intro b hb
      cases hb
  · exact Triple.pure (fun n h => h) n₁ (hok bot rfl)

theorem handle_triple (c : ConversationId) (agent : RegisteredAgent) (user : UserContext)
    (session : Option AgentSessionView) (text : Json) :
    Triple (spec d record x) (fun n => n.hand = none) (handle d c agent user session text)
      fun turn n => n.Holds turn.text := by
  have hstill : ∀ {β : Type} {p : Proc β} {A : Notes → Prop}, Still p →
      Triple (spec d record x) A p fun _ => A := fun h => Triple.of_keeps (keeps_still h)
  unfold handle
  split
  · refine Triple.bind (hstill (Still.perform rfl)) fun r => Triple.pure fun n hn h hh => ?_
    exact absurd hh (by simp [hn])
  · split
    · unfold RemoteFlowAgentHandler.handle
      split
      · exact Triple.throw _
      · refine Triple.bind (hstill (still_remoteSession ..)) fun sess => ?_
        refine Triple.bind (converse_triple _ _ _ _ _) fun bot => ?_
        refine Triple.bind (P := fun _ n => n.Holds bot.text) (hstill ?_) fun finished => Triple.pure fun n hn => hn
        split
        · exact Still.perform rfl
        · trivial
    · exact Triple.throw _

/-- The handler neither looks for another text. -/
theorem keeps_sought (text : String) (c : ConversationId) (agent : RegisteredAgent) (user : UserContext)
    (session : Option AgentSessionView) (sent : Json) :
    Keeps (spec d record x) (fun n => n.sought = text) (handle d c agent user session sent) := by
  refine Keeps.of_all (handle_calls ..).within fun o ho n hn n₁ h₁ => ?_
  obtain rfl : n = n₁ := h₁
  refine ⟨pre_of_unsaid (unsaid_of_role fun hr => absurd (hr ▸ ho) (by decide)),?_⟩
  rintro r n₂ ⟨w,ch,w',-,rfl⟩
  cases o with
  | stmt s =>
    cases s with
    | lastUserContent c => exact absurd ho (show Role.query ∉ [Role.read,.channel,.pop] by decide)
    | _ => exact hn
  | handleBegin c run => exact absurd ho (show Role.mark ∉ [Role.read,.channel,.pop] by decide)
  | _ => exact hn

/-- A reply that the record has for the sought text is in hand. -/
theorem reconcileTurn_triple (agent : RegisteredAgent) (session : Option AgentSession) (sent : Json) :
    Triple (spec d record x) (fun n => n.sought = soughtText sent)
      (OrchestrationService.reconcileTurn d agent session sent) fun res n =>
        ∀ result, res = some result → result.outcome = .answered → n.Holds result.botText := by
  have hnone : Triple (spec d record x) (fun n => n.sought = soughtText sent)
      (Pure.pure none : Proc (Option Reconciliation)) fun res n =>
        ∀ result, res = some result → result.outcome = .answered → n.Holds result.botText :=
    Triple.pure fun _ _ _ hres => by cases hres
  unfold OrchestrationService.reconcileTurn
  split
  · split
    · rename_i sid pid _ _
      split
      · exact hnone
      · refine Triple.bind (P := fun rows n => (reconcile rows (soughtText sent)).outcome = .answered →
          n.Holds (reconcile rows (soughtText sent)).botText) (Triple.perform ?_) fun rows => ?_
        · intro n hn n₁ h₁
          obtain rfl : n = n₁ := h₁
          refine ⟨pre_of_unsaid (unsaid_of_role (show Role.read ≠ .record by decide)),?_⟩
          rintro rows n₂ ⟨w,ch,w',-,rfl⟩ hanswered
          cases hrow : answering (soughtText sent) rows with
          | none => exact absurd hanswered (not_answered_of_answering hrow)
          | some row =>
            rw [reconcile_of_answering hrow]
            intro h hh
            have hhand : some h = some ({ things := [record sid row.id], label := Text.strip row.message } :
                Custody.Hand String SentText) := by
              rw [← hh,hn]
              simp only [Op.replyEffect,hrow]
              rfl
            obtain rfl := Option.some.inj hhand
            exact ⟨rfl,rfl⟩
        · refine Triple.bind (P := fun text n => text = soughtText sent ∧
            ((reconcile rows (soughtText sent)).outcome = .answered →
              n.Holds (reconcile rows (soughtText sent)).botText)) ?_ fun text => Triple.pure ?_
          · unfold RouterService.textOr
            split
            · exact Triple.pure fun n hn => ⟨rfl,hn⟩
            · rename_i hsent
              split
              · exact Triple.throw _
              · refine Triple.pure fun n hn => ⟨?_,hn⟩
                unfold soughtText
                split
                · exact absurd rfl (hsent _)
                · rfl
          · rintro n ⟨rfl,hn⟩ result hres hanswered
            obtain rfl := Option.some.inj hres
            exact hn hanswered
    · exact hnone
  · exact hnone

theorem recoverTimedOutTurn_triple (agent : RegisteredAgent) (session : Option AgentSession) (sent : Json) :
    Triple (spec d record x) (fun n => n.sought = soughtText sent)
      (OrchestrationService.recoverTimedOutTurn d agent session sent) fun res n =>
        ∀ turn, res = some turn → n.Holds turn.text := by
  have hnone : ∀ n, wp (spec d record x) (Pure.pure none : Proc (Option AgentTurn)) (fun r n' => ∀ res,
      r = .ok res → ∀ turn, res = some turn → n'.Holds turn.text) n := by
    intro n res hres turn hturn
    obtain rfl := Except.ok.inj hres
    cases hturn
  intro n hn
  refine wp_bind.mpr (wp_attempt.mpr (wp_mono (reconcileTurn_triple agent session sent n hn) ?_))
  rintro (e | _ | result) n₁ h₁
  · exact hnone n₁
  · exact hnone n₁
  · dsimp only
    split
    · rename_i remote houtcome _
      have hheld : n₁.Holds result.botText := h₁ _ rfl result rfl houtcome
      refine Triple.bind (A := fun n => n.Holds result.botText) (P := fun _ n => n.Holds result.botText) ?_
        (fun finished => ?_) n₁ hheld
      · refine Triple.of_keeps (keeps_still ?_)
        split
        · refine Still.bind (Still.perform rfl).attempt ?_
          rintro (e | finished) <;> trivial
        · trivial
      · refine Triple.pure fun n hn turn hturn => ?_
        obtain rfl := Option.some.inj hturn
        exact hn
    · exact hnone n₁

/-- The handler starts with an empty hand. -/
theorem wp_marked (c : ConversationId) (run : HandlerRun) (agent : RegisteredAgent) (user : UserContext)
    (session : Option AgentSessionView) (sent : Json) (n : Notes) :
    wp (spec d record x) (marked c run (handle d c agent user session sent))
      (fun r n' => n'.sought = soughtText run.text ∧ ∀ turn, r = .ok turn → n'.Holds turn.text) n := by
  refine wp_bind.mpr (wp_perform.mpr fun n₁ h₁ => ⟨pre_of_unsaid (unsaid_of_role (show Role.mark ≠ .record by decide)),?_⟩)
  rintro r n₂ ⟨w,ch,w',he,rfl⟩
  have hsure : Routes.Sure (spec d record x) := sure
  obtain ⟨u,rfl⟩ := hsure _ n₁ _ _ rfl ⟨w,ch,w',he,rfl⟩
  refine wp_ensuring.mpr (wp_mono (wp_and (keeps_sought (soughtText run.text) c agent user session sent _ rfl)
    (handle_triple c agent user session sent _ rfl)) ?_)
  rintro r' n₃ ⟨hsought,hheld⟩
  have hend : Still (do let _ ← perform (Op.handleEnd c); Pure.pure () : Proc Unit) :=
    Still.bind (Still.perform rfl) fun _ => trivial
  have hkeeps : Keeps (spec d record x)
      (fun n => n.sought = soughtText run.text ∧ ∀ turn, r' = .ok turn → n.Holds turn.text) _ := keeps_still hend
  refine wp_mono (hkeeps n₃ ⟨hsought,hheld⟩) ?_
  rintro (e | u) n₄ h₄
  · exact ⟨h₄.1,fun turn hturn => by cases hturn⟩
  · exact h₄

theorem runHandler_triple (inp : TurnInput) (conv : Conversation) (agent : RegisteredAgent)
    (session : Option AgentSession) (history : List Message) :
    Triple (spec d record x) (fun _ => True) (OrchestrationService.runHandler d inp conv agent session history)
      fun turn n => n.Holds turn.text := by
  intro n _
  refine wp_bind.mpr (wp_attempt.mpr (wp_mono (wp_marked _ _ _ _ _ _ n) ?_))
  rintro r n₁ ⟨hsought,hheld⟩
  dsimp only
  split
  · rename_i turn
    exact Triple.pure (fun n hn => hn) n₁ (hheld turn rfl)
  · refine Triple.bind (recoverTimedOutTurn_triple agent session inp.text) ?_ n₁ hsought
    rintro (_ | turn)
    · exact Triple.throw _
    · exact Triple.pure fun n hn => hn turn rfl
  · intro turn hturn
    cases hturn

theorem insert_triple {m : NewMessage} {text : String} (hm : m.content = .str text) :
    Triple (spec d record x) (fun n => n.Holds text) (MessageRepository.insert m) fun _ _ => True := by
  refine Triple.perform fun n hn n₁ h₁ => ⟨?_,fun _ _ _ => trivial⟩
  obtain rfl : n = n₁ := h₁
  rintro m' hm' - h hh
  obtain rfl := Stmt.insertMessage.inj (Op.stmt.inj hm')
  obtain ⟨hwritten,hlabel⟩ := hn h hh
  exact ⟨hwritten,hm.trans (congrArg Json.str hlabel.symm)⟩

theorem storeReply_triple (inp : TurnInput) (conv : Conversation) (decision : RouteDecision)
    (agent : RegisteredAgent) (turn : AgentTurn) (session : Option AgentSession) :
    Triple (spec d record x) (fun n => n.Holds turn.text)
      (OrchestrationService.storeReply inp conv decision agent turn session) fun _ _ => True := by
  have hsilent : ∀ {β : Type} {p : Proc β}, Silent p →
      Triple (spec d record x) (fun _ => True) p fun _ _ => True := fun h => Triple.of_keeps (keeps_silent h)
  refine Triple.bind (Triple.of_keeps (keeps_still (still_nextSeqForUpdate _))) fun seq => ?_
  refine Triple.bind (insert_triple rfl) fun id => hsilent (Silent.bind ?_ fun _ => ?_)
  · exact Silent.branch (silent_of_calm (OrchestrationService.bulkInsert_calm ..)) trivial
  · split
    · refine Silent.bind (silent_touch _ _) fun _ => ?_
      exact Silent.bind (silent_of_calm (OrchestrationService.agentFallbackTitle_calm agent)) fun title =>
        silent_stmt rfl
    · exact Silent.bind (silent_of_calm (OrchestrationService.conversationTitle_calm _)) fun title => silent_touch _ _

theorem storeRecovered_triple (session : AgentSession) (agent : RegisteredAgent) (result : Reconciliation) :
    Triple (spec d record x) (fun n => n.Holds result.botText)
      (OrchestrationService.storeRecovered session agent result) fun _ _ => True := by
  refine Triple.bind (Triple.of_keeps (keeps_still (still_nextSeqForUpdate _))) fun seq => ?_
  refine Triple.bind (insert_triple rfl) fun id => Triple.of_keeps (keeps_silent ?_)
  have happly := SessionService.apply_calls session { state := .awaitingUser }
  refine Silent.bind (silent_of_within happly.within (by decide)) fun updated => ?_
  refine Silent.bind (silent_touch _ _) fun _ => ?_
  exact Silent.bind (silent_of_within (R := [.commit]) (Within.perform rfl) (by decide)) fun _ => trivial

end Handler

section Requests

/-- Every assistant message of the program is the reply in hand. -/
def Safe (d : Deployment) (record : MitraRecord) (x : Conn) (p : Proc α) : Prop :=
  Keeps (spec d record x) (fun _ => True) p

theorem Safe.bind {β : Type} {p : Proc α} {f : α → Proc β} (hp : Safe d record x p)
    (hf : ∀ a, Safe d record x (f a)) : Safe d record x (p >>= f) := Keeps.bind hp hf

theorem Safe.of_silent {p : Proc α} (h : Silent p) : Safe d record x p := keeps_silent h

theorem Safe.of_within {R : List Role} {p : Proc α} (h : Within R p) (hs : .record ∉ R) :
    Safe d record x p := .of_silent (silent_of_within h hs)

theorem Safe.of_triple {A : Notes → Prop} {P : α → Notes → Prop} {p : Proc α} (h : Triple (spec d record x) A p P)
    (hA : ∀ n, A n) : Safe d record x p :=
  fun n _ => wp_mono (h n (hA n)) fun _ _ _ => trivial

theorem safe_handleTurnLocked (inp : TurnInput) (conv : Conversation) :
    Safe d record x (OrchestrationService.handleTurnLocked d inp conv) := by
  refine Safe.bind (.of_silent (silent_recordUserMessage ..)) fun _ => ?_
  refine Safe.bind (.of_silent (silent_of_calm (OrchestrationService.routeTurn_calm ..))) ?_
  rintro ⟨decision,agent⟩
  refine Safe.bind (.of_silent (silent_of_calm (OrchestrationService.admitTurn_calm ..))) ?_
  rintro ⟨session,history⟩
  refine Safe.bind (.of_within (R := [.commit]) (Within.perform rfl) (by decide)) fun _ => ?_
  refine Safe.of_triple (A := fun _ => True) (P := fun _ _ => True) ?_ fun _ => trivial
  refine Triple.bind (runHandler_triple inp conv agent session history) fun turn => ?_
  refine Triple.bind (Triple.of_keeps (keeps_still (still_settleTurn inp agent turn session))) fun session => ?_
  refine Triple.bind (storeReply_triple inp conv decision agent turn session) fun _ => ?_
  have hcommit : Safe d record x (Prog.perform Op.commit : Proc Unit) :=
    .of_within (R := [.commit]) (Within.perform rfl) (by decide)
  exact Triple.of_keeps (Safe.bind hcommit fun _ => Keeps.pure _)

theorem safe_handleTurn (inp : TurnInput) : Safe d record x (OrchestrationService.handleTurn d inp) := by
  refine Safe.bind (.of_within (ConversationRepository.getOrCreate_calls ..).within (by decide)) fun conv => ?_
  refine Safe.bind (.of_within (R := [.lock]) (Within.stmt rfl) (by decide)) fun locked => ?_
  split
  · exact Keeps.ensuring (safe_handleTurnLocked inp conv)
      (Safe.of_within (OrchestrationService.unlockConversation_within d conv.id) (by decide))
  · exact Keeps.throw _

theorem safe_resumeTurn (id : SessionId) : Safe d record x (OrchestrationService.resumeTurn d id) := by
  have hread : ∀ {β : Type} {p : Proc β}, Within [.read,.query] p → Safe d record x p := fun h =>
    .of_within h (by decide)
  unfold OrchestrationService.resumeTurn
  refine Safe.bind (hread ((SessionService.get_calls id).within.mono (by decide))) ?_
  rintro (_ | session)
  · exact Keeps.pure _
  refine Safe.bind (hread (Within.perform rfl)) fun registry => ?_
  -- what is looked for from here on is the text that was read
  have hlast : Triple (spec d record x) (fun _ => True)
      (MessageRepository.lastUserContent session.conversationId) fun res n => ∀ text, res = some text →
        n.sought = text := by
    refine Triple.bind (P := fun rows n => ∀ text, rows = [text] → n.sought = text) (Triple.perform ?_) fun rows => ?_
    · intro n _ n₁ h₁
      refine ⟨pre_of_unsaid (unsaid_of_role (show Role.query ≠ .record by decide)),?_⟩
      rintro rows n₂ ⟨w,ch,w',-,rfl⟩ text rfl
      rfl
    · unfold scalarOneOrNone
      split
      · exact Triple.pure fun n _ text htext => by cases htext
      · exact Triple.pure fun n hn text htext => by
          obtain rfl := Option.some.inj htext
          exact hn _ rfl
      · exact Triple.throw _
  refine Safe.of_triple (A := fun _ => True) (P := fun _ _ => True) ?_ fun _ => trivial
  have hpure : ∀ {A : Notes → Prop} (r : Option OrchestrationService.ResumeResult),
      Triple (spec d record x) A (Pure.pure r : Proc _) fun _ _ => True := fun r => Triple.pure fun _ _ => trivial
  refine Triple.bind hlast fun lastUserText => ?_
  split
  · rename_i agent text _
    split
    · exact hpure _
    · refine Triple.bind ((reconcileTurn_triple agent (some session) (.str text)).mono (fun n hn => hn text rfl)
        fun _ _ h => h) ?_
      rintro (_ | result)
      · exact hpure _
      · simp only
        split
        · rename_i houtcome
          refine Triple.bind ((storeRecovered_triple session agent result).mono (fun n hn => hn result rfl houtcome)
            fun _ _ _ => trivial) fun r => hpure _
        · exact hpure _
  · exact hpure _

theorem safe_withDb {route : Proc Response} (h : Safe d record x route) : Safe d record x (Routes.withDb route) := by
  refine Routes.keeps_withDb sure h fun o ho _ _ _ _ => ⟨pre_of_unsaid (unsaid_of_role fun hr => ?_),fun _ _ _ => trivial⟩
  rw [hr] at ho
  exact absurd ho (by decide)

theorem safe_chat (body : Option ChatBody) (user : UserContext) : Safe d record x (Routes.chat d body user) :=
  Routes.keeps_chat safe_handleTurn fun _ ho _ _ _ _ =>
    ⟨pre_of_unsaid (unsaid_of_role fun hr => by rw [ho] at hr; cases hr),fun _ _ _ => trivial⟩

theorem safe_catching {p : Proc Response} (h : Safe d record x p) :
    Safe d record x (Routes.returningMitraErrors p) := by
  refine Keeps.catching h fun e => ?_
  cases e with
  | mitra e => exact Keeps.pure _
  | _ => exact Keeps.throw _

theorem safe_resolve (sid : UuidField) (user : UserContext) : Safe d record x (Routes.resolve sid user) :=
  .of_within (Routes.resolve_calls sid user).within (by decide)

theorem safe_resumeSession (sid : UuidField) (user : UserContext) :
    Safe d record x (Routes.resumeSession d sid user) := by
  refine Safe.bind (safe_resolve sid user) ?_
  rintro (_ | ⟨id,dto⟩)
  · exact Keeps.pure _
  · refine safe_catching (Safe.bind (safe_resumeTurn id) ?_)
    rintro (_ | s) <;> exact Keeps.pure _

theorem safe_prog (req : Req) : Safe d record x (req.prog d) := by
  cases req with
  | chat body user => exact safe_withDb (safe_chat body user)
  | finalize sid user => exact safe_withDb (.of_silent (silent_of_calm (Routes.finalizeSession_calm d sid user)))
  | resume sid user => exact safe_withDb (safe_resumeSession sid user)
  | abandon sid user => exact safe_withDb (.of_silent (silent_of_calm (Routes.abandonSession_calm d sid user)))
  | reset c user => exact safe_withDb (.of_silent (silent_of_calm (Routes.reset_calm d c user)))
  | sweep olderThan => exact safe_withDb (.of_silent (silent_of_calm (Routes.sweep_calm olderThan)))

end Requests

section Run

variable {c : Ledgered} {ch : Choice} {o : Op} {r : Except Exn o.Ans} {w' : World}

theorem next_eq {k : Except Exn o.Ans → Proc Response} (hx : c.procs x = some (.call o k))
    (he : c.world.1.exec d x o ch = some (r,w')) : c.next d x ch = some ⟨o,r,w'⟩ := by
  simp [Ledgered.next,Config.nextCall_eq hx,he]

/-- A call that neither hears a reply nor finds one in the record obtains none. -/
theorem obtained_eq_nil {w : World} {sought : String} (hsend : ∀ i text t g auth, o ≠ .sendAndAwaitTurn i text t g auth)
    (hchat : ∀ sid pid, o ≠ .recentChat sid pid) : (o.replyEffect record w x w' sought r).obtained = [] := by
  cases o with
  | sendAndAwaitTurn i text t g auth => exact absurd rfl (hsend i text t g auth)
  | recentChat sid pid => exact absurd rfl (hchat sid pid)
  | stmt s =>
    cases s with
    | insertMessage m =>
      cases r with
      | error e => rfl
      | ok id =>
        simp only [Op.replyEffect]
        split <;> rfl
    | _ => rfl
  | commit =>
    cases r with
    | error e => rfl
    | ok u =>
      simp only [Op.replyEffect]
      split <;> rfl
  | _ => rfl

/-- Only the insert of an assistant message writes. -/
theorem eq_insert_of_writes {w : World} {sought : String} (h : o.replyEffect record w x w' sought r = .writes) :
    ∃ m, o = .stmt (.insertMessage m) ∧ m.role = .assistant := by
  cases o with
  | stmt s =>
    cases s with
    | insertMessage m =>
      cases r with
      | error e => cases h
      | ok id =>
        simp only [Op.replyEffect] at h
        split at h
        · rename_i hrole
          exact ⟨m,rfl,hrole⟩
        · cases h
    | _ => cases h
  | sendAndAwaitTurn i text t g auth => cases r <;> cases h
  | recentChat sid pid =>
    cases r with
    | error e => cases h
    | ok rows =>
      simp only [Op.replyEffect] at h
      split at h <;> cases h
  | commit =>
    cases r with
    | error e => cases h
    | ok u =>
      simp only [Op.replyEffect] at h
      split at h <;> cases h
  | _ => cases h

/-- What a call obtains is new, and it answers a text that was sent. -/
theorem allows_of_call {k : Except Exn o.Ans → Proc Response} (hfit : c.world.2.Fit c.world.1)
    (hx : c.procs x = some (.call o k)) (hattr : Attributed d record c (.call x ch) = true)
    (hclaim : Unclaimed d record c (.call x ch) = true) (he : c.world.1.exec d x o ch = some (r,w'))
    (hpre : (spec d record x).pre o ⟨c.world.2.sought x,c.world.2.custody.hand x⟩) :
    let e := o.replyEffect record c.world.1 x w' (c.world.2.sought x) r
    c.world.2.custody.Allows x e ∧ ∀ t ∈ e.obtained, t.2 ≤ w'.sentOn t.1 := by
  have hnext := next_eq hx he
  have hmono : ∀ i, c.world.1.sentOn i ≤ w'.sentOn i := fun i => World.sentOn_exec he
  have hrest : (o.replyEffect record c.world.1 x w' (c.world.2.sought x) r).obtained = [] →
      let e := o.replyEffect record c.world.1 x w' (c.world.2.sought x) r
      c.world.2.custody.Allows x e ∧ ∀ t ∈ e.obtained, t.2 ≤ w'.sentOn t.1 := by
    intro hnil
    refine ⟨Ledger.allows_of_obtained hnil fun hwrites h hh => ?_,?_⟩
    · obtain ⟨m,ho,hrole⟩ := eq_insert_of_writes hwrites
      exact (hpre m ho hrole h hh).1
    · rw [hnil]
      exact fun t ht => by cases ht
  unfold Attributed at hattr
  unfold Unclaimed at hclaim
  simp only [hnext] at hattr hclaim
  cases o with
  | sendAndAwaitTurn i text t g auth =>
    cases r with
    | error e => exact hrest rfl
    | ok bot =>
      obtain ⟨done,w₁,hp,hw₁⟩ := World.exec_eq he
      obtain ⟨-,-,hret⟩ := World.sentOn_sendAndAwaitTurn (i := i) hp
      obtain ⟨used,hused,hsent⟩ := hret bot rfl
      have hused' : w'.returned i = some (w'.sentOn i,used) := by
        rw [hw₁]
        exact hused
      have hsent' : w'.sentOn i = c.world.1.sentOn i + 1 := by
        rw [hw₁]
        exact hsent
      have hown : (used.all fun a => a.answers.all (· = w'.sentOn i)) = true := by
        simpa [hused'] using hattr
      have hheard : ∀ t ∈ w'.heard i, t = (i,w'.sentOn i) := fun t ht => Ledger.eq_of_heard hused' hown ht
      have hnew : (i,w'.sentOn i) ∉ c.world.2.custody.all := by
        intro ht
        have hle := hfit.sent _ ht
        dsimp only at hle
        omega
      refine ⟨⟨Ledger.heard_nodup w' i,fun t ht => ?_⟩,fun t ht => ?_⟩
      · obtain rfl := hheard t ht
        simp only [Custody.State.all,List.mem_append,not_or] at hnew
        exact ⟨hnew.1.1,hnew.1.2,fun p hp _ hpt => hnew.2 (List.mem_map.mpr ⟨p,hp,hpt⟩)⟩
      · obtain rfl := hheard t ht
        exact le_rfl
  | recentChat sid pid =>
    cases r with
    | error e => exact hrest rfl
    | ok rows =>
      cases hrow : answering (c.world.2.sought x) rows with
      | none =>
        refine hrest ?_
        simp only [Op.replyEffect,hrow]
        rfl
      | some row =>
        simp only [hrow,Option.all_some,decide_eq_true_eq] at hattr hclaim
        simp only [Op.replyEffect,hrow,Custody.State.Allows,Custody.Effect.obtained]
        refine ⟨⟨List.nodup_singleton _,fun t ht => ?_⟩,fun t ht => ?_⟩
        · obtain rfl := List.mem_singleton.mp ht
          exact hclaim
        · obtain rfl := List.mem_singleton.mp ht
          exact hattr.trans (hmono _)
  | _ => exact hrest (obtained_eq_nil (by rintro _ _ _ _ _ ⟨⟩) (by rintro _ _ ⟨⟩))

/-- Every call keeps the replies in one place each. -/
theorem fit_call {k : Except Exn o.Ans → Proc Response} (hfit : c.world.2.Fit c.world.1)
    (hx : c.procs x = some (.call o k)) (hattr : Attributed d record c (.call x ch) = true)
    (hclaim : Unclaimed d record c (.call x ch) = true) (he : c.world.1.exec d x o ch = some (r,w'))
    (hpre : (spec d record x).pre o ⟨c.world.2.sought x,c.world.2.custody.hand x⟩) :
    (c.world.2.after record c.world.1 x o r w').Fit w' := by
  obtain ⟨hallows,hsent⟩ := allows_of_call hfit hx hattr hclaim he hpre
  refine ⟨hfit.sound.after hallows,fun t ht => ?_⟩
  rcases Custody.State.mem_all_after hfit.sound hallows ht with ht | ht
  · exact (hfit.sent t ht).trans (World.sentOn_exec he)
  · exact hsent t ht

/-- Each request is verified against what the ledger says about it. -/
def outline (d : Deployment) (record : MitraRecord) : Outline (replies d record)
    (fun c a => Attributed d record c a = true ∧ Unclaimed d record c a = true) Notes where
  loc w x := ⟨w.2.sought x,w.2.custody.hand x⟩
  spec := spec d record
  G w := w.2.Fit w.1
  Free _ _ := True
  Q _ _ _ := True
  rely_refl _ _ := rfl
  rely_trans _ _ _ _ h h' := h.trans h'
  free_rely _ _ _ h _ := h
  free_end _ _ _ h := h
  begin_ok := by
    intro c x req hG _ _
    exact ⟨⟨hG.sound,hG.sent⟩,safe_prog req _ trivial,fun _ _ => rfl⟩
  exec_ok := by
    intro c x o k ch r w hG hx hok hpre he
    obtain ⟨he,hw⟩ := exec_observing he
    refine ⟨?_,⟨c.world.1,ch,w.1,he,?_⟩,fun y hy => ?_⟩
    · rw [hw]
      exact fit_call hG hx hok.1 hok.2 he hpre
    · rw [hw]
      simp [Ledger.after,Custody.State.after]
    · rw [hw]
      simp [spec,Ledger.after,Custody.State.after,Function.update_of_ne hy]
  env_ok := by
    intro c e w hG _ he
    obtain ⟨he,hw⟩ := env_observing he
    rw [hw]
    refine ⟨⟨hG.sound,fun t ht => ?_⟩,fun y => rfl⟩
    rw [World.sentOn_env he]
    exact hG.sent t ht

/-- Before an assistant message is inserted, the reply in hand is its text and is inserted for the first time. -/
theorem insert_of_call {c₀ : World} (h : Reach (step (replies d record))
    (fun c a => Attributed d record c a = true ∧ Unclaimed d record c a = true) (idle (c₀,{})) c) {m : NewMessage}
    {k : Except Exn (Op.stmt (.insertMessage m)).Ans → Proc Response}
    (hx : c.procs x = some (.call (.stmt (.insertMessage m)) k)) (hm : m.role = .assistant)
    {hand : Custody.Hand String SentText} (hh : c.world.2.custody.hand x = some hand) :
    hand.written = false ∧ m.content = .str hand.label :=
  ((outline d record).pre_of_call ((outline d record).inv_of_reach h (Ledger.fit_empty c₀) fun _ => trivial) hx)
    m rfl hm hand hh

end Run

/-- Every row belongs to the first text of the first channel. -/
def firstText : MitraRecord := fun _ _ => (0,1)

/-- Every call goes through, and Mitra's record has these rows. -/
def answer (rows : List ChatRow) (w : World × Ledger) : Op → Choice
  | .recentChat .. => .rows rows
  | o => Sample.smooth w.1 o

/-- A turn whose reply is heard, then a poll. -/
def cues (rows : List ChatRow) : List (Cue (World × Ledger) Conn Req Choice World.EnvAct Op) :=
  [.act (.start 0 (Sample.turn "hi" "story" .absent)),.serve 0 (answer rows) 60,
    .act (.start 1 (.resume (.id 2) Sample.caller)),.serve 1 (answer rows) 60]

end RepliesOnce

end Saarathi
