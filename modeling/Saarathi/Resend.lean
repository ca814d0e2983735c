import Saarathi.Statements

/-!
# Sending a text again

After a closed channel `RemoteFlowAgentHandler.handle` reconnects and sends its
text once more. The calls of the handler say how often Mitra received the text.
-/

namespace Saarathi

open Machine Program Program.Prog Interleaving

/-- One call of the handler, or any other program. -/
inductive Job where
  | handle (key : String) (remote : RemoteSpec) (user : UserContext)
      (session : Option AgentSessionView) (text : Json)
  | other (p : Proc AgentTurn)

/-- Any number of handlers at work, among any other programs. -/
def handlers (d : Deployment) : Services Job AgentTurn where
  prog _ job := match job with
    | .handle key remote user session text =>
      RemoteFlowAgentHandler.handle key remote user session text
    | .other p => p
  begin w x _ := { w with events := Function.update w.events x [] }
  exec w x o c := w.exec d x o c
  env w e := w.env d e

namespace Event

def isSend (e : Event) : Bool :=
  match e.op with
  | .sendAndAwaitTurn .. => true
  | _ => false

/-- The call ended with `MitraChannelClosed`. -/
def closed (e : Event) : Bool :=
  match e.answer with
  | .error (.mitra (.channelClosed _)) => true
  | _ => false

end Event

/-- The calls that sent the text. -/
def sends (es : List Event) : List Event := es.filter (·.isSend)

/-- How many times Mitra received the text. -/
def recorded (es : List Event) : ℕ := (sends es).countP (·.done)

/-- Mitra had received the text when the channel closed, and received it again on the next one. -/
def SentAgain (es : List Event) : Prop :=
  ∃ e e' rest, sends es = e :: e' :: rest ∧ (e.done = true ∧ e.closed = true) ∧ e'.done = true

theorem sends_append (es : List Event) (e : Event) :
    sends (es ++ [e]) = sends es ++ if e.isSend then [e] else [] := by
  simp [sends,List.filter_append,List.filter_singleton]

/-- The texts sent so far: a second one follows only a closed channel. -/
inductive Sent : List Event → Prop
  | none : Sent []
  | one (e : Event) : Sent [e]
  | two (e e' : Event) (he : e.closed = true) : Sent [e,e']

theorem Sent.recorded_iff {es : List Event} (h : Sent (sends es)) :
    recorded es ≤ 1 ↔ ¬ SentAgain es := by
  unfold recorded SentAgain
  cases hs : sends es with
  | nil => simp
  | cons e rest =>
    rw [hs] at h
    cases h with
    | one e => cases hd : e.done <;> simp [hd]
    | two e e' he => cases hd : e.done <;> cases hd' : e'.done <;> simp [hd,hd',he]

namespace HandlerCalls

/-- Before each call at most the texts of one handler have been sent. -/
def spec : Spec Op Op.Ans Exn (List Event) where
  pre _ es := Sent (sends es)
  post o es r es' := ∃ done, es' = es ++ [⟨o,r,done⟩]

variable {α : Type} {es es' : List Event} {o : Op} {r : Except Exn o.Ans}

theorem sends_of_post (h : spec.post o es r es') :
    ∃ done, sends es' = sends es ++ if Event.isSend ⟨o,r,done⟩ then [⟨o,r,done⟩] else [] := by
  obtain ⟨done,rfl⟩ := h
  exact ⟨done,sends_append es ⟨o,r,done⟩⟩

/-- The calls that send no text. -/
def Silent (o : Op) : Prop := ∀ ch text t g sess, o ≠ .sendAndAwaitTurn ch text t g sess

theorem sends_of_silent (ho : Silent o) (h : spec.post o es r es') : sends es' = sends es := by
  obtain ⟨done,hs⟩ := sends_of_post h
  have hsend : Event.isSend ⟨o,r,done⟩ = false := by
    cases o with
    | sendAndAwaitTurn ch text t g sess => exact absurd rfl (ho ch text t g sess)
    | _ => rfl
  simpa [hsend] using hs

/-- A silent program leaves the texts sent as they are. -/
theorem keeps_sends {p : Proc α} {l : List Event} (hp : All Silent p) (hl : Sent l) :
    Keeps spec (fun es => sends es = l) p := by
  apply Keeps.of_all hp
  intro o ho es hes es₁ hr
  obtain rfl : es = es₁ := hr
  have hpre : Sent (sends es) := by
    rw [hes]
    exact hl
  exact ⟨hpre,fun r es₂ h₂ => (sends_of_silent ho h₂).trans hes⟩

theorem silent_of_role {o : Op} (ho : o.role ≠ .channel) : Silent o := by
  intro ch text t g sess he
  exact ho (by rw [he]; rfl)

theorem silent_of_within {p : Proc α} {rs : List Role} (hp : Within rs p) (hs : Role.channel ∉ rs) :
    All Silent p :=
  All.mono hp fun _ ho => silent_of_role fun e => hs (e ▸ ho)

open RemoteFlowAgentHandler MitraSessionManager

/-- One send after the texts in `l`. -/
theorem wp_sendOn {ch : ChannelId} {text : Json} {t g : ℕ} {auth : Auth} {l : List Event}
    {Q : Except Exn Channel.BotTurn → List Event → Prop} (hes : sends es = l) (hl : Sent l)
    (hQ : ∀ r done es', sends es' = l ++ [⟨.sendAndAwaitTurn ch text t g auth,r,done⟩] → Q r es') :
    wp spec (sendOn ch text t g auth) Q es := by
  apply wp_perform.mpr
  intro es₁ hr
  obtain rfl : es = es₁ := hr
  have hpre : Sent (sends es) := by
    rw [hes]
    exact hl
  refine ⟨hpre,fun r es₂ h₂ => ?_⟩
  obtain ⟨done,hs⟩ := sends_of_post h₂
  apply hQ r done es₂
  rw [hs,hes]
  rfl

theorem sent_converse (c : ConversationId) (auth : Auth) (text : Json) (t g : ℕ)
    (hes : sends es = []) :
    wp spec (converse c auth text t g) (fun _ es' => Sent (sends es')) es := by
  have hacquire : All Silent (MitraSessionManager.acquire c auth) :=
    ⟨fun ch text t g sess => by simp,fun r => all_settle r⟩
  have hreacquire : All Silent (MitraSessionManager.reacquire c auth) :=
    All.bind ⟨fun ch text t g sess => by simp,fun r => all_settle r⟩ fun _ => hacquire
  apply wp_bind.mpr
  apply wp_mono (keeps_sends hacquire .none es hes)
  rintro (e | ch) es₁ h₁
  · rw [h₁]
    exact .none
  apply wp_bind.mpr
  apply wp_attempt.mpr
  apply wp_sendOn h₁ .none
  intro r done es₂ h₂
  rw [List.nil_append] at h₂
  have hone : Sent (sends es₂) := h₂ ▸ .one _
  rcases r with e | bot
  · cases e with
    | mitra e =>
      cases e with
      | channelClosed reason =>
        apply wp_bind.mpr
        apply wp_mono (keeps_sends hreacquire (.one _) es₂ h₂)
        rintro (e | ch') es₃ h₃
        · rw [h₃]
          exact .one _
        apply wp_sendOn h₃ (.one _)
        intro r' done' es₄ h₄
        rw [h₄]
        exact .two _ _ rfl
      | _ => exact hone
    | _ => exact hone
  · exact hone

theorem sent_handle (key : String) (remote : RemoteSpec) (user : UserContext)
    (session : Option AgentSessionView) (text : Json) (hes : sends es = []) :
    wp spec (RemoteFlowAgentHandler.handle key remote user session text)
      (fun _ es' => Sent (sends es')) es := by
  cases session with
  | none =>
    change Sent (sends es)
    rw [hes]
    exact .none
  | some session =>
    have hsession : All Silent (remoteSession remote user session) :=
      silent_of_within (remoteSession_calls remote user session).within (by decide)
    apply wp_bind.mpr
    apply wp_mono (keeps_sends hsession .none es hes)
    rintro (e | sess) es₁ h₁
    · rw [h₁]
      exact .none
    apply wp_bind.mpr
    apply wp_mono (sent_converse _ _ _ _ _ h₁)
    rintro (e | bot) es₂ h₂
    · exact h₂
    have hcalls : Within [.read] (if remote.completionPollEveryTurn then
        perform (Op.isSessionCompleted sess.remoteSessionId)
      else Pure.pure false : Proc Bool) := Within.branch (Within.perform rfl) trivial
    have hpoll := silent_of_within hcalls (by decide)
    apply wp_bind.mpr
    apply wp_mono (keeps_sends hpoll h₂ es₂ rfl)
    rintro (e | finished) es₃ h₃
    · rw [h₃]
      exact h₂
    · change Sent (sends es₃)
      rw [h₃]
      exact h₂

/-- The record of one handler's calls. -/
def solo (d : Deployment) (x : Conn) : Solo (handlers d) anyAct x (List Event) where
  loc w := w.events x
  spec := spec
  G _ := True
  rely_refl _ := rfl
  rely_trans _ _ _ h₁ h₂ := h₁.trans h₂
  G_step _ _ _ _ _ _ := trivial
  call_ok c o k ch r w _ _ _ _ he := by
    obtain ⟨done,w₁,hp,rfl⟩ := World.performed_of_exec he
    exact ⟨done,by simp [World.record,hp.events]⟩
  start_ok c y job hy _ _ := by
    change c.world.events x = Function.update c.world.events y [] x
    rw [Function.update_of_ne hy.symm]
  other_ok c y o k ch r w hy _ _ _ he := by
    obtain ⟨done,w₁,hp,rfl⟩ := World.performed_of_exec he
    change c.world.events x = _
    simp [World.record,hp.events,Function.update_of_ne hy.symm]
  env_ok c e w _ _ he := by
    change c.world.events x = w.events x
    rw [(World.envFrame he).events]

end HandlerCalls

/-- At every moment of one call of the handler, whatever the sockets and all other programs do:
Mitra has recorded the text at most once if and only if it did not receive it again after the
channel closed on a text that it had received. -/
theorem handle_records_once {d : Deployment} {c₀ c₁ c₂ : Services.Config AgentTurn} {x : Conn}
    {key : String} {remote : RemoteSpec} {user : UserContext} {session : Option AgentSessionView}
    {text : Json} (hs : step (handlers d) c₀ (.start x (.handle key remote user session text)) = some c₁)
    (hr : Reach (step (handlers d)) (Serving anyAct x) c₁ c₂) :
    recorded (c₂.world.events x) ≤ 1 ↔ ¬ SentAgain (c₂.world.events x) := by
  have hstart : sends (c₁.world.events x) = [] := by
    cases stepped_of_step hs with
    | start hx => simp [handlers,sends]
  have hsent : Sent (sends (c₂.world.events x)) :=
    (HandlerCalls.solo d x).always hs hr trivial (fun o es h => h) (fun es es' h he => he ▸ h)
      (HandlerCalls.sent_handle key remote user session text hstart)
  exact hsent.recorded_iff

/-- The next turn of an interview that has a remote session. -/
def answerJob : Job :=
  .handle "story" { flowName := "guest-mi-story", botRouteEnv := "BOT_ROUTE" } Sample.caller
    (some { id := 0, conversationId := 0, agentId := 2, remoteSessionId := some "remote-session",
            remoteProfileId := some "profile", remoteFlow := none, remoteBotRoute := none,
            language := "en" }) (.str "my answer")

/-- A turn on an open channel is recorded once. -/
theorem handle_records_once_answered : ∃ c₁ c₂ : Services.Config AgentTurn,
    step (handlers Sample.deployment) (idle Sample.world) (.start 0 answerJob) = some c₁ ∧
    Reach (step (handlers Sample.deployment)) (Serving anyAct 0) c₁ c₂ ∧ c₂.Ended 0 ∧
    recorded (c₂.world.events 0) ≤ 1 := by
  have hrun : (((step (handlers Sample.deployment) (idle Sample.world) (.start 0 answerJob)).bind
      (serve (handlers Sample.deployment) (Serving anyAct 0) 0 Sample.smooth 9)).any fun c =>
        c.ended 0 && decide ((sends (c.world.events 0)).length = 1)) = true := by
    decide +kernel
  obtain ⟨c₁,c₂,hs,hr,hP⟩ := exists_served hrun
  simp only [Bool.and_eq_true,decide_eq_true_eq] at hP
  refine ⟨c₁,c₂,hs,hr,Config.ended_iff.mp hP.1,(handle_records_once hs hr).mpr ?_⟩
  rintro ⟨e,e',rest,he,-⟩
  simp [he] at hP

/-- The first channel closes after Mitra has received the text; the second one answers. -/
def closedAfterSend (w : World) (o : Op) : Choice :=
  match o with
  | .sendAndAwaitTurn .. =>
    if w.channels.length = 1 then .schedule [.go {},.go {},.readerEnd "connection lost",.go {}]
    else Sample.reply 1
  | o => Sample.smooth w o

/-- Mitra records the text twice. -/
theorem closedAfterSend_records_twice : ∃ c₁ c₂ : Services.Config AgentTurn,
    step (handlers Sample.deployment) (idle Sample.world) (.start 0 answerJob) = some c₁ ∧
    Reach (step (handlers Sample.deployment)) (Serving anyAct 0) c₁ c₂ ∧
    ¬ recorded (c₂.world.events 0) ≤ 1 := by
  have hrun : (((step (handlers Sample.deployment) (idle Sample.world) (.start 0 answerJob)).bind
      (serve (handlers Sample.deployment) (Serving anyAct 0) 0 closedAfterSend 9)).any fun c =>
        decide (recorded (c.world.events 0) = 2)) = true := by
    decide +kernel
  obtain ⟨c₁,c₂,hs,hr,hP⟩ := exists_served hrun
  have htwo : recorded (c₂.world.events 0) = 2 := of_decide_eq_true hP
  refine ⟨c₁,c₂,hs,hr,?_⟩
  omega

end Saarathi
