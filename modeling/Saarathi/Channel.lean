import Saarathi.Agents

/-!
# The WebSocket channel

`MitraChannel` as a machine: the reader thread fills a bounded queue, the caller
of `send_and_await_turn` drains it, sends its text and accumulates the reply, and
any thread may close the socket. One action is one step of one thread. The number
of the text that a frame answers is known to Mitra alone; the machine only carries
it along.
-/

namespace Saarathi
namespace Channel

/-- A parsed frame, with the fields that the accumulation loop reads. -/
structure Frame where
  source : String
  msg : String := ""
  step : Option ℤ := none
  finishReason : Option String := none
  options : List TurnOption := []
  error : String := ""
  controlPayload : Bool := false
  deriving DecidableEq

/-- A frame and the number of the text it replies to; a greeting answers none. -/
structure Arrival where
  frame : Frame
  answers : Option ℕ := none
  deriving DecidableEq

structure BotTurn where
  text : String
  options : List TurnOption := []
  step : Option ℤ := none
  deriving DecidableEq

def unreadableTurnMessage : String := "Sorry, I didn't quite catch that. Could you say it again?"

/-- `maxsize` of the frame queue. -/
def queueMax : ℕ := 512

/-- The local variables of `send_and_await_turn`, with the number of its text and the bot
frames it has read. -/
structure Loop where
  turn : ℕ
  deadline : ℕ
  idleGap : ℕ
  lastRx : ℕ
  chunks : List String := []
  options : List TurnOption := []
  step : Option ℤ := none
  sawControlPayload : Bool := false
  heardFromBot : Bool := false
  used : List Arrival := []

/-- Where the holder of the turn lock stands. -/
inductive Pc where
  | draining (text : Json) (timeout idleGap : ℕ)
  | sending (text : Json) (timeout idleGap : ℕ)
  | checking (l : Loop)
  | waiting (l : Loop) (expiry : ℕ)

/-- How one call ended. -/
inductive Outcome where
  | returned (turn : ℕ) (used : List Arrival) (b : BotTurn)
  | raised (turn : ℕ) (e : Exn)

structure Chan where
  queue : List Arrival := []
  pending : Option Arrival := none
  closed : Bool := false
  closeReason : String := ""
  readerDone : Bool := false
  now : ℕ := 0
  sent : ℕ := 0
  pc : Option Pc := none
  delivered : List Json := []
  outcomes : List Outcome := []

/-- What `ws.send` did: whether Mitra received the text, and what it raised. -/
structure SendResult where
  received : Bool := true
  raised : Option Exn := none

inductive Act where
  | tick (d : ℕ)
  | recv (a : Arrival)
  | readerEnd (reason : String)
  | close
  | call (text : Json) (timeout idleGap : ℕ)
  | go (sent : SendResult)

namespace Chan

variable (c : Chan)

/-- The call ends and the turn lock is released. -/
def finish (o : Outcome) : Chan := { c with pc := none, outcomes := c.outcomes ++ [o] }

/-- The value returned from what was accumulated. -/
def botTurn (l : Loop) : BotTurn where
  text := if String.join l.chunks = "" ∧ l.sawControlPayload then unreadableTurnMessage
    else String.join l.chunks
  options := l.options
  step := l.step

def flush (l : Loop) : Chan := c.finish (.returned l.turn l.used (botTurn l))

/-- The loop's accumulators after a bot frame. -/
def accumulate (l : Loop) (a : Arrival) : Loop := { l with
  lastRx := c.now
  heardFromBot := true
  sawControlPayload := l.sawControlPayload || a.frame.controlPayload
  chunks := if a.frame.msg = "" then l.chunks else l.chunks ++ [a.frame.msg]
  step := a.frame.step <|> l.step
  options := if a.frame.options.isEmpty then l.options else a.frame.options
  used := l.used ++ [a] }

/-- One frame of the loop. -/
def process (l : Loop) (a : Arrival) : Chan :=
  if a.frame.source = "user" then { c with pc := some (.checking l) }
  else if a.frame.source = "system" ∧ a.frame.error ≠ "" then
    c.finish (.raised l.turn (.mitra (.remote (if a.frame.msg = "" then a.frame.error else a.frame.msg))))
  else if a.frame.source ≠ "bot" then { c with pc := some (.checking l) }
  else if a.frame.finishReason.getD "" ≠ "" then c.flush (c.accumulate l a)
  else { c with pc := some (.checking (c.accumulate l a)) }

/-- When the loop stops waiting: the turn's deadline, or the idle gap once the bot has spoken. -/
def expiry (l : Loop) : ℕ := if l.heardFromBot then min l.deadline (l.lastRx + l.idleGap) else l.deadline

/-- The top of the loop. -/
def check (l : Loop) : Chan :=
  if c.closed then c.finish (.raised l.turn (.mitra (.channelClosed c.closeReason)))
  else if expiry l ≤ c.now then
    if !l.chunks.isEmpty || l.sawControlPayload then c.flush l
    else c.finish (.raised l.turn (.mitra (.turnTimeout l.step)))
  else match c.pending with
    | some a => { c with pending := none }.process l a
    | none => { c with pc := some (.waiting l (expiry l)) }

/-- One round of `_drain_stale`; the drain is over when the queue is seen empty. -/
def drain (text : Json) (timeout gap : ℕ) : Chan :=
  match c.queue with
  | [] => { c with pc := some (.sending text timeout gap), sent := c.sent + 1 }
  | _ :: q => { c with queue := q, pc := some (.draining text timeout gap) }

def deliver (text : Json) (r : SendResult) : Chan :=
  if r.received then { c with delivered := c.delivered ++ [text] } else c

/-- `ws.send`; the deadline runs from its return. -/
def send (text : Json) (timeout gap : ℕ) (r : SendResult) : Chan :=
  match r.raised with
  | some e => (c.deliver text r).finish (.raised c.sent e)
  | none => { c.deliver text r with pc := some (.checking
      { turn := c.sent, deadline := c.now + timeout, idleGap := gap, lastRx := c.now }) }

/-- Blocked in `_q.get`, which prefers a frame to its timeout. -/
def wait (l : Loop) (e : ℕ) : Option Chan :=
  match c.queue with
  | a :: q => some ({ c with queue := q }.process l a)
  | [] => if e ≤ c.now then some { c with pc := some (.checking l) } else none

/-- The next step of the thread that holds the turn lock. -/
def go (r : SendResult) : Option Chan :=
  match c.pc with
  | none => none
  | some (.draining text timeout gap) => some (c.drain text timeout gap)
  | some (.sending text timeout gap) => some (c.send text timeout gap r)
  | some (.checking l) => some (c.check l)
  | some (.waiting l e) => c.wait l e

def step : Act → Option Chan
  | .tick d => some { c with now := c.now + d }
  | .recv a =>
    if c.readerDone || queueMax ≤ c.queue.length then none
    else some { c with queue := c.queue ++ [a] }
  | .readerEnd reason =>
    if c.readerDone then none
    else some { c with readerDone := true, closed := true, closeReason := reason }
  | .close => some { c with closed := true }
  | .call text timeout gap => match c.pc with
    | none => some { c with pc := some (.draining text timeout gap) }
    | some _ => some { c with outcomes := c.outcomes ++ [.raised c.sent (.mitra .concurrentTurn)] }
  | .go r => c.go r

/-- `ch.alive`. -/
def alive : Bool := !c.closed

/-- Run one call to its end: the actions up to the first outcome, which must be the last. -/
def runCall : Chan → List Act → Option (Outcome × Chan)
  | _, [] => none
  | c, a :: as => match c.step a with
    | none => none
    | some c' => match c'.pc, c'.outcomes.getLast? with
      | none, some o => if as.isEmpty then some (o,c') else none
      | none, none => none
      | some _, _ => runCall c' as

/-- `send_and_await_turn`, on one schedule of the threads. -/
def sendAndAwaitTurn (text : Json) (timeout idleGap : ℕ) (schedule : List Act) :
    Option (Outcome × Chan) :=
  match c.pc with
  | some _ => some (.raised c.sent (.mitra .concurrentTurn),c)
  | none => ({ c with pc := some (.draining text timeout idleGap) } : Chan).runCall schedule

end Chan

end Channel
end Saarathi
