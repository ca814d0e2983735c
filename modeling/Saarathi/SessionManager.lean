import Saarathi.World
import Saarathi.OrderedDict

/-!
# The channel pool between its locks

`MitraSessionManager` as a machine of its own, over conversations of any type.
What a caller does while it holds the lock is one step, and so is each close that
is made without it. Any number of callers are under way.
-/

namespace Saarathi
namespace SessionManager

open Machine

/-- What is known of a channel that the factory returned. -/
structure ChannelState where
  closed : Bool := false
  readerDone : Bool := false
  inTurn : Bool := false
  lastAcquired : ℕ
  deriving DecidableEq

def ChannelState.alive (c : ChannelState) : Bool := !(c.closed || c.readerDone)

/-- The two maps, the channels by number and the clock. The channels in the order in which they were
acquired, and those that housekeeping closed during a turn, are kept for the record. -/
structure Manager (K : Type) where
  chans : OrderedDict K ChannelId := {}
  lastUsed : OrderedDict K ℕ := {}
  channels : List ChannelState := []
  now : ℕ := 0
  acquired : List ChannelId := []
  killed : List ChannelId := []

/-- What the factory does: it raises, or it returns a channel after some time. -/
abbrev Made := Option ℕ

/-- What a caller does in one go. -/
inductive Section (K : Type) where
  | acquire (conversationId : K)
  | pop (conversationId : K)
  | popAll
  | readClock
  | popStale (now : ℕ)
  | close (i : ChannelId) (reaped : Bool)

inductive Call (K : Type) where
  | acquire (conversationId : K)
  | reacquire (conversationId : K)
  | close (conversationId : K)
  | closeAll
  | reapOnce

/-- The sections of a call; those that drop a channel go on to close it. -/
def Call.sections {K : Type} : Call K → List (Section K)
  | .acquire k => [.acquire k]
  | .reacquire k => [.pop k,.acquire k]
  | .close k => [.pop k]
  | .closeAll => [.popAll]
  | .reapOnce => [.readClock]

namespace Manager

variable {K : Type}

def alive (s : Manager K) (i : ChannelId) : Bool := (s.channels[i]?).any (·.alive)

def inTurn (s : Manager K) (i : ChannelId) : Bool := (s.channels[i]?).any (·.inTurn)

/-- `ch.close`, with whether housekeeping calls it. -/
def closeChannel (s : Manager K) (housekeeping : Bool) (i : ChannelId) : Manager K :=
  { s with
    channels := s.channels.modify i fun c => { c with closed := true }
    killed := if housekeeping && s.inTurn i then s.killed ++ [i] else s.killed }

/-- The channel is handed to a caller. -/
def stamp (s : Manager K) (i : ChannelId) : Manager K :=
  { s with
    channels := s.channels.modify i fun c => { c with lastAcquired := s.now }
    acquired := s.acquired ++ [i] }

variable [DecidableEq K]

/-- An entry leaves both maps. -/
def drop (s : Manager K) (k : K) : Manager K :=
  { s with chans := s.chans.erase k, lastUsed := s.lastUsed.erase k }

/-- `_evict_if_needed`, of at most so many rounds. -/
def evictIfNeeded (max : ℕ) : ℕ → Manager K → Manager K
  | 0,s => s
  | n + 1,s => match s.chans.items with
    | [] => s
    | (k,i) :: _ =>
      if max ≤ s.chans.items.length then evictIfNeeded max n ((s.drop k).closeChannel true i) else s

/-- Room is made, and a channel is opened. -/
def connect (s : Manager K) (max : ℕ) (k : K) (made : Made) : Manager K :=
  let s := s.evictIfNeeded max s.chans.items.length
  match made with
  | none => s
  | some d =>
    let i := s.channels.length
    stamp { s with
      now := s.now + d
      channels := s.channels ++ [{ lastAcquired := s.now + d }]
      chans := s.chans.set k i
      lastUsed := s.lastUsed.set k (s.now + d) } i

def acquire (s : Manager K) (max : ℕ) (k : K) (made : Made) : Manager K :=
  match s.chans.get? k with
  | some i =>
    if s.alive i then stamp { s with chans := s.chans.moveToEnd k, lastUsed := s.lastUsed.set k s.now } i
    else ((s.drop k).closeChannel false i).connect max k made
  | none => s.connect max k made

/-- The keys that `_reap_once` collects. -/
def staleIds (s : Manager K) (idleCloseS now : ℕ) : List K :=
  (s.chans.items.filter fun p => !s.alive p.2 || (s.lastUsed.get? p.1).getD now + idleCloseS ≤ now).map (·.1)

/-- One section: the state after it, and what the caller still has to do because of it. -/
def perform (s : Manager K) (max idleCloseS : ℕ) (made : Made) : Section K → Manager K × List (Section K)
  | .acquire k => (s.acquire max k made,[])
  | .pop k => (s.drop k,(s.chans.get? k).toList.map (.close · false))
  | .popAll => ({ s with chans := {}, lastUsed := {} },s.chans.values.map (.close · false))
  | .readClock => (s,[.popStale s.now])
  | .popStale now =>
    let stale := s.staleIds idleCloseS now
    (stale.foldl drop s,(stale.filterMap s.chans.get?).map (.close · true))
  | .close i reaped => (s.closeChannel reaped i,[])

end Manager

/-- The manager, and what each caller has still to do. -/
structure Pool (K : Type) where
  manager : Manager K := {}
  callers : List (List (Section K)) := []

inductive Event (K : Type) where
  | call (c : Call K)
  | go (t : ℕ) (made : Made)
  | tick (d : ℕ)
  | readerEnd (i : ChannelId)
  | turnBegins (i : ChannelId)
  | turnEnds (i : ChannelId)

variable {K : Type} [DecidableEq K]

def Manager.touch (s : Manager K) (i : ChannelId) (f : ChannelState → ChannelState) : Manager K :=
  { s with channels := s.channels.modify i f }

def Pool.step (max idleCloseS : ℕ) (p : Pool K) : Event K → Option (Pool K)
  | .call c => some { p with callers := p.callers ++ [c.sections] }
  | .go t made => match p.callers[t]? with
    | some (b :: bs) =>
      let r := p.manager.perform max idleCloseS made b
      some ⟨r.1,p.callers.set t (r.2 ++ bs)⟩
    | _ => none
  | .tick d => some { p with manager := { p.manager with now := p.manager.now + d } }
  | .readerEnd i => some { p with manager := p.manager.touch i fun c => { c with readerDone := true } }
  | .turnBegins i => if p.manager.inTurn i then none
    else some { p with manager := p.manager.touch i fun c => { c with inTurn := true } }
  | .turnEnds i => some { p with manager := p.manager.touch i fun c => { c with inTurn := false } }

end SessionManager
end Saarathi
