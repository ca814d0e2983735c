import Mathlib.Data.Int.Notation
import Mathlib.Data.Nat.Notation

/-!
# Values and exceptions

JSON values as request bodies carry them, and the exceptions that the services,
the database layer and the Mitra integration raise.
-/

namespace Saarathi

abbrev SessionId := ℕ
abbrev ConversationId := ℕ
abbrev AgentId := ℕ

/-- A parsed JSON value; a number is kept as Python prints it. -/
inductive Json where
  | null
  | bool (b : Bool)
  | num (literal : String)
  | str (s : String)
  | arr (items : List Json)
  | obj (fields : List (String × Json))
  deriving Inhabited

namespace Json

/-- Python truthiness. -/
def truthy : Json → Bool
  | null => false
  | bool b => b
  | num literal => !(["0","0.0","-0.0"].contains literal)
  | str s => s != ""
  | arr items => !items.isEmpty
  | obj fields => !fields.isEmpty

/-- `a or b`. -/
def orElse (a b : Json) : Json := if a.truthy then a else b

/-- The value under a key of an object. -/
def lookup (fields : List (String × Json)) (key : String) : Option Json :=
  (fields.find? (·.1 = key)).map (·.2)

/-- `fields.get(key)`. -/
def get (fields : List (String × Json)) (key : String) : Json := (lookup fields key).getD null

/-- `type(v).__name__`. -/
def typeName : Json → String
  | null => "NoneType"
  | bool _ => "bool"
  | num literal => if literal.toList.all fun c => c.isDigit || c == '-' then "int" else "float"
  | str _ => "str"
  | arr _ => "list"
  | obj _ => "dict"

end Json

/-- The exceptions of `integrations/mitra/exceptions.py`. -/
inductive MitraError where
  | base (msg : String)
  | http (method path : String) (status : ℕ) (detail : Option String)
  | ssrf
  | redirect (status : ℕ)
  | turnTimeout (lastStep : Option ℤ)
  | channelClosed (reason : String)
  | remote (msg : String)
  | concurrentTurn
  deriving DecidableEq, Repr

namespace MitraError

/-- `str(e)`. -/
def str : MitraError → String
  | base msg => msg
  | http method path status none => s!"Mitra {method} {path} returned HTTP {status}"
  | http method path status (some detail) =>
    if detail = "" then s!"Mitra {method} {path} returned HTTP {status}"
    else s!"Mitra {method} {path} returned HTTP {status}: {detail}"
  | ssrf => "URL returned by Mitra failed allowlist validation " ++
      "(must be https and from an approved host)"
  | redirect status => s!"Unexpected redirect (HTTP {status}) from Mitra — check MITRA_BASE_URL"
  | turnTimeout none => "no bot response before timeout (last step=None)"
  | turnTimeout (some n) => s!"no bot response before timeout (last step={n})"
  | channelClosed reason => if reason = "" then "channel closed" else s!"channel closed: {reason}"
  | remote msg => msg
  | concurrentTurn => "A turn is already in progress for this conversation."

end MitraError

/-- An exception inside one request. `rejected` is a statement that the database or its driver
refuses; `refused` is any statement after that, until the transaction is rolled back. -/
inductive Exn where
  | mitra (e : MitraError)
  | concurrentTurn (conversationId : ConversationId)
  | turnLimitExceeded (reason detail : String)
  | agentNotFound (key : String)
  | invalidTransition (sessionId : SessionId) (currentState targetState : String)
  | concurrentModification (sessionId : SessionId)
  | rejected
  | refused
  | noResultFound
  | multipleResultsFound
  | python (cls msg : String)
  deriving DecidableEq, Repr

namespace Exn

/-- `isinstance(e, MitraError)`. -/
def isMitra : Exn → Bool
  | mitra _ => true
  | _ => false

/-- The database or the `Session` refused a statement. -/
def dbFailure : Exn → Bool
  | rejected => true
  | refused => true
  | _ => false

/-- `str(e)`; the texts of driver errors are left open by the empty string. -/
def str : Exn → String
  | mitra e => e.str
  | concurrentTurn c => s!"a turn is already in flight for conversation {c}"
  | turnLimitExceeded _ detail => detail
  | agentNotFound key => s!"agent not found or not selectable: '{key}'"
  | invalidTransition s cur target => s!"session {s}: cannot transition '{cur}' -> '{target}'"
  | concurrentModification s => s!"session {s} was modified concurrently"
  | rejected => ""
  | refused => ""
  | noResultFound => "No row was found when one was required"
  | multipleResultsFound => "Multiple rows were found when one or none was required"
  | python _ msg => msg

end Exn

end Saarathi
