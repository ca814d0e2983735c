import Mathlib.Data.Nat.Notation
import Mathlib.Tactic.Common

/-!
# Python string operations

The string methods that the services call, on lists of code points.
-/

namespace Saarathi
namespace Text

/-- `str.isspace` on one code point. -/
def isSpace (c : Char) : Bool :=
  let n := c.toNat
  (0x09 ≤ n && n ≤ 0x0D) || (0x1C ≤ n && n ≤ 0x20) || n == 0x85 || n == 0xA0 || n == 0x1680 ||
    (0x2000 ≤ n && n ≤ 0x200A) || n == 0x2028 || n == 0x2029 || n == 0x202F || n == 0x205F ||
    n == 0x3000

def stripList (p : Char → Bool) (cs : List Char) : List Char :=
  ((cs.dropWhile p).reverse.dropWhile p).reverse

/-- `s.strip()`. -/
def strip (s : String) : String := String.ofList (stripList isSpace s.toList)

/-- `s.strip(chars)`. -/
def stripChars (chars s : String) : String :=
  String.ofList (stripList (fun c => chars.toList.contains c) s.toList)

/-- `s.split()`: the maximal runs of code points that are not whitespace. -/
def splitList : List Char → List (List Char)
  | [] => []
  | c :: cs =>
    if isSpace c then splitList cs
    else match cs with
      | [] => [[c]]
      | d :: _ => if isSpace d then [c] :: splitList cs else match splitList cs with
        | [] => [[c]]
        | w :: ws => (c :: w) :: ws

/-- `" ".join(s.split())`. -/
def collapse (s : String) : String :=
  " ".intercalate ((splitList s.toList).map String.ofList)

/-- `sub in s`. -/
def contains (s sub : String) : Bool := s.toList.tails.any fun t => sub.toList.isPrefixOf t

/-- A text with a NUL, which PostgreSQL stores in no text or JSON column. -/
def hasNul (s : String) : Bool := s.toList.contains '\x00'

end Text
end Saarathi
