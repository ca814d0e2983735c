import Saarathi.CapabilitySchema
import Saarathi.Errors

/-!
# The page's view of a JSON value

What `JSON.parse` makes of a response: its texts as UTF-16 code units, its integers as
the numbers that have them.
-/

namespace Saarathi

/-- The code units of a character. -/
def unitsOf (c : Char) : JsString :=
  if c.toNat < 0x10000 then [UInt16.ofNat c.toNat]
  else [UInt16.ofNat (0xD800 + (c.toNat - 0x10000) / 0x400),UInt16.ofNat (0xDC00 + (c.toNat - 0x10000) % 0x400)]

/-- A text of the server, as the page has it. -/
def utf16 (s : String) : JsString := s.toList.flatMap unitsOf

section Units

variable {c c' : Char} {us us' : List UInt16}

theorem char_bounds (c : Char) : c.toNat < 0xD800 ∨ (0xDFFF < c.toNat ∧ c.toNat < 0x110000) := c.valid

theorem ofNat_inj {m n : ℕ} (hm : m < 0x10000) (hn : n < 0x10000) (h : UInt16.ofNat m = UInt16.ofNat n) : m = n := by
  have hnat := congrArg UInt16.toNat h
  rwa [UInt16.toNat_ofNat_of_lt' hm,UInt16.toNat_ofNat_of_lt' hn] at hnat

/-- No character's code units begin another's. -/
theorem unitsOf_append_inj (h : unitsOf c ++ us = unitsOf c' ++ us') : c = c' ∧ us = us' := by
  have hc := char_bounds c
  have hc' := char_bounds c'
  unfold unitsOf at h
  split at h
  · rename_i hlow
    split at h
    · rename_i hlow'
      obtain ⟨hunit,hus⟩ := List.cons.inj h
      exact ⟨Char.toNat_inj.mp (ofNat_inj hlow hlow' hunit),hus⟩
    · rename_i hhigh'
      have hunit := ofNat_inj hlow (by omega) (List.cons.inj h).1
      omega
  · rename_i hhigh
    split at h
    · rename_i hlow'
      have hunit := ofNat_inj (by omega) hlow' (List.cons.inj h).1
      omega
    · obtain ⟨hunit,hrest⟩ := List.cons.inj h
      obtain ⟨hunit',hus⟩ := List.cons.inj hrest
      have hhi := ofNat_inj (by omega) (by omega) hunit
      have hlo := ofNat_inj (by omega) (by omega) hunit'
      exact ⟨Char.toNat_inj.mp (by omega),hus⟩

theorem utf16_injective {s s' : String} (h : utf16 s = utf16 s') : s = s' := by
  have hne : ∀ (c : Char) (us : JsString), unitsOf c ++ us ≠ [] := by
    intro c us
    unfold unitsOf
    split <;> simp
  have hlist : ∀ cs cs' : List Char, cs.flatMap unitsOf = cs'.flatMap unitsOf → cs = cs' := by
    intro cs
    induction cs with
    | nil =>
      rintro (_ | ⟨c',cs'⟩) heq
      · rfl
      · exact absurd heq.symm (hne c' _)
    | cons c cs ih =>
      rintro (_ | ⟨c',cs'⟩) heq
      · exact absurd heq (hne c _)
      · obtain ⟨rfl,hrest⟩ := unitsOf_append_inj heq
        rw [ih cs' hrest]
  exact String.toList_injective (hlist _ _ h)

end Units

/-- The number of a literal of digits. -/
def readDigits (cs : List Char) : Option ℕ :=
  if !cs.isEmpty && cs.all Char.isDigit then some (Nat.ofDigitChars 10 cs 0) else none

/-- The integer of a literal that has neither a fraction nor an exponent. -/
def readInteger : List Char → Option ℤ
  | '-' :: cs => (readDigits cs).map fun n => -(n : ℤ)
  | cs => (readDigits cs).map Int.ofNat

/-- A number as the page has it; `other` is what it makes of the literals of numbers that are no integer, of `-0`,
and of integers too large for a number to have them exactly. -/
def readLiteral (other : String → JsNumber) (s : String) : JsNumber :=
  match readInteger s.toList with
  | some i => if i.natAbs ≤ 2 ^ 53 ∧ s ≠ "-0" then .finite (.value i) else other s
  | none => other s

section Literals

theorem readDigits_repr (n : ℕ) : readDigits (Nat.toDigits 10 n) = some n := by
  have hne : (Nat.toDigits 10 n).isEmpty = false := by
    rw [List.isEmpty_eq_false_iff]
    exact Nat.toDigits_ne_nil
  have hall : (Nat.toDigits 10 n).all Char.isDigit = true :=
    List.all_eq_true.mpr fun c hc => Nat.isDigit_of_mem_toDigits (by decide) (by decide) hc
  rw [readDigits,hne,hall,Nat.ofDigitChars_ten_toDigits]
  rfl

theorem readInteger_digits {cs : List Char} (h : '-' ∉ cs) : readInteger cs = (readDigits cs).map Int.ofNat := by
  unfold readInteger
  split
  · exact absurd List.mem_cons_self h
  · rfl

theorem readInteger_toString (i : ℤ) : readInteger (toString i).toList = some i := by
  cases i with
  | ofNat n =>
    have hlist : (toString (Int.ofNat n)).toList = Nat.toDigits 10 n := Nat.toList_repr
    have hminus : '-' ∉ Nat.toDigits 10 n := fun hmem =>
      absurd (Nat.isDigit_of_mem_toDigits (by decide) (by decide) hmem) (by decide)
    rw [hlist,readInteger_digits hminus,readDigits_repr]
    rfl
  | negSucc n =>
    have hlist : (toString (Int.negSucc n)).toList = '-' :: Nat.toDigits 10 (n + 1) := by
      rw [← Nat.toList_repr]
      exact String.toList_append
    rw [hlist,readInteger,readDigits_repr]
    rfl

/-- An integer that a number has exactly is read as it is. -/
theorem readLiteral_toString (other : String → JsNumber) {i : ℤ} (h : i.natAbs ≤ 2 ^ 53) :
    readLiteral other (toString i) = .finite (.value i) := by
  have hzero : toString i ≠ "-0" := by
    intro heq
    have hread := readInteger_toString i
    rw [heq] at hread
    obtain rfl : 0 = i := Option.some.inj hread
    exact absurd heq (by decide)
  rw [readLiteral,readInteger_toString]
  exact if_pos ⟨h,hzero⟩

end Literals

section Values

variable (other : String → JsNumber)

mutual

/-- The value that the page has for one of the server's. -/
def toJs : Json → JsValue
  | .null => .null
  | .bool b => .bool b
  | .num literal => .number (readLiteral other literal)
  | .str s => .string (utf16 s)
  | .arr items => .array (toJsItems items)
  | .obj fields => .object (toJsFields fields)

def toJsItems : List Json → List JsValue
  | [] => []
  | v :: vs => toJs v :: toJsItems vs

def toJsFields : List (String × Json) → List (JsString × JsValue)
  | [] => []
  | (k,v) :: es => (utf16 k,toJs v) :: toJsFields es

end

variable {other} {fields : List (String × Json)} {k : String}

theorem toJsItems_eq (vs : List Json) : toJsItems other vs = vs.map (toJs other) := by
  induction vs with
  | nil => rfl
  | cons v vs ih => rw [toJsItems,ih,List.map_cons]

theorem toJsFields_eq (fields : List (String × Json)) :
    toJsFields other fields = fields.map fun f => (utf16 f.1,toJs other f.2) := by
  induction fields with
  | nil => rfl
  | cons f fields ih => rw [toJsFields,ih,List.map_cons]

/-- A property of the object is the value under the key. -/
theorem get_toJsFields (fields : List (String × Json)) (k : String) :
    JsValue.get (toJsFields other fields) (utf16 k) = (Json.lookup fields k).map (toJs other) := by
  have hkey : (fun f : String × Json => decide (utf16 f.1 = utf16 k)) = fun f => decide (f.1 = k) :=
    funext fun f => decide_eq_decide.mpr ⟨fun h => utf16_injective h,fun h => congrArg utf16 h⟩
  rw [toJsFields_eq,JsValue.get,List.find?_map,Json.lookup,Option.map_map,Option.map_map]
  exact congrArg (fun p => (fields.find? p).map _) hkey

end Values

end Saarathi
