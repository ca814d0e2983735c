import Mathlib.Data.List.Sort
import Mathlib.Data.String.Basic
import Saarathi.Errors
import Saarathi.OrderedDict
import Saarathi.Scanning

/-!
# The text of a JSON value

`json.dumps` with sorted keys and without blanks, and `json.loads`, which reads the
value back with its keys in order.
-/

namespace Saarathi
namespace JsonText

/-- A hexadecimal digit in lower case. -/
def hexDigit (n : ℕ) : Char := if n < 10 then Char.ofNat (48 + n) else Char.ofNat (87 + n)

def hexValue (c : Char) : Option ℕ :=
  if 48 ≤ c.toNat ∧ c.toNat ≤ 57 then some (c.toNat - 48)
  else if 97 ≤ c.toNat ∧ c.toNat ≤ 102 then some (c.toNat - 87)
  else if 65 ≤ c.toNat ∧ c.toNat ≤ 70 then some (c.toNat - 55)
  else none

/-- The escape of a UTF-16 code unit. -/
def escapeUnit (n : ℕ) : List Char :=
  ['\\','u',hexDigit (n / 4096),hexDigit (n / 256 % 16),hexDigit (n / 16 % 16),hexDigit (n % 16)]

/-- The characters with an escape of two letters. -/
def shortEscapes : List (Char × Char) :=
  [('\x22','\x22'),('\\','\\'),('\n','n'),('\r','r'),('\t','t'),('\x0c','f'),('\x08','b')]

/-- A character within a string; all that is written is ASCII. -/
def escapeChar (c : Char) : List Char := match shortEscapes.find? (·.1 = c) with
  | some e => ['\\',e.2]
  | none =>
    if 32 ≤ c.toNat ∧ c.toNat ≤ 126 then [c]
    else if c.toNat < 65536 then escapeUnit c.toNat
    else escapeUnit (55296 + (c.toNat - 65536) / 1024) ++ escapeUnit (56320 + (c.toNat - 65536) % 1024)

/-- The letter after a backslash. -/
def unescape (c : Char) : Option Char :=
  if c = '/' then some c else (shortEscapes.find? (·.2 = c)).map (·.1)

/-- The code unit that four hexadecimal digits tell. -/
def readUnit : List Char → Option (ℕ × List Char)
  | a :: b :: c :: d :: cs => do
    let a ← hexValue a
    let b ← hexValue b
    let c ← hexValue c
    let d ← hexValue d
    some (a * 4096 + b * 256 + c * 16 + d,cs)
  | _ => none

/-- The character at the front of a string's text. Half of a surrogate pair is no character. -/
def readChar : List Char → Option (Char × List Char)
  | '\\' :: 'u' :: cs => do
    let (n,cs) ← readUnit cs
    if 55296 ≤ n ∧ n < 56320 then
      match cs with
      | '\\' :: 'u' :: cs => do
        let (m,cs) ← readUnit cs
        if 56320 ≤ m ∧ m < 57344 then some (Char.ofNat (65536 + (n - 55296) * 1024 + (m - 56320)),cs) else none
      | _ => none
    else if 56320 ≤ n ∧ n < 57344 then none
    else some (Char.ofNat n,cs)
  | '\\' :: c :: cs => (unescape c).map fun c => (c,cs)
  | c :: cs => if c.toNat < 32 then none else some (c,cs)
  | [] => none

/-- A string's text up to the quotation mark that ends it. -/
def readString : ℕ → List Char → Option (List Char × List Char)
  | 0,_ => none
  | n + 1,cs =>
    if cs.head? = some '\x22' then some ([],cs.tail)
    else do
      let (c,cs) ← readChar cs
      let (s,cs) ← readString n cs
      some (c :: s,cs)

theorem hexValue_hexDigit : ∀ n < 16, hexValue (hexDigit n) = some n := by decide

theorem readUnit_escapeUnit {n : ℕ} (hn : n < 65536) (cs : List Char) :
    readUnit ((escapeUnit n).drop 2 ++ cs) = some (n,cs) := by
  have h₁ := hexValue_hexDigit (n / 4096) (by omega)
  have h₂ := hexValue_hexDigit (n / 256 % 16) (by omega)
  have h₃ := hexValue_hexDigit (n / 16 % 16) (by omega)
  have h₄ := hexValue_hexDigit (n % 16) (by omega)
  have hn : n / 4096 * 4096 + n / 256 % 16 * 256 + n / 16 % 16 * 16 + n % 16 = n := by omega
  simp [escapeUnit,readUnit,h₁,h₂,h₃,h₄,hn]

theorem unescape_short : ∀ e ∈ shortEscapes, e.2 ≠ 'u' ∧ unescape e.2 = some e.1 := by decide

theorem readChar_plain {c : Char} (hc : c ≠ '\\') (hle : 32 ≤ c.toNat) (cs : List Char) :
    readChar (c :: cs) = some (c,cs) := by
  unfold readChar
  split
  · exact absurd (by simp_all) hc
  · exact absurd (by simp_all) hc
  · next heq =>
    obtain ⟨rfl,rfl⟩ := List.cons.inj heq
    exact if_neg (by omega)
  · next heq => cases heq

theorem readChar_short {c : Char} (hc : c ≠ 'u') (cs : List Char) :
    readChar ('\\' :: c :: cs) = (unescape c).map fun c => (c,cs) := by
  rw [readChar]
  exact hc

theorem escapeUnit_eq (n : ℕ) : escapeUnit n = '\\' :: 'u' :: (escapeUnit n).drop 2 := rfl

/-- A code unit that is no half of a pair is read as the character. -/
theorem readChar_unit {n : ℕ} (hn : n < 65536) (hs : n < 55296 ∨ 57344 ≤ n) (cs : List Char) :
    readChar (escapeUnit n ++ cs) = some (Char.ofNat n,cs) := by
  rw [escapeUnit_eq,List.cons_append,List.cons_append,readChar,readUnit_escapeUnit hn]
  have hhigh : ¬(55296 ≤ n ∧ n < 56320) := by omega
  have hlow : ¬(56320 ≤ n ∧ n < 57344) := by omega
  simp [hhigh,hlow]

/-- The two halves of a pair are read as one character. -/
theorem readChar_pair {a b : ℕ} (ha : a < 1024) (hb : b < 1024) (cs : List Char) :
    readChar (escapeUnit (55296 + a) ++ (escapeUnit (56320 + b) ++ cs)) =
      some (Char.ofNat (65536 + a * 1024 + b),cs) := by
  rw [escapeUnit_eq,escapeUnit_eq (56320 + b),List.cons_append,List.cons_append,readChar,
    readUnit_escapeUnit (by omega)]
  have hhigh : 55296 + a < 56320 := by omega
  have hlow : 56320 + b < 57344 := by omega
  simp [hhigh,hlow,readUnit_escapeUnit (n := 56320 + b) (by omega)]

theorem toNat_lt (c : Char) : c.toNat < 55296 ∨ (57344 ≤ c.toNat ∧ c.toNat < 1114112) := by
  have hvalid := c.valid
  simp only [UInt32.isValidChar,Nat.isValidChar] at hvalid
  rw [Char.toNat]
  omega

/-- What is written for a character is read as the character. -/
theorem readChar_escapeChar (c : Char) (cs : List Char) : readChar (escapeChar c ++ cs) = some (c,cs) := by
  unfold escapeChar
  split
  · next e he =>
    obtain ⟨hu,hback⟩ := unescape_short e (List.mem_of_find?_eq_some he)
    obtain rfl : e.1 = c := by simpa using List.find?_some he
    rw [List.cons_append,List.cons_append,List.nil_append,readChar_short hu,hback]
    rfl
  · next hnone =>
    have hslash : c ≠ '\\' := by
      rintro rfl
      revert hnone
      decide
    have hrange := toNat_lt c
    split
    · next hplain => exact readChar_plain hslash hplain.1 cs
    · split
      · next hsmall => rw [readChar_unit hsmall (by omega),Char.ofNat_toNat]
      · next hlarge =>
        have hnat : 65536 + (c.toNat - 65536) / 1024 * 1024 + (c.toNat - 65536) % 1024 = c.toNat := by omega
        rw [List.append_assoc,readChar_pair (by omega) (by omega),hnat,Char.ofNat_toNat]

/-- The first character that is written is not the quotation mark. -/
theorem head_escapeChar (c : Char) (cs : List Char) : (escapeChar c ++ cs).head? ≠ some '\x22' := by
  unfold escapeChar
  split
  · simp
  · next hnone =>
    split
    · have hquote : c ≠ '\x22' := by
        rintro rfl
        revert hnone
        decide
      simpa using hquote
    · split <;> simp [escapeUnit]

theorem length_escapeChar (c : Char) : 0 < (escapeChar c).length := by
  unfold escapeChar
  split
  · simp
  · split
    · simp
    · split <;> simp [escapeUnit]

/-- What is written for a string is read as the string. -/
theorem readString_escape (s : List Char) (cs : List Char) {n : ℕ} (hn : (s.flatMap escapeChar).length < n) :
    readString n (s.flatMap escapeChar ++ '\x22' :: cs) = some (s,cs) := by
  induction s generalizing n with
  | nil =>
    cases n with
    | zero => cases hn
    | succ n => simp [readString]
  | cons c s ih =>
    cases n with
    | zero => cases hn
    | succ n =>
      have hc := length_escapeChar c
      rw [List.flatMap_cons,List.length_append] at hn
      rw [List.flatMap_cons,List.append_assoc,readString,if_neg (head_escapeChar c _),readChar_escapeChar]
      simp [ih (n := n) (by omega)]

/-- The characters of numbers. -/
def numberChar (c : Char) : Bool := c.isDigit || ['-','+','.','e','E'].contains c

def digits : Scanner Char := .run Char.isDigit

def wholeNumber : Scanner Char := .either (.one (· == '0')) digits

/-- A number as the scanner takes it: `(-?(?:0|[1-9][0-9]*))(\.[0-9]+)?([eE][-+]?[0-9]+)?`. -/
def scanNumber : Scanner Char :=
  let fraction := Scanner.opt (.seq (.one (· == '.')) digits)
  let exponent := Scanner.opt (.seq (.one fun c => c == 'e' || c == 'E')
    (.seq (.opt (.one fun c => c == '-' || c == '+')) digits))
  .seq (.opt (.one (· == '-'))) (.seq wholeNumber (.seq fraction exponent))

theorem scanNumber_local : Scanner.Local numberChar scanNumber := by
  have hdigits : Scanner.Local numberChar digits := .run fun c hc => by simp [numberChar,hc]
  have hone : ∀ q : Char → Bool, (∀ c, q c → ['-','+','.','e','E'].contains c ∨ c = '0') →
      Scanner.Local numberChar (.one q) := by
    intro q hq
    refine .one fun c hc => ?_
    rcases hq c hc with hc | rfl
    · rw [numberChar,hc,Bool.or_true]
    · decide
  refine .seq (.opt (hone _ ?_)) (.seq (.either (hone _ ?_) hdigits) (.seq (.opt (.seq (hone _ ?_) hdigits))
    (.opt (.seq (hone _ ?_) (.seq (.opt (hone _ ?_)) hdigits)))))
  all_goals
    intro c hc
    simp only [Bool.or_eq_true,beq_iff_eq] at hc
    grind

theorem head_wholeNumber {cs : List Char} (h : (wholeNumber cs).isSome) : ∃ d cs', cs = d :: cs' ∧ d.isDigit = true := by
  cases cs with
  | nil => cases h
  | cons d cs =>
    refine ⟨d,cs,rfl,?_⟩
    by_contra hd
    have hzero : d ≠ '0' := by
      rintro rfl
      exact hd (by decide)
    simp [wholeNumber,digits,Scanner.either,Scanner.one,Scanner.run,hd,hzero] at h

/-- A number begins with a digit, or with its sign and a digit. -/
theorem head_scanNumber {cs : List Char} (h : (scanNumber cs).isSome) :
    ∃ d cs', d.isDigit = true ∧ (cs = d :: cs' ∨ cs = '-' :: d :: cs') := by
  obtain ⟨w,hw⟩ := Option.isSome_iff_exists.mp h
  obtain ⟨sign,hsign,hw⟩ := Option.bind_eq_some_iff.mp hw
  obtain ⟨w',hw',-⟩ := Option.map_eq_some_iff.mp hw
  obtain ⟨whole,hwhole,-⟩ := Option.bind_eq_some_iff.mp hw'
  obtain ⟨d,cs',hcs,hd⟩ := head_wholeNumber (Option.isSome_of_eq_some hwhole)
  refine ⟨d,cs',hd,?_⟩
  cases cs with
  | nil =>
    obtain rfl := Option.some.inj hsign
    cases hcs
  | cons c cs =>
    by_cases hc : c = '-'
    · subst hc
      obtain rfl := Option.some.inj hsign
      exact .inr (congrArg _ hcs)
    · have hone : Scanner.one (· == '-') (c :: cs) = none := by simp [Scanner.one,hc]
      rw [Scanner.opt,hone] at hsign
      obtain rfl := Option.some.inj hsign
      exact .inl hcs

/-- The names that stand for a value. -/
def constants : List (String × Json) :=
  [("null",.null),("true",.bool true),("false",.bool false),("NaN",.num "NaN"),("Infinity",.num "Infinity"),
    ("-Infinity",.num "-Infinity")]

def readConstant (cs : List Char) : Option (Json × List Char) :=
  (constants.find? fun e => e.1.toList.isPrefixOf cs).map fun e => (e.2,cs.drop e.1.toList.length)

theorem readConstant_digit {d : Char} (hd : d.isDigit = true) (cs : List Char) :
    readConstant (d :: cs) = none ∧ readConstant ('-' :: d :: cs) = none := by
  have hne : ∀ c ∈ ['n','t','f','N','I','-'], c ≠ d := by
    have hno : (['n','t','f','N','I','-'].all fun c => !c.isDigit) = true := rfl
    rintro c hc rfl
    have hc' := List.all_eq_true.mp hno c hc
    rw [hd] at hc'
    cases hc'
  simp only [List.forall_mem_cons] at hne
  simp [readConstant,constants,hne]

def blank (c : Char) : Bool := c == ' ' || c == '\t' || c == '\n' || c == '\r'

def skipBlanks (cs : List Char) : List Char := cs.dropWhile blank

/-- `dict(pairs)`. -/
def ofPairs (pairs : List (String × Json)) : List (String × Json) :=
  (pairs.foldl (fun d e => d.set e.1 e.2) ({} : OrderedDict String Json)).items

section Reading

variable (floatRepr : String → String)

/-- The literal of a number is printed again from its value: an integer has no sign before zero, and
`floatRepr` prints the float that a literal is read as. -/
def printed (literal : String) : String :=
  if literal.toList.all fun c => c.isDigit || c == '-' then (if literal = "-0" then "0" else literal)
  else floatRepr literal

def readNumber (cs : List Char) : Option (Json × List Char) :=
  (scanNumber cs).map fun w => (.num (printed floatRepr (String.ofList w.1)),w.2)

mutual

/-- The value at the front of a text. -/
def readValue : ℕ → List Char → Option (Json × List Char)
  | 0,_ => none
  | n + 1,cs =>
    if cs.head? = some '\x22' then (readString n cs.tail).map fun s => (.str (String.ofList s.1),s.2)
    else if cs.head? = some '[' then
      let cs := skipBlanks cs.tail
      if cs.head? = some ']' then some (.arr [],cs.tail) else (readItems n cs).map fun vs => (.arr vs.1,vs.2)
    else if cs.head? = some '\x7b' then
      let cs := skipBlanks cs.tail
      if cs.head? = some '\x7d' then some (.obj [],cs.tail)
      else (readMembers n cs).map fun es => (.obj (ofPairs es.1),es.2)
    else (readConstant cs).or (readNumber floatRepr cs)

/-- The items of an array, up to the bracket that closes it. -/
def readItems : ℕ → List Char → Option (List Json × List Char)
  | 0,_ => none
  | n + 1,cs => do
    let (v,cs) ← readValue n cs
    match skipBlanks cs with
    | ',' :: cs => do
      let (vs,cs) ← readItems n (skipBlanks cs)
      some (v :: vs,cs)
    | ']' :: cs => some ([v],cs)
    | _ => none

/-- The members of an object, up to the brace that closes it. -/
def readMembers : ℕ → List Char → Option (List (String × Json) × List Char)
  | 0,_ => none
  | n + 1,cs =>
    if cs.head? = some '\x22' then do
      let (k,cs) ← readString n cs.tail
      match skipBlanks cs with
      | ':' :: cs => do
        let (v,cs) ← readValue n (skipBlanks cs)
        match skipBlanks cs with
        | ',' :: cs => do
          let (es,cs) ← readMembers n (skipBlanks cs)
          some ((String.ofList k,v) :: es,cs)
        | '\x7d' :: cs => some ([(String.ofList k,v)],cs)
        | _ => none
      | _ => none
    else none

end

/-- `json.loads`. -/
def loads (text : List Char) : Option Json := do
  let (v,cs) ← readValue floatRepr (text.length + 1) (skipBlanks text)
  if skipBlanks cs = [] then some v else none

end Reading

/-- A string in quotation marks. -/
def writeString (s : String) : List Char := '\x22' :: (s.toList.flatMap escapeChar ++ ['\x22'])

mutual

/-- The text of a value, with the keys as they stand. -/
def write : Json → List Char
  | .null => "null".toList
  | .bool b => (if b then "true" else "false").toList
  | .num literal => literal.toList
  | .str s => writeString s
  | .arr items => '[' :: (writeItems items ++ [']'])
  | .obj fields => '\x7b' :: (writeMembers fields ++ ['\x7d'])

def writeItems : List Json → List Char
  | [] => []
  | [v] => write v
  | v :: vs => write v ++ ',' :: writeItems vs

def writeMembers : List (String × Json) → List Char
  | [] => []
  | [(k,v)] => writeString k ++ ':' :: write v
  | (k,v) :: es => writeString k ++ ':' :: write v ++ ',' :: writeMembers es

end

section Native

variable (floatRepr : String → String)

mutual

/-- A value that Python has: the keys of each object are distinct, and a number is given by the literal
that it is printed as. -/
def Native : Json → Prop
  | .num literal => readNumber floatRepr literal.toList = some (.num literal,[])
  | .arr items => NativeItems items
  | .obj fields => (fields.map (·.1)).Nodup ∧ NativeFields fields
  | _ => True

def NativeItems : List Json → Prop
  | [] => True
  | v :: vs => Native v ∧ NativeItems vs

def NativeFields : List (String × Json) → Prop
  | [] => True
  | (_,v) :: es => Native v ∧ NativeFields es

end

variable {floatRepr}

theorem nativeItems_iff {vs : List Json} : NativeItems floatRepr vs ↔ ∀ v ∈ vs, Native floatRepr v := by
  induction vs with
  | nil => simp [NativeItems]
  | cons v vs ih => rw [NativeItems,List.forall_mem_cons,ih]

theorem nativeFields_iff {es : List (String × Json)} :
    NativeFields floatRepr es ↔ ∀ e ∈ es, Native floatRepr e.2 := by
  induction es with
  | nil => simp [NativeFields]
  | cons e es ih => rw [NativeFields,List.forall_mem_cons,ih]

/-- Pairs with distinct keys are the items of the dictionary. -/
theorem ofPairs_of_nodup {es : List (String × Json)} (h : (es.map (·.1)).Nodup) : ofPairs es = es := by
  have hfold : ∀ (d : OrderedDict String Json), ((d.items ++ es).map (·.1)).Nodup →
      (es.foldl (fun d e => d.set e.1 e.2) d).items = d.items ++ es := by
    clear h
    induction es with
    | nil => simp
    | cons e es ih =>
      intro d hd
      have hkey : e.1 ∉ d.keys := by
        intro hmem
        rw [List.map_append,List.map_cons,List.nodup_append] at hd
        exact hd.2.2 e.1 hmem e.1 List.mem_cons_self rfl
      have hset := OrderedDict.items_set_of_not_mem (v := e.2) hkey
      rw [List.foldl_cons,ih _ (by rw [hset,List.append_assoc]; exact hd),hset,List.append_assoc]
      rfl
  exact hfold {} h

end Native

section RoundTrip

variable {floatRepr : String → String}

/-- Where a value may end: at the end of the text, or before what closes it or separates it. -/
abbrev Ends (rest : List Char) : Prop := Scanner.Stops numberChar rest

theorem readValue_num {literal : String} {rest : List Char} (h : Native floatRepr (.num literal)) (hr : Ends rest)
    (n : ℕ) : readValue floatRepr (n + 1) (literal.toList ++ rest) = some (.num literal,rest) := by
  have hread : readNumber floatRepr (literal.toList ++ rest) = some (.num literal,rest) := by
    rw [Native,readNumber] at h
    obtain ⟨w,hw,heq⟩ := Option.map_eq_some_iff.mp h
    obtain ⟨hnum,hnil⟩ := Prod.mk.inj heq
    rw [readNumber,scanNumber_local _ _ hr,hw,Option.map_some,Option.map_some,hnum,hnil,List.nil_append]
  have hsome : (scanNumber literal.toList).isSome := by
    rw [Native,readNumber] at h
    obtain ⟨w,hw,-⟩ := Option.map_eq_some_iff.mp h
    exact Option.isSome_of_eq_some hw
  obtain ⟨d,cs,hd,hcs⟩ := head_scanNumber hsome
  have hconst : readConstant (literal.toList ++ rest) = none := by
    rcases hcs with hcs | hcs <;> rw [hcs]
    · exact (readConstant_digit hd (cs ++ rest)).1
    · exact (readConstant_digit hd (cs ++ rest)).2
  have hhead : ∀ c, c.isDigit = false → c ≠ '-' → (literal.toList ++ rest).head? ≠ some c := by
    intro c hc hminus heq
    rcases hcs with hcs | hcs <;> rw [hcs] at heq <;> obtain rfl := Option.some.inj heq
    · rw [hd] at hc
      cases hc
    · exact hminus rfl
  rw [readValue,if_neg (hhead _ (by decide) (by decide)),if_neg (hhead _ (by decide) (by decide)),
    if_neg (hhead _ (by decide) (by decide)),hconst,hread]
  rfl

theorem readValue_constant {e : String × Json} (he : e ∈ constants.take 3) (rest : List Char) (n : ℕ) :
    readValue floatRepr (n + 1) (e.1.toList ++ rest) = some (e.2,rest) := by
  simp only [constants,List.take_succ_cons,List.take_zero,List.mem_cons,List.not_mem_nil,or_false] at he
  rcases he with rfl | rfl | rfl <;> simp [readValue,readConstant,constants]

theorem readValue_string (s : String) (rest : List Char) {n : ℕ} (hn : (writeString s).length < n + 1) :
    readValue floatRepr (n + 1) (writeString s ++ rest) = some (.str s,rest) := by
  have hlen : (s.toList.flatMap escapeChar).length < n := by
    rw [writeString,List.length_cons,List.length_append] at hn
    omega
  have hread := readString_escape s.toList rest hlen
  simp [readValue,writeString,hread]

@[simp] theorem skipBlanks_nil : skipBlanks [] = [] := rfl

theorem skipBlanks_cons {c : Char} (hc : blank c = false) (cs : List Char) : skipBlanks (c :: cs) = c :: cs := by
  simp [skipBlanks,hc]

/-- The text of a value begins neither with a blank nor with a closing bracket. -/
theorem write_cons {v : Json} (h : Native floatRepr v) : ∃ c cs, write v = c :: cs ∧ blank c = false ∧ c ≠ ']' := by
  cases v with
  | null => exact ⟨'n',['u','l','l'],by simp [write],by decide,by decide⟩
  | bool b => cases b <;> simp [write,blank]
  | str s => exact ⟨_,_,rfl,by decide,by decide⟩
  | arr items => exact ⟨_,_,rfl,by decide,by decide⟩
  | obj fields => exact ⟨_,_,rfl,by decide,by decide⟩
  | num literal =>
    rw [Native,readNumber] at h
    obtain ⟨w,hw,-⟩ := Option.map_eq_some_iff.mp h
    obtain ⟨d,cs,hd,hcs⟩ := head_scanNumber (Option.isSome_of_eq_some hw)
    have hne : ∀ c, c.isDigit = false → d ≠ c := by
      rintro c hc rfl
      rw [hd] at hc
      cases hc
    rw [write]
    rcases hcs with hcs | hcs
    · refine ⟨d,cs,hcs,?_,hne _ (by decide)⟩
      simp [blank,hne]
    · exact ⟨'-',d :: cs,hcs,by decide,by decide⟩

theorem skipBlanks_write {v : Json} (h : Native floatRepr v) (rest : List Char) :
    skipBlanks (write v ++ rest) = write v ++ rest ∧ (write v ++ rest).head? ≠ some ']' := by
  obtain ⟨c,cs,hcs,hblank,hclose⟩ := write_cons h
  rw [hcs]
  exact ⟨skipBlanks_cons hblank _,by simpa using hclose⟩

theorem writeItems_cons_cons (v w : Json) (vs : List Json) :
    writeItems (v :: w :: vs) = write v ++ ',' :: writeItems (w :: vs) := rfl

theorem writeMembers_cons_cons (k : String) (v : Json) (e : String × Json) (es : List (String × Json)) :
    writeMembers ((k,v) :: e :: es) = writeString k ++ ':' :: write v ++ ',' :: writeMembers (e :: es) := rfl

theorem writeItems_cons (v : Json) (vs : List Json) : ∃ cs, writeItems (v :: vs) = write v ++ cs := by
  cases vs with
  | nil => exact ⟨[],by simp [writeItems]⟩
  | cons w vs => exact ⟨_,rfl⟩

theorem skipBlanks_writeItems {v : Json} (h : Native floatRepr v) (vs : List Json) (rest : List Char) :
    skipBlanks (writeItems (v :: vs) ++ rest) = writeItems (v :: vs) ++ rest ∧
      (writeItems (v :: vs) ++ rest).head? ≠ some ']' := by
  obtain ⟨cs,hcs⟩ := writeItems_cons v vs
  rw [hcs,List.append_assoc]
  exact skipBlanks_write h _

theorem writeMembers_cons (e : String × Json) (es : List (String × Json)) :
    ∃ cs, writeMembers (e :: es) = '\x22' :: cs := by
  cases es with
  | nil => exact ⟨_,rfl⟩
  | cons e' es => exact ⟨_,rfl⟩

theorem skipBlanks_writeMembers (e : String × Json) (es : List (String × Json)) (rest : List Char) :
    skipBlanks (writeMembers (e :: es) ++ rest) = writeMembers (e :: es) ++ rest ∧
      (writeMembers (e :: es) ++ rest).head? = some '\x22' := by
  obtain ⟨cs,hcs⟩ := writeMembers_cons e es
  rw [hcs]
  exact ⟨skipBlanks_cons (by decide) _,rfl⟩

mutual

/-- The text of a value is read as the value. -/
theorem readValue_write : (v : Json) → Native floatRepr v → ∀ (n : ℕ) (rest : List Char),
    (write v).length < n → Ends rest → readValue floatRepr n (write v ++ rest) = some (v,rest)
  | _,_,0,_,hn,_ => absurd hn (Nat.not_lt_zero _)
  | .null,_,_ + 1,rest,_,_ => readValue_constant (e := ("null",.null)) (by simp [constants]) rest _
  | .bool true,_,_ + 1,rest,_,_ => readValue_constant (e := ("true",.bool true)) (by simp [constants]) rest _
  | .bool false,_,_ + 1,rest,_,_ => readValue_constant (e := ("false",.bool false)) (by simp [constants]) rest _
  | .num literal,h,n + 1,rest,_,hr => readValue_num h hr n
  | .str s,_,n + 1,rest,hn,_ => readValue_string s rest hn
  | .arr [],_,n + 1,rest,_,_ => by simp [readValue,write,writeItems,skipBlanks,blank]
  | .arr (v :: vs),h,n + 1,rest,hn,_ => by
    rw [Native] at h
    obtain ⟨hskip,hopen⟩ := skipBlanks_writeItems h.1 vs (']' :: rest)
    have hlen : (writeItems (v :: vs)).length + 1 < n := by
      rw [write,List.length_cons,List.length_append,List.length_singleton] at hn
      omega
    have hread := readItems_write (v :: vs) h (List.cons_ne_nil _ _) n rest hlen
    rw [write,List.cons_append,List.append_assoc,List.singleton_append,readValue,if_neg (by simp),
      if_pos List.head?_cons]
    simp only [List.tail_cons,hskip]
    rw [if_neg hopen,hread]
    rfl
  | .obj [],_,n + 1,rest,_,_ => by simp [readValue,write,writeMembers,skipBlanks,blank]
  | .obj (e :: es),h,n + 1,rest,hn,_ => by
    rw [Native] at h
    obtain ⟨hskip,hopen⟩ := skipBlanks_writeMembers e es ('\x7d' :: rest)
    have hlen : (writeMembers (e :: es)).length + 1 < n := by
      rw [write,List.length_cons,List.length_append,List.length_singleton] at hn
      omega
    have hread := readMembers_write (e :: es) h.2 (List.cons_ne_nil _ _) n rest hlen
    rw [write,List.cons_append,List.append_assoc,List.singleton_append,readValue]
    simp [hskip,hopen,hread,ofPairs_of_nodup h.1]

theorem readItems_write : (vs : List Json) → NativeItems floatRepr vs → vs ≠ [] → ∀ (n : ℕ) (rest : List Char),
    (writeItems vs).length + 1 < n → readItems floatRepr n (writeItems vs ++ ']' :: rest) = some (vs,rest)
  | [],_,hne,_,_,_ => absurd rfl hne
  | _ :: _,_,_,0,_,hn => absurd hn (Nat.not_lt_zero _)
  | [v],h,_,n + 1,rest,hn => by
    have hends : Ends (']' :: rest) := by simp [numberChar]
    have hread := readValue_write v h.1 n (']' :: rest) (by rw [writeItems] at hn; omega) hends
    rw [writeItems,readItems]
    simp [hread,skipBlanks_cons (c := ']') (by decide)]
  | v :: w :: vs,h,_,n + 1,rest,hn => by
    have hlen : (write v).length + (writeItems (w :: vs)).length + 1 < n := by
      simp only [writeItems,List.length_append,List.length_cons] at hn ⊢
      omega
    have hends : Ends (',' :: (writeItems (w :: vs) ++ ']' :: rest)) := by simp [numberChar]
    have hread := readValue_write v h.1 n _ (by omega) hends
    have hrest := readItems_write (w :: vs) h.2 (List.cons_ne_nil _ _) n rest (by omega)
    have hskip := (skipBlanks_writeItems h.2.1 vs (']' :: rest)).1
    rw [writeItems_cons_cons,List.append_assoc,List.cons_append,readItems]
    simp [hread,hrest,hskip,skipBlanks_cons (c := ',') (by decide)]

theorem readMembers_write : (es : List (String × Json)) → NativeFields floatRepr es → es ≠ [] →
    ∀ (n : ℕ) (rest : List Char), (writeMembers es).length + 1 < n →
    readMembers floatRepr n (writeMembers es ++ '\x7d' :: rest) = some (es,rest)
  | [],_,hne,_,_,_ => absurd rfl hne
  | _ :: _,_,_,0,_,hn => absurd hn (Nat.not_lt_zero _)
  | [(k,v)],h,_,n + 1,rest,hn => by
    have hlen : (k.toList.flatMap escapeChar).length < n ∧ (write v).length < n := by
      simp only [writeMembers,writeString,List.length_append,List.length_cons] at hn
      omega
    have hends : Ends ('\x7d' :: rest) := by simp [numberChar]
    have hkey := readString_escape k.toList (':' :: (write v ++ '\x7d' :: rest)) hlen.1
    have hread := readValue_write v h.1 n _ hlen.2 hends
    have hskip := (skipBlanks_write h.1 ('\x7d' :: rest)).1
    rw [writeMembers,readMembers,writeString]
    simp [hkey,hread,hskip,skipBlanks_cons (c := ':') (by decide),skipBlanks_cons (c := '\x7d') (by decide)]
  | (k,v) :: e :: es,h,_,n + 1,rest,hn => by
    have hlen : (k.toList.flatMap escapeChar).length < n ∧ (write v).length < n ∧
        (writeMembers (e :: es)).length + 1 < n := by
      simp only [writeMembers,writeString,List.length_append,List.length_cons] at hn ⊢
      omega
    have hends : Ends (',' :: (writeMembers (e :: es) ++ '\x7d' :: rest)) := by simp [numberChar]
    have hkey := readString_escape k.toList
      (':' :: (write v ++ ',' :: (writeMembers (e :: es) ++ '\x7d' :: rest))) hlen.1
    have hread := readValue_write v h.1 n _ hlen.2.1 hends
    have hrest := readMembers_write (e :: es) h.2 (List.cons_ne_nil _ _) n rest hlen.2.2
    have hskip := (skipBlanks_write h.1 (',' :: (writeMembers (e :: es) ++ '\x7d' :: rest))).1
    have hskip' := (skipBlanks_writeMembers e es ('\x7d' :: rest)).1
    rw [writeMembers_cons_cons,readMembers,writeString]
    simp [hkey,hread,hrest,hskip,hskip',skipBlanks_cons (c := ':') (by decide),
      skipBlanks_cons (c := ',') (by decide)]

end

/-- `json.loads` reads back what is written for a value. -/
theorem loads_write {v : Json} (h : Native floatRepr v) : loads floatRepr (write v) = some v := by
  have hskip := (skipBlanks_write h []).1
  have hread := readValue_write v h _ [] (Nat.lt_succ_self _) Scanner.stops_nil
  rw [List.append_nil] at hskip hread
  simp [loads,hskip,hread]

end RoundTrip

end JsonText
end Saarathi
