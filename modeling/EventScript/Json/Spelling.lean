/-
How JSON spells texts and numbers. A document is first read as it is spelled
and only what is wanted of it is read for its meaning, so a part that nobody
asks for may hold a text without a meaning, such as half a surrogate pair, or
a number of any size.
-/
import EventScript.Json.Double
import EventScript.Text.Numeral

namespace EventScript.Json

/-! ## Texts -/

/-- The character a one-letter escape stands for. -/
def escapeLetter? : Char → Option Char
  | '"' => some '"'
  | '\\' => some '\\'
  | '/' => some '/'
  | 'b' => some '\x08'
  | 'f' => some '\x0c'
  | 'n' => some '\n'
  | 'r' => some '\r'
  | 't' => some '\t'
  | _ => none

/-- The code units a spelling consists of: code points for the characters it
shows, and whatever its numeric escapes say. A quote, a control character or a
bare backslash may not stand in a spelling. -/
def units? : List Char → Option (List Nat)
  | [] => some []
  | '\\' :: 'u' :: a :: b :: c :: d :: rest => do
    let unit ← Text.ofDigits? 16 [a, b, c, d]
    let units ← units? rest
    some (unit :: units)
  | '\\' :: letter :: rest => do
    let c ← escapeLetter? letter
    let units ← units? rest
    some (c.toNat :: units)
  | c :: rest =>
    if c.toNat < 0x20 ∨ c = '"' ∨ c = '\\' then none
    else (units? rest).map (c.toNat :: ·)

/-- Whether a code unit is the first half of a surrogate pair. -/
def isLeading (unit : Nat) : Bool := 0xd800 ≤ unit && unit < 0xdc00

/-- Whether a code unit is the second half of a surrogate pair. -/
def isTrailing (unit : Nat) : Bool := 0xdc00 ≤ unit && unit < 0xe000

/-- The characters of code units; the halves of a surrogate pair only count together. -/
def charsOfUnits? : List Nat → Option (List Char)
  | [] => some []
  | unit :: rest =>
    if isTrailing unit then none
    else if isLeading unit then
      match rest with
      | [] => none
      | second :: rest =>
        if isTrailing second then
          let c := Char.ofNat (0x10000 + (unit - 0xd800) * 0x400 + (second - 0xdc00))
          (charsOfUnits? rest).map (c :: ·)
        else none
    else (charsOfUnits? rest).map (Char.ofNat unit :: ·)

/-- The text a spelling stands for. -/
def unescape? (spelling : List Char) : Option String :=
  ((units? spelling).bind charsOfUnits?).map String.ofList

/-- The spelling of a character: itself, unless it may not stand in one. -/
def escapeChar (c : Char) : List Char :=
  if c = '"' then ['\\', '"']
  else if c = '\\' then ['\\', '\\']
  else if c = '\x08' then ['\\', 'b']
  else if c = '\x0c' then ['\\', 'f']
  else if c = '\n' then ['\\', 'n']
  else if c = '\r' then ['\\', 'r']
  else if c = '\t' then ['\\', 't']
  else if c.toNat < 0x20 then
    ['\\', 'u', '0', '0', Nat.digitChar (c.toNat / 16), Nat.digitChar (c.toNat % 16)]
  else [c]

/-- The spelling of a text. -/
def escape (text : String) : List Char := text.toList.flatMap escapeChar

/-! ## Numbers -/

/-- A number as it is spelled. -/
structure Numeral where
  negative : Bool
  /-- The digits before the point. -/
  whole : List Char
  /-- The digits behind the point, if there is one. -/
  fraction : Option (List Char)
  /-- Sign and digits of the exponent, if there is one. -/
  exponent : Option (Bool × List Char)
  deriving DecidableEq, Repr

namespace Numeral

/-- Digits at the front, which there must be, and what follows them. -/
def digits? (s : List Char) : Option (List Char × List Char) :=
  let digits := s.takeWhile Char.isDigit
  if digits.isEmpty then none else some (digits, s.dropWhile Char.isDigit)

/-- A fraction at the front, if there is a point. -/
def fraction? : List Char → Option (Option (List Char) × List Char)
  | '.' :: s => (digits? s).map fun (digits, rest) => (some digits, rest)
  | s => some (none, s)

/-- An exponent at the front, if there is an exponent mark. -/
def exponent? : List Char → Option (Option (Bool × List Char) × List Char)
  | [] => some (none, [])
  | mark :: s =>
    if mark = 'e' ∨ mark = 'E' then
      let (negative, s) := match s with
        | '-' :: s => (true, s)
        | '+' :: s => (false, s)
        | s => (false, s)
      (digits? s).map fun (digits, rest) => (some (negative, digits), rest)
    else some (none, mark :: s)

/-- The number a spelling denotes. No zero may stand in front of other digits. -/
def ofSpelling? (spelling : List Char) : Option Numeral := do
  let (negative, s) := match spelling with
    | '-' :: s => (true, s)
    | s => (false, s)
  let (whole, s) ← digits? s
  if whole.head? = some '0' ∧ whole ≠ ['0'] then none
  let (fraction, s) ← fraction? s
  let (exponent, s) ← exponent? s
  if s.isEmpty then some ⟨negative, whole, fraction, exponent⟩ else none

/-- The value of digits. -/
def value (digits : List Char) : Nat := (Text.ofDigits? 10 digits).getD 0

/-- The integer a numeral denotes, if it has the form of one. Minus zero has not. -/
def int? (n : Numeral) : Option Int :=
  if n.fraction.isSome ∨ n.exponent.isSome then none
  else if n.negative then
    if n.whole = ['0'] then none else some (-(value n.whole : Int))
  else some (value n.whole)

/-- The value of digits from the front as far as it stays below `bound`, on top of `value`, and
how many digits it takes. -/
def leading (bound : Nat) : (value taken : Nat) → List Char → Nat × Nat
  | value, taken, [] => (value, taken)
  | value, taken, digit :: rest =>
    let next := 10 * value + (Text.digitValue? 10 digit).getD 0
    if next < bound then leading bound next (taken + 1) rest else (value, taken)

/-- The power of ten a numeral's exponent asks for. -/
def power (n : Numeral) : Int :=
  match n.exponent with
  | none => 0
  | some (true, digits) => -(value digits : Int)
  | some (false, digits) => value digits

/-- Whether a numeral's value has a place in double precision. Digits that 64
bits do not hold only count for their number. -/
def isFinite (n : Numeral) : Bool :=
  let (significand, taken) :=
    leading Double.significandBound 0 0 (n.whole ++ n.fraction.getD [])
  Double.holds significand (n.whole.length - taken + n.power)

end Numeral
end EventScript.Json
