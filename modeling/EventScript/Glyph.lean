/-
Game text. A string of the game is a run of 16-bit codes: low ones are glyphs
of its font, a handful of high ones control the text box, some of them with a
parameter in their low byte. As text a control is a tag such as `<line>` or
`<speed=3>`, and a code of no known meaning is kept as `<chr=0x..>`, so that
no code is lost.
-/
import EventScript.Fault
import EventScript.Script
import EventScript.Text.Caseless
import EventScript.Text.Numeral

namespace EventScript.Glyph

open Text

/-- The glyphs of the font, by code. -/
def font : List Char :=
  (" ,.·:?!_/'\"()-`%&*@+~0123456789" ++
    "ABCDEFGHIJKLMNOPQRSTUVWXYZabcdefghijklmnopqrstuvwxyz[];").toList

/-- A code that controls the text box. -/
structure Control where
  /-- The name its tag shows. -/
  name : String
  /-- The code; where there is a parameter, with a zero in its place. -/
  code : UInt16
  /-- Whether the low byte is a parameter. -/
  takesParameter : Bool
  deriving DecidableEq, Repr

/-- The known controls. -/
def controls : List Control := [
  ⟨"line", 0xa1ff, false⟩, ⟨"multibox", 0xa3ff, false⟩, ⟨"speed", 0xa500, true⟩,
  ⟨"colour", 0xa700, true⟩, ⟨"var", 0xa800, true⟩, ⟨"sauto", 0xb000, true⟩,
  ⟨"element", 0xb100, true⟩, ⟨"arrow", 0xb200, true⟩]

/-- The name of the tag that holds a code without a meaning. -/
def rawTag : String := "chr"

/-- The name of the tag that keeps the sentinel off the end of a text. -/
def openEndTag : String := "noterm"

/-- The tag that keeps the sentinel off the end of a text. -/
def openEnd : List Char := ['<'] ++ openEndTag.toList ++ ['>']

/-- The control a code stands for. -/
def controlOf? (code : UInt16) : Option Control :=
  if code &&& 0xff00 = 0 then none
  else controls.find? fun control =>
    if control.takesParameter then control.code = code &&& 0xff00 else control.code = code

/-- One code as text. -/
def showCode (code : UInt16) : List Char :=
  match controlOf? code with
  | some control =>
    if control.takesParameter then
      ['<'] ++ control.name.toList ++ ['='] ++ (decimal (code &&& 0xff).toNat).toList ++ ['>']
    else ['<'] ++ control.name.toList ++ ['>']
  | none =>
    match font[code.toNat]? with
    | some glyph => [glyph]
    | none => ['<'] ++ rawTag.toList ++ "=0x".toList ++ (hex code.toNat).toList ++ ['>']

/-- Codes as text. -/
def decode (codes : List UInt16) : String := String.ofList (codes.flatMap showCode)

/-- What a character or a tag of a text contributes. -/
inductive Piece where
  | code (code : UInt16)
  /-- The text ends without a sentinel. -/
  | openEnd
  deriving DecidableEq, Repr

/-- A tag's number: hexadecimal behind `0x`, else decimal. -/
def tagNumber? : List Char → Option UInt16
  | '0' :: 'x' :: digits => (unsigned? 16 0x10000 digits).map UInt16.ofNat
  | digits => (unsigned? 10 0x10000 digits).map UInt16.ofNat

/-- What the tag with the given body contributes, if it is one. -/
def tagPiece? (body : List Char) : Option Piece :=
  let name := String.ofList (body.takeWhile (· ≠ '='))
  let number := (body.dropWhile (· ≠ '=')).tail?.bind tagNumber?
  if sameLetters name openEndTag then some .openEnd
  else if sameLetters name rawTag then number.map .code
  else do
    let control ← controls.find? (sameLetters ·.name name)
    if control.takesParameter then
      number.map fun value => .code (control.code ||| (value &&& 0xff))
    else some (.code control.code)

/-- The code of a glyph. -/
def glyphCode? (c : Char) : Option UInt16 := (font.idxOf? c).map UInt16.ofNat

/-- Takes a text apart. The first argument is the reversed body of the tag
that is open, if one is; a tag that is never closed, or means nothing, is an
illegal `<`. -/
def pieces : Option (List Char) → List Char → Except Fault (List Piece)
  | none, [] => .ok []
  | some _, [] => .error (.illegalCharacter '<')
  | none, c :: rest =>
    if c = '<' then pieces (some []) rest
    else match glyphCode? c with
      | none => .error (.illegalCharacter c)
      | some code => (pieces none rest).map (.code code :: ·)
  | some body, c :: rest =>
    if c = '>' then
      match tagPiece? body.reverse with
      | none => .error (.illegalCharacter '<')
      | some piece => (pieces none rest).map (piece :: ·)
    else pieces (some (c :: body)) rest

/-- The codes among the pieces of a text, and the sentinel unless the text
leaves its end open. -/
def assemble (parts : List Piece) : List UInt16 :=
  (parts.filterMap fun
    | .code code => some code
    | .openEnd => none) ++ if parts.contains .openEnd then [] else [sentinel]

/-- The codes of a text. -/
def encode (text : String) : Except Fault (List UInt16) :=
  (pieces none text.toList).map assemble

end EventScript.Glyph
