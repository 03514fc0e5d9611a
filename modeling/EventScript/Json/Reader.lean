/-
Reading JSON. A scanner goes through the characters once and cuts them into
tokens, and a builder goes through the tokens once and keeps the values that
are still open on a stack. Reading is strict on form: no comments, no trailing
commas, nothing but blanks behind the value. A document may come as bytes; stray
ones may only stand in a text, and the text is unreadable then.
-/
import EventScript.Json.Value
import EventScript.Text.Bytes

namespace EventScript.Json

/-! ## Tokens -/

/-- A mark, or a value without parts. -/
inductive Token where
  | openArray
  | closeArray
  | openObject
  | closeObject
  | colon
  | comma
  | word (value : Json)
  | text (spelling : List Char)

/-- Where the scanner stands; what it has of a word or a text is reversed. -/
inductive Scan where
  | between
  | word (spelled : List Char)
  /-- In a text; `escaped` behind a backslash, `stray` behind a stray byte. -/
  | text (spelled : List Char) (escaped stray : Bool)

/-- The scanner: the tokens so far, newest first, and where it stands. -/
structure Scanner where
  tokens : List Token := []
  scan : Scan := .between

/-- Whether a character may stand between tokens. -/
def isBlank (c : Char) : Bool := c = ' ' || c = '\t' || c = '\n' || c = '\r'

/-- The token a mark is. -/
def mark? (c : Char) : Option Token :=
  if c = '[' then some .openArray
  else if c = ']' then some .closeArray
  else if c = '\x7b' then some .openObject
  else if c = '\x7d' then some .closeObject
  else if c = ':' then some .colon
  else if c = ',' then some .comma
  else none

/-- What stands in the place of a stray byte while a text is scanned: it may
stand in a text, but neither behind a backslash nor among digits. -/
def standIn : Char := '?'

/-- A spelling of a text without a meaning: half a surrogate pair. -/
def unreadable : List Char := "\\udc00".toList

/-- The value a bare word is: a constant or a number. -/
def word? (spelling : List Char) : Option Json :=
  if spelling = "null".toList then some .null
  else if spelling = "true".toList then some (.bool true)
  else if spelling = "false".toList then some (.bool false)
  else (Numeral.ofSpelling? spelling).map fun _ => .number spelling

namespace Scanner

/-- Begins with a character that stands between tokens. -/
def start (s : Scanner) (c : Char) : Scanner :=
  if isBlank c then s
  else if c = '"' then { s with scan := .text [] false false }
  else match mark? c with
    | some token => { s with tokens := token :: s.tokens }
    | none => { s with scan := .word [c] }

/-- Ends a bare word. -/
def endWord? (s : Scanner) (spelled : List Char) : Option Scanner :=
  (word? spelled.reverse).map fun value =>
    { tokens := .word value :: s.tokens, scan := .between }

/-- Takes one more character of a text. -/
def spell (s : Scanner) (spelled : List Char) (escaped stray : Bool) (c : Char) : Scanner :=
  { s with scan := .text (c :: spelled) (!escaped && c = '\\') stray }

/-- Ends a text, which has to be well spelled. -/
def endText? (s : Scanner) (spelled : List Char) (stray : Bool) : Option Scanner :=
  let spelling := spelled.reverse
  if (units? spelling).isSome then
    some { tokens := .text (if stray then unreadable else spelling) :: s.tokens, scan := .between }
  else none

/-- Takes one more sign. -/
def step? (s : Scanner) (sign : Option Char) : Option Scanner :=
  match s.scan, sign with
  | .between, some c => some (s.start c)
  | .word spelled, some c =>
    if isBlank c || c = '"' || (mark? c).isSome then (s.endWord? spelled).map (·.start c)
    else some { s with scan := .word (c :: spelled) }
  | .text spelled escaped stray, some c =>
    if c = '"' && !escaped then s.endText? spelled stray
    else some (s.spell spelled escaped stray c)
  | .text spelled escaped _, none => some (s.spell spelled escaped true standIn)
  | _, none => none

/-- The tokens at the end of the signs. -/
def finish? (s : Scanner) : Option (List Token) :=
  match s.scan with
  | .between => some s.tokens.reverse
  | .word spelled => (s.endWord? spelled).map (·.tokens.reverse)
  | .text .. => none

end Scanner

/-- The tokens of a document. -/
def tokens? (signs : List (Option Char)) : Option (List Token) :=
  (signs.foldlM Scanner.step? {}).bind Scanner.finish?

/-! ## Values -/

/-- A value that is still open, with what it has so far reversed. -/
inductive Open where
  | array (before : List Json)
  /-- An object that waits for the value of `name`. -/
  | object (before : List (List Char × Json)) (name : List Char)

/-- What the builder waits for, and the values that are open around it. -/
inductive Builder where
  /-- A value has to come. -/
  | awaitValue (around : List Open)
  /-- An array was opened: a value or its end. -/
  | firstItem (around : List Open)
  /-- An object was opened: a name or its end. -/
  | firstName (around : List Open)
  /-- A name has to come. -/
  | awaitName (before : List (List Char × Json)) (around : List Open)
  /-- The colon behind a name has to come. -/
  | awaitColon (before : List (List Char × Json)) (name : List Char) (around : List Open)
  /-- A value is complete. -/
  | done (value : Json) (around : List Open)

namespace Builder

/-- Begins a value. -/
def begin? (around : List Open) : Token → Option Builder
  | .openArray => some (.firstItem around)
  | .openObject => some (.firstName around)
  | .word value => some (.done value around)
  | .text spelling => some (.done (.string spelling) around)
  | _ => none

/-- Takes one more token. -/
def step? : Builder → Token → Option Builder
  | .awaitValue around, token => begin? around token
  | .firstItem around, .closeArray => some (.done (.array []) around)
  | .firstItem around, token => begin? (.array [] :: around) token
  | .firstName around, .closeObject => some (.done (.object []) around)
  | .firstName around, .text name => some (.awaitColon [] name around)
  | .awaitName before around, .text name => some (.awaitColon before name around)
  | .awaitColon before name around, .colon => some (.awaitValue (.object before name :: around))
  | .done value (.array before :: around), .comma =>
    some (.awaitValue (.array (value :: before) :: around))
  | .done value (.array before :: around), .closeArray =>
    some (.done (.array (value :: before).reverse) around)
  | .done value (.object before name :: around), .comma =>
    some (.awaitName ((name, value) :: before) around)
  | .done value (.object before name :: around), .closeObject =>
    some (.done (.object ((name, value) :: before).reverse) around)
  | _, _ => none

/-- The value at the end of the tokens. -/
def finish? : Builder → Option Json
  | .done value [] => some value
  | _ => none

end Builder

/-- The value a document spells, sign by sign. -/
def parseSigns? (signs : List (Option Char)) : Option Json := do
  let tokens ← tokens? signs
  let builder ← tokens.foldlM Builder.step? (.awaitValue [])
  builder.finish?

/-- The value a text spells. -/
def parse? (text : String) : Option Json := parseSigns? (text.toList.map some)

/-- The value the bytes of a file spell. -/
def parseBytes? (bytes : List UInt8) : Option Json := parseSigns? (Text.signs bytes)

end EventScript.Json
