/-
Addressing modes. The top byte of an operand's first word selects how the
operand is read. Inline modes point back into the image, relative to the
instruction's header; table modes go on through a run of relative offsets
stored there. A tag the machine does not know is a plain immediate.
-/
import EventScript.Text.Blank
import EventScript.Text.Numeral
import EventScript.Word

namespace EventScript

/-- How an operand is encoded. -/
inductive Mode where
  /-- The operand word itself. -/
  | immediate
  /-- The word following the operand word. -/
  | nextImmediate
  /-- Reads `stor[p0]`. -/
  | storage
  /-- Reads `stor[stor[stor[p0], p1], p2]`. -/
  | otherOtherStorage
  /-- Reads `stor[stor[p0], p1 + stor[p2]]`. -/
  | otherStorageOffset
  /-- Reads `var[p0]`. -/
  | gameVar1
  /-- Reads `var[p0 + stor[p1]]`. -/
  | gameVar2
  /-- Reads `var[p0][stor[p1]]`. -/
  | gameVarArray1
  /-- Reads `var[p0 + stor[p1]][stor[p2]]`. -/
  | gameVarArray2
  /-- Reads `inl[header + disp]`. -/
  | inline1
  /-- Reads `inl[(header + disp)[stor[p2]]]`. -/
  | inline2
  /-- Reads `inl[T[T[stor[p2]]]]`, `T = header + disp`. -/
  | inlineTable1
  /-- Reads `inl[T[T[stor[q0]] + stor[q1]]]`, indices in the second word. -/
  | inlineTable2
  /-- Reads `stor[stor[p0], p1 + p2]`. -/
  | otherStorage
  /-- Reads `var[p0 + p1]`. -/
  | gameVar3
  /-- Reads `var[p0][p1]`. -/
  | gameVarArray3
  /-- Reads `var[p0 + stor[p1]][p2]`. -/
  | gameVarArray4
  /-- Reads `var[p0 + p1][stor[p2]]`. -/
  | gameVarArray5
  /-- The tag `0x12`, without a decoding rule. -/
  | unsupported12
  /-- Reads `inl[header + disp + p2]`. -/
  | inline3
  /-- Reads `inl[T + inl[T + p2]]`. -/
  | inlineTable3
  /-- The tag `0x15`, without a decoding rule. -/
  | unsupported15
  /-- The tag `0x16`, without a decoding rule. -/
  | unsupported16
  /-- Reads `inl[T[T[q0] + q1]]`, indices in the second word. -/
  | inlineTable4
  /-- Reads `reg[p0]`. -/
  | register
  /-- Reads `id[name]`, characters packed into trailing words. -/
  | identifier
  deriving DecidableEq, Repr

namespace Mode

/-- What the catalogue says about one mode. -/
structure Info where
  /-- The top byte of the operand's first word. -/
  tag : UInt8
  /-- The name messages use. -/
  title : String
  /-- The name documents use. -/
  id : String
  deriving DecidableEq, Repr

/-- Every mode, by ascending tag. -/
def all : List Mode := [
  .immediate, .nextImmediate, .storage, .otherOtherStorage, .otherStorageOffset, .gameVar1,
  .gameVar2, .gameVarArray1, .gameVarArray2, .inline1, .inline2, .inlineTable1, .inlineTable2,
  .otherStorage, .gameVar3, .gameVarArray3, .gameVarArray4, .gameVarArray5, .unsupported12,
  .inline3, .inlineTable3, .unsupported15, .unsupported16, .inlineTable4, .register, .identifier]

/-- The catalogue of addressing modes. -/
def info : Mode → Info
  | .immediate => ⟨0x00, "Immediate", "immediate"⟩
  | .nextImmediate => ⟨0x01, "NextImmediate", "next_immediate"⟩
  | .storage => ⟨0x02, "Storage", "storage"⟩
  | .otherOtherStorage => ⟨0x03, "OtherOtherStorage", "other_other_storage"⟩
  | .otherStorageOffset => ⟨0x04, "OtherStorageOffset", "other_storage_offset"⟩
  | .gameVar1 => ⟨0x05, "GameVar1", "game_var1"⟩
  | .gameVar2 => ⟨0x06, "GameVar2", "game_var2"⟩
  | .gameVarArray1 => ⟨0x07, "GameVarArray1", "game_var_array1"⟩
  | .gameVarArray2 => ⟨0x08, "GameVarArray2", "game_var_array2"⟩
  | .inline1 => ⟨0x09, "Inline1", "inline1"⟩
  | .inline2 => ⟨0x0a, "Inline2", "inline2"⟩
  | .inlineTable1 => ⟨0x0b, "InlineTable1", "inline_table1"⟩
  | .inlineTable2 => ⟨0x0c, "InlineTable2", "inline_table2"⟩
  | .otherStorage => ⟨0x0d, "OtherStorage", "other_storage"⟩
  | .gameVar3 => ⟨0x0e, "GameVar3", "game_var3"⟩
  | .gameVarArray3 => ⟨0x0f, "GameVarArray3", "game_var_array3"⟩
  | .gameVarArray4 => ⟨0x10, "GameVarArray4", "game_var_array4"⟩
  | .gameVarArray5 => ⟨0x11, "GameVarArray5", "game_var_array5"⟩
  | .unsupported12 => ⟨0x12, "Unsupported12", "unsupported12"⟩
  | .inline3 => ⟨0x13, "Inline3", "inline3"⟩
  | .inlineTable3 => ⟨0x14, "InlineTable3", "inline_table3"⟩
  | .unsupported15 => ⟨0x15, "Unsupported15", "unsupported15"⟩
  | .unsupported16 => ⟨0x16, "Unsupported16", "unsupported16"⟩
  | .inlineTable4 => ⟨0x17, "InlineTable4", "inline_table4"⟩
  | .register => ⟨0x18, "Register", "register"⟩
  | .identifier => ⟨0x19, "Identifier", "identifier"⟩

/-- The top byte of the operand's first word. -/
def tag (mode : Mode) : UInt8 := mode.info.tag

/-- The name documents use. -/
def id (mode : Mode) : String := mode.info.id

/-- The mode a tag selects; an unknown tag is a plain immediate. -/
def ofTag (tag : UInt8) : Mode := (all.find? (·.tag == tag)).getD .immediate

/-- The mode of an operand with the given first word. -/
def ofWord (first : Word) : Mode := ofTag first.tag

/-- The mode a document names. -/
def ofId? (name : String) : Option Mode := all.find? (·.id == name)

/-- Title and tag, as messages show them. -/
def describe (mode : Mode) : String :=
  mode.info.title ++ "(0x" ++ Text.hexPadded 2 mode.tag.toNat ++ ")"

/-- Whether there is a rule to decode the mode. -/
def isSupported : Mode → Bool
  | .unsupported12 | .unsupported15 | .unsupported16 => false
  | _ => true

/-- Whether the operand points into the image. -/
def isInline : Mode → Bool
  | .inline1 | .inline2 | .inline3 => true
  | .inlineTable1 | .inlineTable2 | .inlineTable3 | .inlineTable4 => true
  | _ => false

/-- Whether the operand goes through a table of relative offsets. -/
def isTable : Mode → Bool
  | .inlineTable1 | .inlineTable2 | .inlineTable3 | .inlineTable4 => true
  | _ => false

/-- The width in words, where it does not depend on the operand's contents. -/
def fixedWidth : Mode → Option Nat
  | .nextImmediate | .inlineTable2 | .inlineTable4 => some 2
  | .identifier => none
  | _ => some 1

/-- The width of an identifier: its descriptor, then four characters a word. -/
def identifierWidth (characters : Nat) : Nat := 1 + (characters + 3) / 4

/-- The width in words of an operand with the given first word. -/
def width (mode : Mode) (first : Word) : Nat :=
  mode.fixedWidth.getD (identifierWidth first.p2.toNat)

/-- The name inside an identifier's text, such as `id[npc:walk]`; empty where
the text has another form. -/
def identifierName (text : List Char) : List Char :=
  match Text.trim text with
  | 'i' :: 'd' :: '[' :: rest =>
    if rest.getLast? = some ']' then Text.trim rest.dropLast else []
  | _ => []

/-- The width in words of an operand written as text. -/
def widthOfText (mode : Mode) (text : String) : Nat :=
  mode.fixedWidth.getD
    (identifierWidth (String.ofList (identifierName text.toList)).utf8ByteSize)

/-- The value of an operand, as far as it is known without running the script.

Immediates are their value, inline modes the byte address they point at, and
all else is only known at run time. A displacement counts words, so an inline
address may be negative or past the image; callers check its range. -/
def resolve (mode : Mode) (header : Nat) (words : List Word) : Option Int :=
  words.head?.bind fun first =>
    match mode with
    | .immediate => some first.toNat
    | .nextImmediate => words[1]?.map fun second => (second.toNat : Int)
    | .inline1 | .inline2 => some (header + first.displacement * 4)
    | .inlineTable1 | .inlineTable2 | .inlineTable3 | .inlineTable4 =>
      some (header + first.displacement * 4)
    | .inline3 => some (header + (first.displacement + first.p2.toNat) * 4)
    | _ => none

end Mode

/-- The address an entry of a relative table names: the table's own address
plus the entry's signed number of words. -/
def tableDestination (table : Nat) (entry : Word) : Int := table + entry.signed * 4

end EventScript
