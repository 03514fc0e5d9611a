/-
Listings: a script as assembly text. A listing is a run of lines, and a line
is kept as what it says until it is written, so that the labels it defines and
refers to can be told from other text. Minted labels are numbered anew, in the
order of their addresses, so a listing does not show in which order they were
found.
-/
import Std.Data.ExtTreeMap
import EventScript.Catalogue
import EventScript.Glyph
import EventScript.Script

namespace EventScript

open Text

/-- What a listing shows. -/
structure Listing where
  /-- Calls show their index instead of the method's name. -/
  stripNames : Bool := false
  /-- There are no comments. -/
  stripComments : Bool := false
  deriving DecidableEq, Repr

namespace Listing

/-- The listing without names and comments. -/
def bare : Listing := ⟨true, true⟩

/-! ## Lines -/

/-- A piece of an instruction's line. -/
inductive Piece where
  | plain (text : String)
  /-- A label that is referred to. -/
  | reference (name : String)
  deriving DecidableEq, Repr

/-- The text of a piece. -/
def Piece.render : Piece → String
  | .plain text => text
  | .reference name => ":" ++ name

/-- The text of pieces one behind the other. -/
def renderPieces (pieces : List Piece) : String := String.join (pieces.map Piece.render)

/-- A line of a listing. -/
inductive Line where
  | blank
  | comment (words : String)
  /-- Defines a label. -/
  | label (name : String)
  | entrypoint (destination : String)
  /-- An entry of a pointer table. -/
  | relative (destination : String)
  | word (value : Word)
  | text (body : String)
  | instruction (pieces : List Piece)
  deriving DecidableEq, Repr

namespace Line

/-- The text of a line. -/
def render : Line → String
  | .blank => ""
  | .comment words => "; " ++ words
  | .label name => name ++ ":"
  | .entrypoint destination => "entrypoint :" ++ destination
  | .relative destination => "rel :" ++ destination
  | .word value => "data 0x" ++ hex value.toNat
  | .text body => "data str[" ++ body ++ "]"
  | .instruction pieces => renderPieces pieces

/-- The labels a line refers to. -/
def references : Line → List String
  | .entrypoint destination | .relative destination => [destination]
  | .instruction pieces => pieces.filterMap fun
    | .reference name => some name
    | .plain _ => none
  | _ => []

end Line

/-- The text of lines, each ended by a line feed. -/
def unlines (lines : List String) : String := String.join (lines.map (· ++ "\n"))

/-! ## Labels -/

/-- The minted names of a label table, by address and age. -/
def mintedNames (labels : LabelTable) : List String :=
  (labels.toList.flatMap (·.2)).filter fun name => LabelTable.stem.toList.isPrefixOf name.toList

/-- The names a listing shows in the place of minted ones: each is numbered by
its rank, and where a name is listed twice by its last. -/
abbrev Renaming := Std.ExtTreeMap String String

/-- The renaming of a label table. -/
def Renaming.ofLabels (labels : LabelTable) : Renaming :=
  .ofList ((mintedNames labels).zipIdx.map fun (name, rank) => (name, LabelTable.mintedName rank))

/-- The name a listing shows for a label; any but a minted one is shown as it is. -/
def shown (names : Renaming) (name : String) : String := (names[name]?).getD name

/-- The lines that define the labels of an address. -/
def labelLines (labels : LabelTable) (names : Renaming) (address : Nat) : List Line :=
  (labels.namesAt address).map fun name => .label (shown names name)

/-! ## Texts -/

/-- The line of a piece of text; its end is marked if no terminator follows. -/
def textLine (codes : List UInt16) (terminated : Bool) : Line :=
  .text (Glyph.decode codes ++ if terminated then "" else String.ofList Glyph.openEnd)

/-- The lines of a text from its code `start` on, cut wherever one of the given
addresses falls into it. -/
def cutText (labels : LabelTable) (names : Renaming) (text : EncodedString) (address : Nat) :
    List Nat → (start : Nat) → List Line
  | [], start => [textLine (text.codes.drop start) text.terminated]
  | label :: rest, start =>
    let cut := min ((label - address) / 2) text.codes.length
    textLine ((text.codes.take cut).drop start) false ::
      labelLines labels names label ++ cutText labels names text address rest cut

/-- The labelled addresses strictly inside the text at an address. -/
def labelsInside (labels : LabelTable) (address : Nat) (text : EncodedString) : List Nat :=
  (labels.toList.map (·.1)).filter fun label =>
    address < label && label < address + 4 * text.width

/-- The lines of the text at an address: cut wherever a label points inside it. -/
def textLines (labels : LabelTable) (names : Renaming) (address : Nat) (text : EncodedString) :
    List Line :=
  cutText labels names text address (labelsInside labels address text) 0

/-! ## Instructions -/

/-- A header parameter: the symbol of a comparison, else a number. -/
def parameterText (opcode : Opcode) (value : UInt16) : String :=
  ((if opcode.compares then comparison? value else none)).getD ("0x" ++ hex value.toNat)

/-- An identifier: the characters behind the descriptor, four a word, low byte first. -/
def identifierText (words : List Word) : List Char :=
  match words with
  | [] => []
  | first :: rest =>
    ((rest.flatMap Word.toBytes).take first.p2.toNat).map fun byte => Char.ofNat byte.toNat

/-- An immediate: for a call whose parameter is an enumeration its symbol, else a number. -/
def immediateText (catalogue : Catalogue) (instruction : Instruction) (index : Nat)
    (value : Word) : String :=
  let symbol := if instruction.opcode = .call then do
      let method ← catalogue.method? instruction.parameter
      let parameter ← method.parameters[index]?
      catalogue.symbol? parameter.type value.toNat
    else none
  symbol.getD ("0x" ++ hex value.toNat)

/-- Where an inline operand points: its label, or the address as a number. -/
def targetPiece (names : Renaming) (instruction : Instruction) (operand : Operand) : Piece :=
  match operand.label with
  | some name => .reference (shown names name)
  | none =>
    .plain ("0x" ++
      hexSigned ((operand.mode.resolve instruction.address operand.rawWords).getD 0))

/-- An operand. -/
def operandPieces (catalogue : Catalogue) (names : Renaming) (instruction : Instruction)
    (index : Nat) (operand : Operand) : List Piece :=
  let first : Word := operand.rawWords[0]?.getD 0
  let second : Word := operand.rawWords[1]?.getD 0
  let p0 := decimal first.p0.toNat
  let p1 := decimal first.p1.toNat
  let p2 := decimal first.p2.toNat
  let q0 := decimal second.p0.toNat
  let q1 := decimal second.p1.toNat
  let target := targetPiece names instruction operand
  match operand.mode with
  | .immediate => [.plain (immediateText catalogue instruction index first)]
  | .nextImmediate => [.plain (immediateText catalogue instruction index second)]
  | .storage => [.plain ("stor[" ++ p0 ++ "]")]
  | .otherOtherStorage =>
    [.plain ("stor[stor[stor[" ++ p0 ++ "], " ++ p1 ++ "], " ++ p2 ++ "]")]
  | .otherStorageOffset =>
    [.plain ("stor[stor[" ++ p0 ++ "], " ++ p1 ++ " + stor[" ++ p2 ++ "]]")]
  | .gameVar1 => [.plain ("var[" ++ p0 ++ "]")]
  | .gameVar2 => [.plain ("var[" ++ p0 ++ " + stor[" ++ p1 ++ "]]")]
  | .gameVarArray1 => [.plain ("var[" ++ p0 ++ "][stor[" ++ p1 ++ "]]")]
  | .gameVarArray2 => [.plain ("var[" ++ p0 ++ " + stor[" ++ p1 ++ "]][stor[" ++ p2 ++ "]]")]
  | .inline1 | .inline3 => [.plain "inl[", target, .plain "]"]
  | .inline2 => [.plain "inl[", target, .plain ("[stor[" ++ p2 ++ "]]]")]
  | .inlineTable1 =>
    [.plain "inl[", target, .plain "[", target, .plain ("[stor[" ++ p2 ++ "]]]]")]
  | .inlineTable2 =>
    [.plain "inl[", target, .plain "[", target,
      .plain ("[stor[" ++ q0 ++ "]] + stor[" ++ q1 ++ "]]]")]
  | .otherStorage => [.plain ("stor[stor[" ++ p0 ++ "], " ++ p1 ++ " + " ++ p2 ++ "]")]
  | .gameVar3 => [.plain ("var[" ++ p0 ++ " + " ++ p1 ++ "]")]
  | .gameVarArray3 => [.plain ("var[" ++ p0 ++ "][" ++ p1 ++ "]")]
  | .gameVarArray4 => [.plain ("var[" ++ p0 ++ " + stor[" ++ p1 ++ "]][" ++ p2 ++ "]")]
  | .gameVarArray5 => [.plain ("var[" ++ p0 ++ " + " ++ p1 ++ "][stor[" ++ p2 ++ "]]")]
  | .inlineTable3 =>
    [.plain "inl[", target, .plain " + inl[", target,
      .plain (" + 0x" ++ hex first.p2.toNat ++ "]]")]
  | .inlineTable4 =>
    [.plain "inl[", target, .plain "[", target, .plain ("[" ++ q0 ++ "] + " ++ q1 ++ "]]")]
  | .register => [.plain ("reg[" ++ p0 ++ "]")]
  | .identifier =>
    [.plain ("id[" ++ String.ofList (identifierText operand.rawWords) ++ "]")]
  | .unsupported12 | .unsupported15 | .unsupported16 => [.plain ("0x" ++ hex first.toNat)]

/-- What stands between the mnemonic and the operands: the method or the header
parameter, and the zero that some forms imply. -/
def headText (listing : Listing) (method : Option Method) (instruction : Instruction) : String :=
  let opcode := instruction.opcode
  let subject :=
    if opcode = .call then
      match method with
      | some method =>
        if listing.stripNames then " " ++ decimal instruction.parameter.toNat
        else " " ++ method.name
      | none => " " ++ decimal instruction.parameter.toNat
    else if opcode.parameter.isSome then " " ++ parameterText opcode instruction.parameter
    else ""
  let zero := match opcode with
    | .waitCmp0 | .jmpCmp0 => ", 0x0"
    | .mov0 => " 0x0,"
    | _ => ""
  subject ++ zero

/-- What a comment says of a call parameter. -/
def parameterComment (p : Parameter) : String := p.direction ++ " " ++ p.type ++ " " ++ p.name

/-- The comment behind an instruction: what its operands are. -/
def commentText (method : Option Method) (instruction : Instruction) : String :=
  let opcode := instruction.opcode
  match method with
  | some method =>
    if method.parameters.isEmpty then ""
    else " ; " ++ ", ".intercalate (method.parameters.map parameterComment)
  | none =>
    if opcode ≠ .call && (!instruction.operands.isEmpty || opcode.parameter.isSome) then
      " ; " ++ ", ".intercalate (opcode.parameter.toList ++ opcode.commentOperands)
    else ""

/-- Operands, the first of which has number `index`, each with what parts it
from what stands before it. -/
def operandsPieces (catalogue : Catalogue) (names : Renaming) (instruction : Instruction) :
    (index : Nat) → List Operand → List Piece
  | _, [] => []
  | index, operand :: rest =>
    let first := index = 0 && instruction.opcode.parameter.isNone
    .plain (if first then " " else ", ") ::
      operandPieces catalogue names instruction index operand ++
      operandsPieces catalogue names instruction (index + 1) rest

/-- The line of an instruction. -/
def instructionLine (listing : Listing) (catalogue : Catalogue) (names : Renaming)
    (instruction : Instruction) : Line :=
  let opcode := instruction.opcode
  let method := if opcode = .call then catalogue.method? instruction.parameter else none
  let comment := if listing.stripComments then "" else commentText method instruction
  .instruction (.plain (opcode.mnemonic ++ headText listing method instruction) ::
    operandsPieces catalogue names instruction 0 instruction.operands ++ [.plain comment])

/-! ## Scripts -/

/-- The comments that announce what an address is to the script. -/
def banners (flags : AddressFlags) : List Line :=
  (if flags.subroutine then [.blank, .comment "SUBROUTINE"] else []) ++
    (if flags.table then [.blank, .comment "SUBROUTINE TABLE"] else []) ++
    (if flags.reentry then [.blank, .comment "FORK RE-ENTRY"] else [])

/-- The lines of the entry at an address. -/
def entryLines (listing : Listing) (catalogue : Catalogue) (labels : LabelTable)
    (names : Renaming) (address : Nat) : Entry → List Line
  | .unset => [.comment "unset"]
  | .entrypoint _ destination => [.entrypoint (shown names destination)]
  | .instruction decoded => [instructionLine listing catalogue names decoded]
  | .pointerTable _ entries => entries.map fun name => .relative (shown names name)
  | .encodedString text => textLines labels names address text
  | .rawData _ value => [.word value]
  | .operandSlot .. | .continuation _ => []

/-- The lines of a script. -/
def lines (listing : Listing) (catalogue : Catalogue) (script : Script) : List Line :=
  let names := Renaming.ofLabels script.labels
  script.heads.flatMap fun (address, entry) =>
    (if listing.stripComments then [] else banners (script.flagsAt address)) ++
      labelLines script.labels names address ++
      entryLines listing catalogue script.labels names address entry

/-- The body of a listing. -/
def body (listing : Listing) (catalogue : Catalogue) (script : Script) : String :=
  unlines ((listing.lines catalogue script).map Line.render)

/-- The head of a listing: a comment that names the file. -/
def head (listing : Listing) (path : String) : String :=
  if listing.stripComments then "" else unlines [(Line.comment path).render]

/-- The listing of a script that was read from `path`. -/
def render (listing : Listing) (catalogue : Catalogue) (script : Script) (path : String) :
    String :=
  listing.head path ++ listing.body catalogue script

end Listing
end EventScript
