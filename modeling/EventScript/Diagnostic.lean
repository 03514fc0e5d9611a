/-
Diagnostics: problems the recovery of a script can live with. A diagnostic
never ends a recovery; it cuts short or skips one line of exploration.
-/
import EventScript.Text.Numeral
import EventScript.Word

namespace EventScript

/-- What went wrong. -/
inductive Problem where
  /-- The word is no instruction header. -/
  | invalidHeader (word : Word)
  /-- An operand's mode has no decoding rule. -/
  | unsupportedMode (tag : UInt8)
  /-- The operands run past the end of the image. -/
  | truncatedInstruction
  /-- The instruction would cover a slot claimed before. -/
  | overlappingCode
  /-- A control transfer depends on a value only known at run time. -/
  | unknowableOperand (mnemonic : String)
  /-- An inline pointer leads outside the image and was zeroed. -/
  | pointerOutOfRange (destination : Int)
  /-- A branch target lies outside the image or between two words. -/
  | invalidBranchTarget (destination : Nat)
  /-- The catalogue and the header disagree on a call's operands. -/
  | callArityMismatch (expected actual : Nat)
  /-- A pointer table met other entries and was shortened. -/
  | tableOverrun (kept dropped : Nat)
  /-- A data pointer table had no plausible entry. -/
  | emptyDataTable
  /-- A string could not be laid over the image without losing bits. -/
  | stringSkipped
  deriving DecidableEq, Repr

namespace Problem

open Text

/-- The text a problem is reported with. -/
def message : Problem → String
  | .invalidHeader word => "invalid instruction header 0x" ++ hexPadded 8 word.toNat
  | .unsupportedMode tag => "param type 0x" ++ hex tag.toNat ++ " not yet supported"
  | .truncatedInstruction => "instruction operands run past the end of the script"
  | .overlappingCode => "instruction overlaps an entry decoded earlier"
  | .unknowableOperand mnemonic => "skipping " ++ mnemonic ++ " due to unknowable parameter"
  | .pointerOutOfRange destination =>
    "pointer destination 0x" ++ hexSigned destination ++
      " is past the end of the script, replacing with 0"
  | .invalidBranchTarget destination =>
    "branch target 0x" ++ hex destination ++ " is not a valid address"
  | .callArityMismatch expected actual =>
    "call has wrong number of args (" ++ decimal actual ++ "/" ++ decimal expected ++ ")"
  | .tableOverrun kept dropped =>
    "table overrun, kept " ++ decimal kept ++ " entries and dropped " ++ decimal dropped
  | .emptyDataTable => "data pointer table has no entries"
  | .stringSkipped => "string does not end on a word boundary"

end Problem

/-- A problem and the address it was met at. -/
structure Diagnostic where
  address : Nat
  problem : Problem
  deriving DecidableEq, Repr

/-- The text a diagnostic is reported with. -/
def Diagnostic.message (d : Diagnostic) : String :=
  "0x" ++ Text.hex d.address ++ ": " ++ d.problem.message

end EventScript
