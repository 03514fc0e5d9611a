/-
The script model: one entry for every word of an image. An entry of several
words stands in its first slot, and the slots after it say which entry owns
them, so every slot is classified once.
-/
import Std.Data.ExtTreeSet
import EventScript.Diagnostic
import EventScript.Label
import EventScript.Machine.Mode
import EventScript.Machine.Opcode

namespace EventScript

/-- The code that ends a packed string. -/
def sentinel : UInt16 := 0xa0ff

/-- One operand of an instruction. -/
structure Operand where
  /-- Address of the operand's first word. -/
  address : Nat
  mode : Mode
  /-- The words as they stand in the image. -/
  rawWords : List Word
  /-- The value or address, where it is known without running the script. -/
  resolved : Option Nat
  /-- The label of the address an inline operand points at. -/
  label : Option String
  deriving DecidableEq, Repr

namespace Operand

/-- Width in words. -/
def width (operand : Operand) : Nat := operand.rawWords.length

/-- A zero immediate in the place of the given words; only the first is cleared. -/
def zeroed (address : Nat) (rawWords : List Word) : Operand where
  address
  mode := .immediate
  rawWords := rawWords.modifyHead fun _ => 0
  resolved := some 0
  label := none

end Operand

/-- A decoded instruction. -/
structure Instruction where
  /-- Address of the header word. -/
  address : Nat
  opcode : Opcode
  /-- The header's parameter: a call index or a comparison. -/
  parameter : UInt16
  operands : List Operand
  deriving DecidableEq, Repr

/-- The width of operands one behind the other. -/
def Operand.widthOfAll : List Operand → Nat
  | [] => 0
  | operand :: rest => operand.width + widthOfAll rest

/-- Header and operands together, in words. -/
def Instruction.width (instruction : Instruction) : Nat :=
  1 + Operand.widthOfAll instruction.operands

/-- Packed text. -/
structure EncodedString where
  /-- Address of the first code. -/
  address : Nat
  /-- The codes, the sentinel apart. -/
  codes : List UInt16
  /-- Whether the sentinel follows the last code. -/
  terminated : Bool
  deriving DecidableEq, Repr

namespace EncodedString

/-- The codes as stored, with the sentinel. -/
def stored (string : EncodedString) : List UInt16 :=
  string.codes ++ if string.terminated then [sentinel] else []

/-- How many codes are stored. -/
def storedLength (string : EncodedString) : Nat :=
  string.codes.length + if string.terminated then 1 else 0

/-- Width in words: two codes a word. -/
def width (string : EncodedString) : Nat := (string.storedLength + 1) / 2

end EncodedString

/-- The classification of one slot. -/
inductive Entry where
  /-- Not classified yet. -/
  | unset
  /-- A slot at the head of the image that names an entry point by its label. -/
  | entrypoint (address : Nat) (destination : String)
  /-- The header of an instruction. -/
  | instruction (decoded : Instruction)
  /-- A word of operand `index` of the instruction whose header stands at `header`. -/
  | operandSlot (header : Nat) (index : Nat)
  /-- The first slot of a table of relative offsets, one label an entry. -/
  | pointerTable (address : Nat) (labels : List String)
  /-- The first slot of packed text. -/
  | encodedString (text : EncodedString)
  /-- A later slot of the table or string at `head`. -/
  | continuation (head : Nat)
  /-- A word of no known meaning. -/
  | rawData (address : Nat) (value : Word)
  deriving DecidableEq, Repr

namespace Entry

/-- The width in words of an entry that begins a run; continuations begin none. -/
def width? : Entry → Option Nat
  | .unset | .entrypoint .. | .rawData .. => some 1
  | .instruction decoded => some decoded.width
  | .pointerTable _ labels => some labels.length
  | .encodedString text => some text.width
  | .operandSlot .. | .continuation _ => none

/-- Whether nothing has claimed the slot yet. -/
def isUnset : Entry → Bool
  | .unset => true
  | _ => false

end Entry

/-- A set of addresses. -/
abbrev AddressSet := Std.ExtTreeSet Nat

/-- What exploration found out about one address. -/
structure AddressFlags where
  /-- Probed as code. -/
  branch : Bool
  /-- Entered by `gosub` or a subroutine call. -/
  subroutine : Bool
  /-- Entered by `fork` or a reentry call. -/
  reentry : Bool
  /-- The head of a branch table. -/
  table : Bool
  /-- Named by an entry of a jump table. -/
  jumpTableDestination : Bool
  /-- Named by an entry point slot. -/
  entrypoint : Bool
  deriving DecidableEq, Repr

/-- The flags as one number, `branch` in the lowest bit. -/
def AddressFlags.bits (flags : AddressFlags) : Nat :=
  flags.branch.toNat + 2 * flags.subroutine.toNat + 4 * flags.reentry.toNat +
    8 * flags.table.toNat + 16 * flags.jumpTableDestination.toNat +
    32 * flags.entrypoint.toNat

/-- A script: its entries, its labels, and what was learnt on the way. -/
structure Script where
  /-- One entry a word. -/
  entries : Array Entry := #[]
  labels : LabelTable := {}
  /-- Destinations of the entry point slots, in slot order. -/
  entrypoints : List Nat := []
  /-- Addresses probed as code. -/
  branches : AddressSet := ∅
  /-- Targets of `gosub`, `gosub_table` and subroutine calls. -/
  subroutines : AddressSet := ∅
  /-- Targets of `fork` and reentry calls. -/
  reentryPoints : AddressSet := ∅
  /-- Heads of branch tables. -/
  tableAddresses : AddressSet := ∅
  /-- Destinations named by jump tables. -/
  jumpTableDestinations : AddressSet := ∅
  diagnostics : List Diagnostic := []
  deriving DecidableEq

namespace Script

/-- A script of `size` unset slots. -/
def blank (size : Nat) : Script := { entries := Array.replicate size .unset }

/-- Length in words. -/
def size (script : Script) : Nat := script.entries.size

/-- Length in bytes. -/
def byteLength (script : Script) : Nat := 4 * script.entries.size

/-- The entry at an address, which has to be that of a slot. -/
def entryAt? (script : Script) (address : Nat) : Option Entry :=
  if address % 4 = 0 then script.entries[address / 4]? else none

/-- Replaces the entry of the slot that holds `address`; nothing changes past the script. -/
def setEntry (script : Script) (address : Nat) (entry : Entry) : Script :=
  { script with entries := script.entries.setIfInBounds (address / 4) entry }

/-- Replaces the entries of `count` slots from `address` on by one and the same. -/
def fill (script : Script) (address : Nat) (entry : Entry) : (count : Nat) → Script
  | 0 => script
  | count + 1 => (script.setEntry address entry).fill (address + 4) entry count

/-- Whether the slot at `address` is still unclassified. -/
def isUnset (script : Script) (address : Nat) : Bool :=
  (script.entryAt? address).any Entry.isUnset

/-- The address of the entry that owns the slot at `address`. -/
def headOf? (script : Script) (address : Nat) : Option Nat :=
  (script.entryAt? address).map fun
    | .operandSlot header _ => header
    | .continuation head => head
    | _ => address

/-- Entries that begin a run, with their addresses, from slot `n` on. -/
def headsFrom (n : Nat) : List Entry → List (Nat × Entry)
  | [] => []
  | entry :: rest =>
    if entry.width?.isSome then (4 * n, entry) :: headsFrom (n + 1) rest
    else headsFrom (n + 1) rest

/-- Entries that begin a run, with their addresses. -/
def heads (script : Script) : List (Nat × Entry) := headsFrom 0 script.entries.toList

/-- The decoded instructions, in address order. -/
def instructions (script : Script) : List Instruction :=
  script.entries.toList.filterMap fun
    | .instruction decoded => some decoded
    | _ => none

/-- The instruction that owns the slot at `address`. -/
def instructionAt? (script : Script) (address : Nat) : Option Instruction := do
  match ← script.entryAt? (← script.headOf? address) with
  | .instruction decoded => some decoded
  | _ => none

/-- What exploration found out about an address. -/
def flagsAt (script : Script) (address : Nat) : AddressFlags where
  branch := script.branches.contains address
  subroutine := script.subroutines.contains address
  reentry := script.reentryPoints.contains address
  table := script.tableAddresses.contains address
  jumpTableDestination := script.jumpTableDestinations.contains address
  entrypoint := script.entrypoints.contains address

/-- Records a problem met at an address. -/
def diagnose (script : Script) (address : Nat) (problem : Problem) : Script :=
  { script with diagnostics := script.diagnostics ++ [⟨address, problem⟩] }

end Script
end EventScript
