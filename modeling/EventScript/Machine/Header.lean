/-
Instruction headers. A header word packs the opcode in its low byte, the
operand count in the next, and a parameter in its upper half. Decoding accepts
a word only if the opcode exists, the count is the opcode's own, and the
parameter is zero wherever the opcode has none.
-/
import EventScript.Machine.Opcode
import EventScript.Word

namespace EventScript

/-- A decoded instruction header. -/
structure Header where
  opcode : Opcode
  /-- How many operands follow. -/
  operandCount : Nat
  /-- Upper half of the word: a call index or a comparison. -/
  parameter : UInt16
  deriving DecidableEq, Repr

namespace Header

/-- The opcode byte of a header word. -/
def codeOf (word : Word) : UInt8 := word.toUInt8

/-- The operand count of a header word. -/
def countOf (word : Word) : Nat := (word >>> 8).toUInt8.toNat

/-- The parameter of a header word. -/
def parameterOf (word : Word) : UInt16 := (word >>> 16).toUInt16

/-- Packs a header word; of the count only the low eight bits have room. -/
def pack (code : UInt8) (count : Nat) (parameter : UInt16) : Word :=
  code.toUInt32 ||| ((UInt8.ofNat count).toUInt32 <<< 8) ||| (parameter.toUInt32 <<< 16)

/-- The word of a header. -/
def encode (header : Header) : Word :=
  pack header.opcode.code header.operandCount header.parameter

/-- The header a word encodes, if it is one. -/
def decode (word : Word) : Option Header := do
  let opcode ← Opcode.ofCode? (codeOf word)
  let header : Header := ⟨opcode, countOf word, parameterOf word⟩
  if opcode.arity.all (· == header.operandCount) &&
      (opcode.parameter.isSome || header.parameter == 0) then
    some header
  else none

end Header
end EventScript
