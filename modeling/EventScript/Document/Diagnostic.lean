/-
Diagnostics in documents: an address and a problem tagged by its kind.
-/
import EventScript.Diagnostic
import EventScript.Fault
import EventScript.Json.Access
import EventScript.Json.Reader

namespace EventScript

open Json

namespace Problem

/-- The fields of a problem, its kind first. -/
def fields : Problem → List (String × Json)
  | .invalidHeader word => [(tagName, ofText "invalid_header"), ("word", ofNat word.toNat)]
  | .unsupportedMode tag => [(tagName, ofText "unsupported_mode"), ("tag", ofNat tag.toNat)]
  | .truncatedInstruction => [(tagName, ofText "truncated_instruction")]
  | .overlappingCode => [(tagName, ofText "overlapping_code")]
  | .unknowableOperand mnemonic =>
    [(tagName, ofText "unknowable_operand"), ("opcode", ofText mnemonic)]
  | .pointerOutOfRange destination =>
    [(tagName, ofText "pointer_out_of_range"), ("destination", ofInt destination)]
  | .invalidBranchTarget destination =>
    [(tagName, ofText "invalid_branch_target"), ("destination", ofNat destination)]
  | .callArityMismatch expected actual =>
    [(tagName, ofText "call_arity_mismatch"), ("expected", ofNat expected),
      ("actual", ofNat actual)]
  | .tableOverrun kept dropped =>
    [(tagName, ofText "table_overrun"), ("kept", ofNat kept), ("dropped", ofNat dropped)]
  | .emptyDataTable => [(tagName, ofText "empty_data_table")]
  | .stringSkipped => [(tagName, ofText "string_skipped")]

/-- A problem as a value. -/
def toJson (problem : Problem) : Json := record problem.fields

/-- The problem of a kind, read from the rest of the tagged value. -/
def ofKind? (kind : String) (rest : Json) : Option Problem :=
  match kind with
  | "invalid_header" => do
    let f ← rest.fields? ["word"]
    some (.invalidHeader (UInt32.ofNat (← f.required "word" (nat? 32))))
  | "unsupported_mode" => do
    let f ← rest.fields? ["tag"]
    some (.unsupportedMode (UInt8.ofNat (← f.required "tag" (nat? 8))))
  | "truncated_instruction" => rest.nothing?.map fun _ => .truncatedInstruction
  | "overlapping_code" => rest.nothing?.map fun _ => .overlappingCode
  | "unknowable_operand" => do
    let f ← rest.fields? ["opcode"]
    some (.unknowableOperand (← f.required "opcode" text?))
  | "pointer_out_of_range" => do
    let f ← rest.fields? ["destination"]
    some (.pointerOutOfRange (← f.required "destination" int64?))
  | "invalid_branch_target" => do
    let f ← rest.fields? ["destination"]
    some (.invalidBranchTarget (← f.required "destination" (nat? 32)))
  | "call_arity_mismatch" => do
    let f ← rest.fields? ["expected", "actual"]
    some (.callArityMismatch (← f.required "expected" (nat? 64)) (← f.required "actual" (nat? 64)))
  | "table_overrun" => do
    let f ← rest.fields? ["kept", "dropped"]
    some (.tableOverrun (← f.required "kept" (nat? 64)) (← f.required "dropped" (nat? 64)))
  | "empty_data_table" => rest.nothing?.map fun _ => .emptyDataTable
  | "string_skipped" => rest.nothing?.map fun _ => .stringSkipped
  | _ => none

/-- The problem a value is, nested no deeper than `room`. -/
def ofJson? (room : Nat) (value : Json) : Option Problem := do
  let (kind, rest) ← value.tagged? room
  ofKind? kind rest

end Problem

namespace Diagnostic

/-- A diagnostic as a value. -/
def toJson (d : Diagnostic) : Json :=
  record [("address", ofNat d.address), ("kind", d.problem.toJson)]

/-- The diagnostic a value is, nested no deeper than `room`. -/
def ofJson? (room : Nat) (value : Json) : Option Diagnostic := do
  let f ← value.fields? ["address", "kind"]
  let address ← f.required "address" (nat? 32)
  let problem ← f.required "kind" (Problem.ofJson? (room - 1))
  some ⟨address, problem⟩

/-- The diagnostic a document holds. -/
def ofDocument (text : String) : Except Fault Diagnostic :=
  match (Json.parse? text).bind (ofJson? depthLimit) with
  | some d => .ok d
  | none => .error .document

end Diagnostic
end EventScript
