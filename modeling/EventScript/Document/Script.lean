/-
Scripts in documents. A document holds the whole model, so that it can be
edited by hand and assembled again. Entries are tagged by their kind.
-/
import EventScript.Document.Diagnostic
import EventScript.Document.Label
import EventScript.Script

namespace EventScript

open Json

namespace Operand

/-- An operand as a value. -/
def toJson (operand : Operand) : Json :=
  record [
    ("address", ofNat operand.address),
    ("mode", ofText operand.mode.id),
    ("raw_words", Json.ofList (fun word => ofNat word.toNat) operand.rawWords),
    ("resolved", ofOption ofNat operand.resolved),
    ("label", ofOption ofText operand.label)]

/-- The operand a value is. -/
def ofJson? (value : Json) : Option Operand := do
  let f ← value.fields? ["address", "mode", "raw_words", "resolved", "label"]
  let address ← f.required "address" (nat? 32)
  let mode ← f.required "mode" (choice? Mode.ofId?)
  let rawWords ← f.required "raw_words" (list? (nat? 32))
  let resolved ← f.nullable "resolved" (nat? 32)
  let label ← f.nullable "label" text?
  some ⟨address, mode, rawWords.map UInt32.ofNat, resolved, label⟩

end Operand

namespace Entry

/-- The fields of an entry, its kind first. -/
def fields : Entry → List (String × Json)
  | .unset => [(tagName, ofText "unset")]
  | .entrypoint address destination =>
    [(tagName, ofText "entrypoint"), ("address", ofNat address),
      ("destination", ofText destination)]
  | .instruction decoded =>
    [(tagName, ofText "instruction"), ("address", ofNat decoded.address),
      ("opcode", ofText decoded.opcode.id), ("header_param", ofNat decoded.parameter.toNat),
      ("operands", Json.ofList Operand.toJson decoded.operands)]
  | .operandSlot header index =>
    [(tagName, ofText "operand_slot"), ("instruction", ofNat header), ("index", ofNat index)]
  | .pointerTable address labels =>
    [(tagName, ofText "pointer_table"), ("address", ofNat address),
      ("labels", Json.ofList ofText labels)]
  | .encodedString text =>
    [(tagName, ofText "encoded_string"), ("address", ofNat text.address),
      ("chars", Json.ofList (fun code => ofNat code.toNat) text.codes),
      ("terminated", .bool text.terminated)]
  | .continuation head => [(tagName, ofText "continuation"), ("head", ofNat head)]
  | .rawData address value =>
    [(tagName, ofText "raw_data"), ("address", ofNat address), ("value", ofNat value.toNat)]

/-- An entry as a value. -/
def toJson (entry : Entry) : Json := record entry.fields

/-- The entry of a kind, read from the rest of the tagged value. -/
def ofKind? (kind : String) (rest : Json) : Option Entry :=
  match kind with
  | "unset" => rest.nothing?.map fun _ => .unset
  | "entrypoint" => do
    let f ← rest.fields? ["address", "destination"]
    some (.entrypoint (← f.required "address" (nat? 32)) (← f.required "destination" text?))
  | "instruction" => do
    let f ← rest.fields? ["address", "opcode", "header_param", "operands"]
    let address ← f.required "address" (nat? 32)
    let opcode ← f.required "opcode" (choice? Opcode.ofId?)
    let parameter ← f.required "header_param" (nat? 16)
    let operands ← f.required "operands" (list? Operand.ofJson?)
    some (.instruction ⟨address, opcode, UInt16.ofNat parameter, operands⟩)
  | "operand_slot" => do
    let f ← rest.fields? ["instruction", "index"]
    some (.operandSlot (← f.required "instruction" (nat? 32)) (← f.required "index" (nat? 64)))
  | "pointer_table" => do
    let f ← rest.fields? ["address", "labels"]
    some (.pointerTable (← f.required "address" (nat? 32)) (← f.required "labels" (list? text?)))
  | "encoded_string" => do
    let f ← rest.fields? ["address", "chars", "terminated"]
    let address ← f.required "address" (nat? 32)
    let codes ← f.required "chars" (list? (nat? 16))
    let terminated ← f.required "terminated" bool?
    some (.encodedString ⟨address, codes.map UInt16.ofNat, terminated⟩)
  | "continuation" => do
    let f ← rest.fields? ["head"]
    some (.continuation (← f.required "head" (nat? 32)))
  | "raw_data" => do
    let f ← rest.fields? ["address", "value"]
    let address ← f.required "address" (nat? 32)
    let value ← f.required "value" (nat? 32)
    some (.rawData address (UInt32.ofNat value))
  | _ => none

/-- The entry a value is, nested no deeper than `room`. -/
def ofJson? (room : Nat) (value : Json) : Option Entry := do
  let (kind, rest) ← value.tagged? room
  ofKind? kind rest

end Entry

namespace Script

/-- A set of addresses as a value: ascending. -/
def addressesToJson (addresses : AddressSet) : Json := Json.ofList ofNat addresses.toList

/-- A script as a value. -/
def toJson (script : Script) : Json :=
  record [
    ("entries", Json.ofList Entry.toJson script.entries.toList),
    ("labels", script.labels.toJson),
    ("entrypoints", Json.ofList ofNat script.entrypoints),
    ("branches", addressesToJson script.branches),
    ("subroutines", addressesToJson script.subroutines),
    ("reentry_points", addressesToJson script.reentryPoints),
    ("table_addresses", addressesToJson script.tableAddresses),
    ("jump_table_destinations", addressesToJson script.jumpTableDestinations),
    ("diagnostics", Json.ofList Diagnostic.toJson script.diagnostics)]

/-- The script a value is. -/
def ofJson? (value : Json) : Option Script := do
  let f ← value.fields? ["entries", "labels", "entrypoints", "branches", "subroutines",
    "reentry_points", "table_addresses", "jump_table_destinations", "diagnostics"]
  -- Entries and diagnostics stand two levels down: in the script, and in their list.
  let room := depthLimit - 2
  let entries ← f.required "entries" (list? (Entry.ofJson? room))
  let labels ← f.required "labels" LabelTable.ofJson?
  let entrypoints ← f.required "entrypoints" (list? (nat? 32))
  let branches ← f.required "branches" (set? (nat? 32))
  let subroutines ← f.required "subroutines" (set? (nat? 32))
  let reentryPoints ← f.required "reentry_points" (set? (nat? 32))
  let tableAddresses ← f.required "table_addresses" (set? (nat? 32))
  let jumpTableDestinations ← f.required "jump_table_destinations" (set? (nat? 32))
  let diagnostics ← f.defaulted "diagnostics" (list? (Diagnostic.ofJson? room)) []
  some {
    entries := entries.toArray, labels, entrypoints, branches, subroutines, reentryPoints,
    tableAddresses, jumpTableDestinations, diagnostics }

/-- The document of a script, laid out over lines. -/
def toDocument (script : Script) : String := script.toJson.toPretty

/-- The document of a script on one line. -/
def toCompactDocument (script : Script) : String := script.toJson.toCompact

/-- The script a document holds. -/
def ofDocument (text : String) : Except Fault Script :=
  match (Json.parse? text).bind ofJson? with
  | some script => .ok script
  | none => .error .document

end Script
end EventScript
