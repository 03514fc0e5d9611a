/-
Label tables in documents. Addresses are names of an object, spelled in plain
digits; where a name is repeated, the last one counts.
-/
import EventScript.Fault
import EventScript.Json.Access
import EventScript.Json.Reader
import EventScript.Label

namespace EventScript.LabelTable

open Json

/-- A label table as a value. -/
def toJson (table : LabelTable) : Json :=
  record [
    ("by_address", record (table.byAddress.toList.map fun (address, names) =>
      (Text.decimal address, Json.ofList ofText names))),
    ("refs", record (table.references.toList.map fun (name, count) => (name, ofNat count))),
    ("next_index", ofNat table.nextIndex)]

/-- The label table a value is. -/
def ofJson? (value : Json) : Option LabelTable := do
  let f ← value.fields? ["by_address", "refs", "next_index"]
  let byAddress ← f.required "by_address" (pairs? (nameNat? 32) (list? text?))
  let references ← f.required "refs" (pairs? unescape? (nat? 64))
  let nextIndex ← f.required "next_index" (nat? 64)
  some ⟨.ofList byAddress, .ofList references, nextIndex⟩

/-- The label table a document holds. -/
def ofDocument (text : String) : Except Fault LabelTable :=
  match (Json.parse? text).bind ofJson? with
  | some table => .ok table
  | none => .error .document

end EventScript.LabelTable
