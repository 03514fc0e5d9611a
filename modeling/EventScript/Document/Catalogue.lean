/-
Call catalogues in documents. All but the names may be left out.
-/
import EventScript.Catalogue
import EventScript.Json.Access
import EventScript.Json.Reader

namespace EventScript

open Json

namespace Parameter

/-- A parameter as a value. -/
def toJson (p : Parameter) : Json :=
  record [
    ("direction", ofText p.direction), ("type", ofText p.type), ("name", ofText p.name),
    ("description", ofText p.description), ("branch", ofText p.branch.name)]

/-- The parameter a value is. -/
def ofJson? (value : Json) : Option Parameter := do
  let f ← value.fields? ["direction", "type", "name", "description", "branch"]
  let direction ← f.required "direction" text?
  let type ← f.required "type" text?
  let name ← f.required "name" text?
  let description ← f.defaulted "description" text? ""
  let branch ← f.defaulted "branch" (fun value => value.text?.bind BranchKind.ofName?) .none
  some { direction, type, name, description, branch }

end Parameter

namespace Method

/-- A method as a value. -/
def toJson (m : Method) : Json :=
  record [
    ("name", ofText m.name), ("description", ofText m.description),
    ("params", Json.ofList Parameter.toJson m.parameters)]

/-- The method a value is. -/
def ofJson? (value : Json) : Option Method := do
  let f ← value.fields? ["name", "description", "params"]
  let name ← f.required "name" text?
  let description ← f.defaulted "description" text? ""
  let parameters ← f.defaulted "params" (list? Parameter.ofJson?) []
  some { name, description, parameters }

end Method

namespace Catalogue

/-- A catalogue as a value. -/
def toJson (catalogue : Catalogue) : Json :=
  record [
    ("methods", Json.ofList Method.toJson catalogue.methods),
    ("enums", record (catalogue.enums.toList.map fun (name, symbols) =>
      (name, Json.ofList ofText symbols)))]

/-- The catalogue a value is. -/
def ofJson? (value : Json) : Option Catalogue := do
  let f ← value.fields? ["methods", "enums"]
  let methods ← f.defaulted "methods" (list? Method.ofJson?) []
  let enums ← f.defaulted "enums" (pairs? unescape? (list? text?)) []
  some { methods, enums := .ofList enums }

/-- The document of a catalogue. -/
def toDocument (catalogue : Catalogue) : String := catalogue.toJson.toPretty

/-- The catalogue that was read, which has to name every method. -/
def ofParsed (parsed : Option Json) : Except Fault Catalogue :=
  match parsed.bind ofJson? with
  | some catalogue => catalogue.validate
  | none => .error .document

/-- The catalogue a document holds. -/
def ofDocument (text : String) : Except Fault Catalogue := ofParsed (Json.parse? text)

/-- The catalogue a file holds. -/
def ofBytes (bytes : List UInt8) : Except Fault Catalogue := ofParsed (Json.parseBytes? bytes)

end Catalogue
end EventScript
