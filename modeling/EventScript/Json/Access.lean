/-
Reading the meaning of JSON values. A record may be written as an object, with
its fields in any order and unknown ones passed over, or as an array of its
fields in order. A tagged value names its kind and then is a record of that
kind; all of it has to be readable, even what nobody asks for.
-/
import Std.Data.ExtTreeMap
import Std.Data.ExtTreeSet
import EventScript.Json.Value

namespace EventScript.Json

/-- How deep arrays and objects may be nested in what is read. -/
def depthLimit : Nat := 127

/-- The text a value is. -/
def text? : Json → Option String
  | .string spelling => unescape? spelling
  | _ => none

/-- The truth value a value is. -/
def bool? : Json → Option Bool
  | .bool value => some value
  | _ => none

/-- The integer a value is, if it lies in `[low, high)`. -/
def intIn? (low high : Int) : Json → Option Int
  | .number spelling => do
    let n ← (← Numeral.ofSpelling? spelling).int?
    if low ≤ n ∧ n < high then some n else none
  | _ => none

/-- The natural number of at most `bits` bits a value is. -/
def nat? (bits : Nat) (value : Json) : Option Nat :=
  (value.intIn? 0 (Nat.pow 2 bits : Nat)).map Int.toNat

/-- The two's complement number of 64 bits a value is. -/
def int64? : Json → Option Int := intIn? (-0x8000000000000000) 0x8000000000000000

/-- The list a value is. -/
def list? (read : Json → Option α) : Json → Option (List α)
  | .array items => items.mapM read
  | _ => none

/-- The set a value lists, in any order and with repetitions. -/
def set? (read : Json → Option Nat) (value : Json) : Option (Std.ExtTreeSet Nat) :=
  (value.list? read).map fun items => Std.ExtTreeSet.ofList items

/-- The pairs of an object. -/
def pairs? {κ α : Type} (readName : List Char → Option κ) (read : Json → Option α) :
    Json → Option (List (κ × α))
  | .object fields => fields.mapM fun (name, value) => do
    let key ← readName name
    let a ← read value
    some (key, a)
  | _ => none

/-- The natural number of at most `bits` bits that a name spells in plain digits. -/
def nameNat? (bits : Nat) (name : List Char) : Option Nat := nat? bits (.number name)

/-! ## Records -/

/-- The fields of a record as they are given. -/
structure Fields where
  given : List (String × Json)
  /-- Whether they are given in order instead of by name. -/
  positional : Bool

/-- The fields of a record with the given field names, none of which may be repeated. -/
def fields? (names : List String) : Json → Option Fields
  | .object fields => do
    let given ← fields.mapM fun (name, value) => (unescape? name).map fun name => (name, value)
    if names.all fun name => (given.map (·.1)).count name ≤ 1 then some ⟨given, false⟩ else none
  | .array items =>
    if items.length ≤ names.length then some ⟨names.zip items, true⟩ else none
  | _ => none

namespace Fields

/-- A field that must be there. -/
def required (fields : Fields) (name : String) (read : Json → Option α) : Option α :=
  (fields.given.lookup name).bind read

/-- A field that takes a default if it is missing. -/
def defaulted (fields : Fields) (name : String) (read : Json → Option α) (default : α) :
    Option α :=
  match fields.given.lookup name with
  | none => some default
  | some value => read value

/-- A field that may be null, and left out where fields have names. -/
def nullable (fields : Fields) (name : String) (read : Json → Option α) : Option (Option α) :=
  match fields.given.lookup name with
  | none => if fields.positional then none else some none
  | some .null => some none
  | some value => (read value).map some

end Fields

/-! ## Tagged values -/

mutual

/-- Whether every part of a value can be read and it nests no deeper than `room`. -/
def isSound (room : Nat) : Json → Bool
  | .null | .bool _ => true
  | .number spelling => (Numeral.ofSpelling? spelling).any Numeral.isFinite
  | .string spelling => (unescape? spelling).isSome
  | .array items => 0 < room && areSound (room - 1) items
  | .object fields => 0 < room && fieldsAreSound (room - 1) fields

/-- Whether every item is sound. -/
def areSound (room : Nat) : List Json → Bool
  | [] => true
  | item :: rest => isSound room item && areSound room rest

/-- Whether every name and value of an object is sound. -/
def fieldsAreSound (room : Nat) : List (List Char × Json) → Bool
  | [] => true
  | (name, value) :: rest =>
    (unescape? name).isSome && isSound room value && fieldsAreSound room rest

end

/-- The name of the field that tells the kind of a tagged value. -/
def tagName : String := "kind"

/-- The kind of a tagged value, and the value without it. -/
def tagged? (room : Nat) (value : Json) : Option (String × Json) :=
  if value.isSound room then
    match value with
    | .object fields =>
      match fields.partition fun (name, _) => unescape? name = some tagName with
      | ([(_, kind)], rest) => kind.text?.map fun kind => (kind, .object rest)
      | _ => none
    | .array (kind :: rest) => kind.text?.map fun kind => (kind, .array rest)
    | _ => none
  else none

/-- What is left of a tagged value of a kind without fields. -/
def nothing? : Json → Option Unit
  | .object _ | .array [] => some ()
  | _ => none

/-- The alternative a value names, also in the form of an object with that one name. -/
def choice? (find : String → Option α) : Json → Option α
  | .string spelling => (unescape? spelling).bind find
  | .object [(name, .null)] | .object [(name, .object [])] => (unescape? name).bind find
  | _ => none

end EventScript.Json
