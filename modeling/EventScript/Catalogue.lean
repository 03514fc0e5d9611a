/-
The call catalogue. The header parameter of a `call` selects a native method.
Recovery needs two facts of each of its parameters: whether it names a branch,
and of which kind, and whether it points at packed text. Names, descriptions
and enumerations are carried for the listing.
-/
import Std.Data.ExtTreeMap
import EventScript.Fault
import EventScript.Text.Caseless

namespace EventScript

/-- What a call parameter does with control flow. -/
inductive BranchKind where
  /-- A plain value. -/
  | none
  /-- A jump target. -/
  | jump
  /-- The entry of a subroutine. -/
  | subroutine
  /-- Where a forked thread enters again. -/
  | reentry
  /-- A subroutine entered as `gosub` does. -/
  | gosub
  deriving DecidableEq, Repr

namespace BranchKind

/-- The name of a kind. -/
def name : BranchKind → String
  | .none => "none"
  | .jump => "jump"
  | .subroutine => "subroutine"
  | .reentry => "reentry"
  | .gosub => "gosub"

/-- Every kind. -/
def all : List BranchKind := [.none, .jump, .subroutine, .reentry, .gosub]

/-- The kind with a name, in either case; an empty name is a plain value. -/
def ofName? (text : String) : Option BranchKind :=
  if text.isEmpty then some .none else all.find? (·.name == Text.lower text)

end BranchKind

/-- One parameter of a native method. -/
structure Parameter where
  /-- `in`, `out` or `both`. -/
  direction : String
  /-- What the value means: `int`, `bool`, `string`, or an enumeration. -/
  type : String
  name : String
  description : String := ""
  branch : BranchKind := .none
  deriving DecidableEq, Repr

/-- Whether a parameter points at packed text. -/
def Parameter.isString (p : Parameter) : Bool := Text.sameLetters p.type "string"

/-- A native method. -/
structure Method where
  name : String
  description : String := ""
  /-- Parameters in operand order. -/
  parameters : List Parameter := []
  deriving DecidableEq, Repr

/-- The native methods of one game, by call index, and its enumerations. -/
structure Catalogue where
  methods : List Method := []
  enums : Std.ExtTreeMap String (List String) := ∅

namespace Catalogue

/-- The catalogue that describes no call. -/
def empty : Catalogue := {}

/-- The method at a call index. -/
def method? (catalogue : Catalogue) (index : UInt16) : Option Method :=
  catalogue.methods[index.toNat]?

/-- The call index of a method's name. -/
def indexOf? (catalogue : Catalogue) (name : String) : Option Nat :=
  (catalogue.methods.findIdx? (·.name == name)).filter (· < 0x10000)

/-- The symbol of an enumeration's value. -/
def symbol? (catalogue : Catalogue) (enumeration : String) (value : Nat) : Option String :=
  (catalogue.enums[enumeration]?).bind (·[value]?)

/-- A catalogue has to name every method. -/
def validate (catalogue : Catalogue) : Except Fault Catalogue :=
  match catalogue.methods.findIdx? (·.name.isEmpty) with
  | some index => .error (.namelessMethod index)
  | none => .ok catalogue

end Catalogue
end EventScript
