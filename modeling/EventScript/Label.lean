/-
The label table. An address carries one or more names, and each name counts
the references held on it, so that a reference made on a guess can be given
back when the guess turns out wrong. Names are minted from one counter that
never goes back.
-/
import Std.Data.ExtTreeMap
import EventScript.Text.Numeral

namespace EventScript

/-- Names of addresses, with the references held on each name. -/
structure LabelTable where
  /-- The names of each address, oldest first. -/
  byAddress : Std.ExtTreeMap Nat (List String) := ∅
  /-- The references held on each name. -/
  references : Std.ExtTreeMap String Nat := ∅
  /-- The number the next minted name will carry. -/
  nextIndex : Nat := 0
  deriving DecidableEq

namespace LabelTable

/-- What every minted name starts with. -/
def stem : String := "LABEL_"

/-- The minted name with a given number. -/
def mintedName (index : Nat) : String := stem ++ Text.decimal index

/-- A table without labels. -/
def empty : LabelTable := {}

/-- All names of an address, oldest first. -/
def namesAt (table : LabelTable) (address : Nat) : List String :=
  (table.byAddress[address]?).getD []

/-- The oldest name of an address. -/
def nameAt? (table : LabelTable) (address : Nat) : Option String :=
  (table.namesAt address).head?

/-- Whether the table lists an address. -/
def contains (table : LabelTable) (address : Nat) : Bool := table.byAddress.contains address

/-- The labelled addresses with their names, in ascending order. -/
def toList (table : LabelTable) : List (Nat × List String) := table.byAddress.toList

/-- The lowest address that carries a name. -/
def addressOf? (table : LabelTable) (name : String) : Option Nat :=
  (table.toList.find? fun (_, names) => names.contains name).map (·.1)

/-- The references held on a name. -/
def refCount (table : LabelTable) (name : String) : Nat := (table.references[name]?).getD 0

/-- How many addresses carry a label. -/
def size (table : LabelTable) : Nat := table.byAddress.size

/-- Whether no address carries a label. -/
def isEmpty (table : LabelTable) : Bool := table.byAddress.isEmpty

/-- Adds a name at the end of an address's list. -/
def append (table : LabelTable) (address : Nat) (name : String) : LabelTable :=
  { table with byAddress := table.byAddress.insert address (table.namesAt address ++ [name]) }

/-- Takes one more reference on a name. -/
def acquire (table : LabelTable) (name : String) : LabelTable :=
  { table with references := table.references.insert name (table.refCount name + 1) }

/-- Mints a fresh name at an address and takes the first reference on it. -/
def addUnique (table : LabelTable) (address : Nat) : String × LabelTable :=
  let name := mintedName table.nextIndex
  let listed := table.append address name
  (name, { listed with
    references := listed.references.insert name 1
    nextIndex := table.nextIndex + 1 })

/-- Takes a reference on the label of an address, minting one if it has none. -/
def add (table : LabelTable) (address : Nat) : String × LabelTable :=
  match table.nameAt? address with
  | some name => (name, table.acquire name)
  | none => table.addUnique address

/-- Takes references on the labels of several addresses, in order. -/
def addAll (table : LabelTable) : List Nat → List String × LabelTable
  | [] => ([], table)
  | address :: rest =>
    let (name, table) := table.add address
    let (names, table) := table.addAll rest
    (name :: names, table)

/-- Binds a given name at an address, unless the name is bound already, takes
a reference on it, and answers the address's oldest name. -/
def addNamed (table : LabelTable) (address : Nat) (name : String) : String × LabelTable :=
  let listed :=
    if (table.addressOf? name).isNone then table.append address name else table
  let table := listed.acquire name
  ((table.nameAt? address).getD name, table)

/-- Takes a name off the lowest address that carries it, and the address off
the table once it has no name left. -/
def unlist (table : LabelTable) (name : String) : LabelTable :=
  match table.addressOf? name with
  | none => table
  | some address =>
    let names := (table.namesAt address).filter (· != name)
    { table with
      byAddress :=
        if names.isEmpty then table.byAddress.erase address
        else table.byAddress.insert address names }

/-- Gives back one reference on a name. With the last one the label goes too;
the answer says whether it did. -/
def release (table : LabelTable) (name : String) : Bool × LabelTable :=
  match table.references[name]? with
  | none => (false, table)
  | some count =>
    if 1 < count then
      (false, { table with references := table.references.insert name (count - 1) })
    else
      (true, { table with references := table.references.erase name }.unlist name)

end LabelTable
end EventScript
