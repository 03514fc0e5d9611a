/-
JSON values and how they are written. A value keeps its texts, names and
numbers as they are spelled. There are two layouts: everything on one line, or
one item a line with two spaces of indentation a level.
-/
import EventScript.Json.Spelling

namespace EventScript

/-- A JSON value as it is spelled. -/
inductive Json where
  | null
  | bool (value : Bool)
  | number (spelling : List Char)
  | string (spelling : List Char)
  | array (items : List Json)
  | object (fields : List (List Char × Json))
  deriving Repr

namespace Json

/-- A text as a value. -/
def ofText (text : String) : Json := .string (escape text)

/-- A natural number as a value. -/
def ofNat (n : Nat) : Json := .number (Text.decimal n).toList

/-- An integer as a value. -/
def ofInt : Int → Json
  | .ofNat n => ofNat n
  | .negSucc n => .number ('-' :: (Text.decimal (n + 1)).toList)

/-- A list as a value. -/
def ofList (write : α → Json) (items : List α) : Json := .array (items.map write)

/-- A text that may be missing. -/
def ofOption (write : α → Json) : Option α → Json
  | none => .null
  | some a => write a

/-- A record as a value: named fields, in order. -/
def record (fields : List (String × Json)) : Json :=
  .object (fields.map fun (name, value) => (escape name, value))

/-- A spelling between quotes. -/
def quoted (spelling : List Char) : List Char := '"' :: spelling ++ ['"']

mutual

/-- A value on one line, without blanks. -/
def compact : Json → List Char
  | .null => "null".toList
  | .bool true => "true".toList
  | .bool false => "false".toList
  | .number spelling => spelling
  | .string spelling => quoted spelling
  | .array items => '[' :: compactItems items ++ [']']
  | .object fields => '\x7b' :: compactFields fields ++ ['\x7d']

/-- The items of an array, with commas between them. -/
def compactItems : List Json → List Char
  | [] => []
  | [item] => compact item
  | item :: rest => compact item ++ ',' :: compactItems rest

/-- The fields of an object, with commas between them. -/
def compactFields : List (List Char × Json) → List Char
  | [] => []
  | [(name, value)] => quoted name ++ ':' :: compact value
  | (name, value) :: rest => quoted name ++ ':' :: compact value ++ ',' :: compactFields rest

end

/-- A new line, indented by `level` levels. -/
def newline (level : Nat) : List Char := '\n' :: List.replicate (2 * level) ' '

mutual

/-- A value laid out over lines, the first of which stands at `level`. -/
def pretty (level : Nat) : Json → List Char
  | .null => "null".toList
  | .bool true => "true".toList
  | .bool false => "false".toList
  | .number spelling => spelling
  | .string spelling => quoted spelling
  | .array [] => ['[', ']']
  | .array items => '[' :: prettyItems (level + 1) items ++ newline level ++ [']']
  | .object [] => ['\x7b', '\x7d']
  | .object fields => '\x7b' :: prettyFields (level + 1) fields ++ newline level ++ ['\x7d']

/-- The items of an array, each on a line of its own. -/
def prettyItems (level : Nat) : List Json → List Char
  | [] => []
  | [item] => newline level ++ pretty level item
  | item :: rest => newline level ++ pretty level item ++ ',' :: prettyItems level rest

/-- The fields of an object, each on a line of its own. -/
def prettyFields (level : Nat) : List (List Char × Json) → List Char
  | [] => []
  | [(name, value)] => newline level ++ quoted name ++ ':' :: ' ' :: pretty level value
  | (name, value) :: rest =>
    newline level ++ quoted name ++ ':' :: ' ' :: pretty level value ++
      ',' :: prettyFields level rest

end

/-- The one-line text of a value. -/
def toCompact (value : Json) : String := String.ofList value.compact

/-- The indented text of a value. -/
def toPretty (value : Json) : String := String.ofList (value.pretty 0)

end Json
end EventScript
