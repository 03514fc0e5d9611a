/-
Summaries: how much of everything a script holds, on one line.
-/
import EventScript.Script
import EventScript.Text.Numeral

namespace EventScript

open Text

/-- The counts of a summary. -/
structure Summary where
  words : Nat
  entrypoints : Nat
  instructions : Nat
  tables : Nat
  strings : Nat
  data : Nat
  diagnostics : Nat
  deriving DecidableEq, Repr

namespace Summary

/-- The counts of a script. -/
def ofScript (script : Script) : Summary where
  words := script.size
  entrypoints := script.entrypoints.length
  instructions := script.instructions.length
  tables := script.heads.countP fun (_, entry) => entry matches .pointerTable ..
  strings := script.heads.countP fun (_, entry) => entry matches .encodedString ..
  data := script.heads.countP fun (_, entry) => entry matches .rawData ..
  diagnostics := script.diagnostics.length

/-- The summary of a script that was read from `path`. -/
def render (script : Script) (path : String) : String :=
  let s := ofScript script
  path ++ "\t" ++ decimal s.words ++ " words\t" ++ decimal s.entrypoints ++ " entrypoints\t" ++
    decimal s.instructions ++ " instructions\t" ++ decimal s.tables ++ " tables\t" ++
    decimal s.strings ++ " strings\t" ++ decimal s.data ++ " data\t" ++
    decimal s.diagnostics ++ " diagnostics\n"

end Summary
end EventScript
