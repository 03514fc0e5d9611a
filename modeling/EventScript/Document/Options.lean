/-
Recovery options in documents. Every field has to be given.
-/
import EventScript.Json.Access
import EventScript.Json.Reader
import EventScript.Recovery.Session

namespace EventScript.Recovery.Options

open Json

/-- Options as a value. -/
def toJson (options : Options) : Json :=
  record [
    ("max_entrypoints", ofNat options.maxEntrypoints),
    ("probable_op_lookahead", ofNat options.lookahead),
    ("probable_op_threshold", ofInt options.threshold),
    ("string_sentinel_search_words", ofNat options.searchWords),
    ("extra_branches", Json.ofList ofNat options.extraBranches)]

/-- The options a value is. -/
def ofJson? (value : Json) : Option Options := do
  let f ← value.fields? ["max_entrypoints", "probable_op_lookahead", "probable_op_threshold",
    "string_sentinel_search_words", "extra_branches"]
  let maxEntrypoints ← f.required "max_entrypoints" (nat? 64)
  let lookahead ← f.required "probable_op_lookahead" (nat? 64)
  let threshold ← f.required "probable_op_threshold" int64?
  let searchWords ← f.required "string_sentinel_search_words" (nat? 64)
  let extraBranches ← f.required "extra_branches" (list? (nat? 32))
  some { maxEntrypoints, lookahead, threshold, searchWords, extraBranches }

/-- The options a document holds. -/
def ofDocument (text : String) : Except Fault Options :=
  match (Json.parse? text).bind ofJson? with
  | some options => .ok options
  | none => .error .document

end EventScript.Recovery.Options
