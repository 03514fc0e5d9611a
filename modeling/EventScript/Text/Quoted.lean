/-
A character as a message shows it: between single quotes, escaped where the
bare character would be invisible or misread.
-/
import EventScript.Text.Numeral
import EventScript.Text.Unprintable

namespace EventScript.Text

/-- The character itself, or the escape that stands for it. -/
def escapeChar (c : Char) : String :=
  if c = '\x00' then "\\0"
  else if c = '\t' then "\\t"
  else if c = '\n' then "\\n"
  else if c = '\r' then "\\r"
  else if c = '\\' then "\\\\"
  else if c = '\'' then "\\'"
  else if isUnprintable c then "\\u\x7b" ++ hex c.toNat ++ "\x7d"
  else String.ofList [c]

/-- A character between single quotes. -/
def quoteChar (c : Char) : String := "'" ++ escapeChar c ++ "'"

end EventScript.Text
