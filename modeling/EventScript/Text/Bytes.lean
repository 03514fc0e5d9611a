/-
Texts as the bytes of a file. A character takes one to four bytes; a byte that
takes part in no character is stray. Whoever needs a text refuses one with
stray bytes, and whoever only looks for some of its parts reads it by signs.
-/

namespace EventScript.Text

/-- The bytes of a text. -/
def toBytes (text : String) : List UInt8 := text.toUTF8.toList

/-- The text of bytes, if none of them is stray. -/
def ofBytes? (bytes : List UInt8) : Option String := String.fromUTF8? ⟨bytes.toArray⟩

/-- The character at the front of bytes. -/
def frontChar? (bytes : List UInt8) : Option Char :=
  ByteArray.utf8DecodeChar? ⟨(bytes.take 4).toArray⟩ 0

/-- Bytes one sign after the other: a character, or nothing for a stray byte. -/
def signs (bytes : List UInt8) : List (Option Char) :=
  match bytes with
  | [] => []
  | byte :: rest =>
    match frontChar? (byte :: rest) with
    | some c => some c :: signs (rest.drop (c.utf8Size - 1))
    | none => none :: signs rest
termination_by bytes.length
decreasing_by
  all_goals
    simp only [List.length_drop, List.length_cons]
    omega

end EventScript.Text
