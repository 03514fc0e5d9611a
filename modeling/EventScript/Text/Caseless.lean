/-
Comparison that ignores the case of ASCII letters. Every other character only
equals itself.
-/

namespace EventScript.Text

/-- The text with its ASCII capitals made small. -/
def lower (text : String) : String := String.ofList (text.toList.map Char.toLower)

/-- Equality up to the case of ASCII letters. -/
def sameLetters (a b : String) : Bool := lower a == lower b

theorem sameLetters_eq (a b : String) :
    sameLetters a b = (a.toList.map Char.toLower == b.toList.map Char.toLower) := by
  rw [sameLetters, lower, lower, Bool.eq_iff_iff, beq_iff_eq, beq_iff_eq, String.ofList_inj]

end EventScript.Text
