/-
How much words look like code. Code and data share one run of words, so
recovery has to guess where a table ends. The guess decodes a few instructions
ahead and scores what it finds: a header counts one, an operand that is no
plain immediate counts one more, and the first word that is no header costs
one for each instruction that was still to come.

The score is kept in one signed 64-bit number, and so is that cost. Both wrap.
-/
import EventScript.Image
import EventScript.Machine.Mode
import EventScript.Script

namespace EventScript.Likelihood

/-- Whether a header decodes at `address`, which is that of a slot of the image
other than the first. -/
def isValidOp (image : Image) (address : Nat) : Bool :=
  4 ≤ address && (image.headerAt? address).isSome

/-- Adds to `score` how many of the next `count` operands from slot `cursor` on
are no plain immediates, and goes to the slot after them. The image may end first. -/
def scoreOperands (image : Image) : (count cursor : Nat) → (score : Int64) → Int64 × Nat
  | 0, cursor, score => (score, cursor)
  | count + 1, cursor, score =>
    match image[cursor]? with
    | none => (score, cursor)
    | some word =>
      let mode := Mode.ofWord word
      scoreOperands image count (cursor + mode.width word)
        (if mode = .immediate then score else score + 1)

/-- Adds to `score` the score of the next `lookahead` instructions from slot `cursor` on. -/
def certaintyFrom (image : Image) : (lookahead cursor : Nat) → (score : Int64) → Int64
  | 0, _, score => score
  | lookahead + 1, cursor, score =>
    match image[cursor]?.bind Header.decode with
    | none => score - Int64.ofNat (lookahead + 1)
    | some header =>
      let (score, next) := scoreOperands image header.operandCount (cursor + 1) (score + 1)
      certaintyFrom image lookahead next score

/-- The score of the next `lookahead` instructions at an address. -/
def certainty (image : Image) (address lookahead : Nat) : Int :=
  (certaintyFrom image lookahead (address / 4) 0).toInt

/-- Whether the words at an address are probably code. What was decoded as an
instruction before is code whatever its score. -/
def isProbablyOp (script : Script) (image : Image) (address lookahead : Nat)
    (threshold : Int) : Bool :=
  if address % 4 ≠ 0 ∨ address < 4 ∨ image.size ≤ address / 4 then false
  else match script.entryAt? address with
    | some (.instruction _) => true
    | _ => threshold ≤ certainty image address lookahead

/-- The first terminator in at most `room` words from slot `cursor` on. The
search ends with the image and at the first slot that is claimed. -/
def terminatorFrom (script : Script) (image : Image) : (room cursor : Nat) → Option Nat
  | 0, _ => none
  | room + 1, cursor =>
    match image[cursor]?, script.entries[cursor]? with
    | some word, some .unset =>
      if Word.low word = sentinel then some (4 * cursor)
      else if Word.high word = sentinel then some (4 * cursor + 2)
      else terminatorFrom script image room (cursor + 1)
    | _, _ => none

/-- The address of the first terminator in the words at an address. -/
def findTerminator (script : Script) (image : Image) (address room : Nat) : Option Nat :=
  terminatorFrom script image room (address / 4)

end EventScript.Likelihood
