/-
Laying out texts. A text runs until its terminator, until the next text of the
same table, or until a slot that is taken. A text that would end in the middle
of a word that holds more is left as data. In the end every slot that nothing
has claimed is data.
-/
import EventScript.Recovery.Table

namespace EventScript.Recovery

/-- Collects codes from half-word `half` of the text at `address` on, at most
`room` of them; the flag says whether a terminator ends them. -/
def collectCodes (image : Image) (script : Script) (address : Nat) :
    (room half : Nat) → List UInt16 × Bool
  | 0, _ => ([], false)
  | room + 1, half =>
    let slot := address + 4 * (half / 2)
    if image.size ≤ slot / 4 then ([], false)
    else if half % 2 = 0 && !script.isUnset slot then ([], false)
    else
      let word := image.wordAt slot
      let code := if half % 2 = 0 then word.low else word.high
      if code = sentinel then ([], true)
      else
        let (codes, terminated) := collectCodes image script address room (half + 1)
        (code :: codes, terminated)

/-- Lays out the text at an address, of at most `bound` half-words. -/
def layText (image : Image) (script : Script) (address : Nat) (bound : Option Nat) : Script :=
  if script.isUnset address then
    -- Without a bound of its own, a text is bounded by the image.
    let room := bound.getD (2 * slotsFrom image address)
    let (codes, terminated) := collectCodes image script address room 0
    let text : EncodedString := ⟨address, codes, terminated⟩
    if text.storedLength = 0 then script
    else if text.storedLength % 2 = 1 &&
        (image.wordAt (address + 4 * (text.width - 1))).high ≠ 0 then
      script.diagnose address .stringSkipped
    else
      (script.setEntry address (.encodedString text)).fill (address + 4)
        (.continuation address) (text.width - 1)
  else script

/-- Lays out the texts at ascending addresses, each bounded by the next. -/
def layTexts (image : Image) (script : Script) : List Nat → Script
  | [] => script
  | [address] => layText image script address none
  | address :: next :: rest =>
    layTexts image (layText image script address (some ((next - address) / 2))) (next :: rest)

/-- Answers a request for texts. Of a table only the entries that were kept count. -/
def answer (image : Image) (script : Script) : TextRequest → Script
  | .single address => layText image script address none
  | .table head destinations =>
    let count := match script.entryAt? head with
      | some (.pointerTable _ labels) => labels.length
      | _ => 0
    layTexts image script (ascending (destinations.take count))

/-- Makes a raw word of every slot that nothing has claimed. -/
def fillData (image : Image) (script : Script) : Script :=
  { script with
    entries := script.entries.mapIdx fun n entry =>
      if entry.isUnset then .rawData (4 * n) (image.wordAt (4 * n)) else entry }

end EventScript.Recovery
