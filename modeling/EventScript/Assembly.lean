/-
Assembly: a script back into words. Assembly goes from entry to entry by their
widths, resolves labels and packs texts, and does nothing else; that it gives
back the image a script was recovered from rests on the recovery alone.
-/
import EventScript.Image
import EventScript.Machine.Header
import EventScript.Script

namespace EventScript

namespace Script

/-- The address a label stands for. -/
def labelAddress (script : Script) (name : String) : Except Fault Nat :=
  match script.labels.addressOf? name with
  | some address => .ok address
  | none => .error (.missingLabel name)

/-- The words of a table: each label's distance from the table, in words. -/
def tableWords (script : Script) (table : Nat) (labels : List String) : Except Fault (List Word) :=
  labels.mapM fun name =>
    (script.labelAddress name).map fun address =>
      Word.ofSigned (Int.tdiv ((address : Int) - table) 4)

end Script

/-- Codes two a word, the low half first; a lone last one leaves the high half zero. -/
def packCodes : List UInt16 → List Word
  | [] => []
  | [low] => [Word.ofHalves low 0]
  | low :: high :: rest => Word.ofHalves low high :: packCodes rest

/-- The words of an operand; a mode without a decoding rule has no encoding either. -/
def Operand.words (operand : Operand) : Except Fault (List Word) :=
  if operand.mode.isSupported then .ok operand.rawWords
  else .error (.unsupportedMode operand.mode.tag)

/-- The words of operands, one behind the other. -/
def operandWords (operands : List Operand) : Except Fault (List Word) :=
  (operands.mapM Operand.words).map List.flatten

/-- The words of an instruction: header, then operands. -/
def Instruction.words (instruction : Instruction) : Except Fault (List Word) :=
  (operandWords instruction.operands).map fun words =>
    Header.pack instruction.opcode.code instruction.operands.length instruction.parameter :: words

namespace Script

/-- The words of the entry at an address. -/
def entryWords (script : Script) (address : Nat) : Entry → Except Fault (List Word)
  | .unset => .error (.unsetEntry address)
  | .entrypoint _ destination =>
    (script.labelAddress destination).map fun target => [UInt32.ofNat target]
  | .instruction decoded => decoded.words
  | .pointerTable _ labels => script.tableWords address labels
  | .encodedString text => .ok (packCodes text.stored)
  | .rawData _ value => .ok [value]
  | .operandSlot .. | .continuation _ => .error (.orphanedSlot address)

/-- The fault of an entry without any words. -/
def emptyEntry (address : Nat) : Entry → Fault
  | .pointerTable .. => .emptyPointerTable address
  | _ => .emptyString address

/-- The width of the entry at slot `n`, if assembly can go on behind it. -/
def entryWidth (script : Script) (n : Nat) (entry : Entry) : Except Fault Nat :=
  match entry.width? with
  | none => .error (.orphanedSlot (4 * n))
  | some width =>
    if script.size < n + width then .error (.entryOverrun (4 * n) width)
    else if width = 0 then .error (emptyEntry (4 * n) entry)
    else .ok width

theorem entryWidth_pos {script : Script} {n width : Nat} {entry : Entry}
    (h : script.entryWidth n entry = .ok width) : 0 < width := by
  rw [entryWidth] at h
  split at h
  · cases h
  · split at h
    · cases h
    · split at h
      · cases h
      · cases h
        omega

/-- The words of a script from slot `n` on. -/
def assembleFrom (script : Script) (n : Nat) : Except Fault (List Word) :=
  if inside : n < script.entries.size then
    let entry := script.entries[n]
    match _known : script.entryWidth n entry with
    | .error fault => .error fault
    | .ok width =>
      match script.entryWords (4 * n) entry with
      | .error fault => .error fault
      | .ok words => (script.assembleFrom (n + width)).map (words ++ ·)
  else .ok []
termination_by script.entries.size - n
decreasing_by
  have := entryWidth_pos _known
  omega

theorem assembleFrom_head {script : Script} {n : Nat} {entry : Entry}
    (here : script.entries[n]? = some entry) :
    script.assembleFrom n = (script.entryWidth n entry).bind fun width =>
      (script.entryWords (4 * n) entry).bind fun words =>
        (script.assembleFrom (n + width)).map (words ++ ·) := by
  obtain ⟨inside, rfl⟩ := Array.getElem?_eq_some_iff.mp here
  rw [assembleFrom, dif_pos inside]
  simp only
  split
  · rename_i fault known
    rw [known]
    rfl
  · rename_i width known
    rw [known]
    cases script.entryWords (4 * n) script.entries[n] <;> rfl

theorem assembleFrom_end {script : Script} {n : Nat} (out : script.entries.size ≤ n) :
    script.assembleFrom n = .ok [] := by
  rw [assembleFrom, dif_neg (Nat.not_lt.mpr out)]

/-- The image of a script. -/
def assemble (script : Script) : Except Fault Image :=
  (script.assembleFrom 0).map List.toArray

/-- The bytes of a script's image. -/
def assembleBytes (script : Script) : Except Fault (List UInt8) :=
  script.assemble.map Image.toBytes

end Script
end EventScript
