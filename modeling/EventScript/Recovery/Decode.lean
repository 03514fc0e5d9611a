/-
Reading one instruction. The operands are read behind the header without
touching the model; only when all of them are sound does the instruction claim
its slots. An inline pointer that leads outside the image is replaced by a
zero immediate of the same width.
-/
import EventScript.Recovery.Session

namespace EventScript.Recovery

/-- Reads the operand at `cursor` of the instruction whose header stands at
`header`, and what is wrong with it although it can be kept. -/
def readOperand (image : Image) (entries : Array Entry) (header cursor : Nat) :
    Except Problem (Operand × Option Problem) :=
  let slot := cursor / 4
  match image[slot]? with
  | none => .error .truncatedInstruction
  | some first =>
    let mode := Mode.ofWord first
    let width := mode.width first
    if !mode.isSupported then .error (.unsupportedMode mode.tag)
    else if image.size < slot + width then .error .truncatedInstruction
    else if (entries.extract slot (slot + width)).any (!·.isUnset) then
      .error .overlappingCode
    else
      let rawWords := (image.extract slot (slot + width)).toList
      let resolved := mode.resolve header rawWords
      let astray := resolved.filter fun target =>
        mode.isInline && (target < 0 || (image.byteLength : Int) ≤ target)
      match astray with
      | some target => .ok (.zeroed cursor rawWords, some (.pointerOutOfRange target))
      | none =>
        .ok ({ address := cursor, mode, rawWords, resolved := resolved.map Int.toNat,
               label := none }, none)

/-- Reads `count` operands from `cursor` on. The diagnostics of the operands
before a faulty one stand. -/
def readOperands (image : Image) (entries : Array Entry) (header : Nat) :
    (count cursor : Nat) → List Diagnostic × Except Problem (List Operand)
  | 0, _ => ([], .ok [])
  | count + 1, cursor =>
    match readOperand image entries header cursor with
    | .error problem => ([], .error problem)
    | .ok (operand, problem) =>
      let (diagnostics, operands) :=
        readOperands image entries header count (cursor + 4 * operand.width)
      ((problem.map (Diagnostic.mk cursor)).toList ++ diagnostics,
        operands.map (operand :: ·))

/-- Reads the instruction at `cursor`, or records why there is none. -/
def readInstruction (setting : Setting) (cursor : Nat) (s : Session) :
    Except Halt (Option Instruction × Session) :=
  let word := setting.image.wordAt cursor
  let s := { s with stats.headersDecoded := s.stats.headersDecoded + 1 }
  match Header.decode word with
  | none => .ok (none, s.diagnose cursor (.invalidHeader word))
  | some header =>
    if header.opcode = .call ∧ (setting.catalogue.method? header.parameter).isNone then
      .error (s.halt (.unknownCall header.parameter cursor))
    else
      let (diagnostics, operands) :=
        readOperands setting.image s.script.entries cursor header.operandCount (cursor + 4)
      let s := { s with script.diagnostics := s.script.diagnostics ++ diagnostics }
      match operands with
      | .error problem => .ok (none, s.diagnose cursor problem)
      | .ok operands =>
        .ok (some ⟨cursor, header.opcode, header.parameter, operands⟩, s)

/-- Labels the address an inline operand points at. -/
def labelOperand (labels : LabelTable) (operand : Operand) : Operand × LabelTable :=
  if operand.mode.isInline then
    match operand.resolved with
    | some target =>
      let (name, labels) := labels.add target
      ({ operand with label := some name }, labels)
    | none => (operand, labels)
  else (operand, labels)

/-- Labels the addresses that inline operands point at, in order. -/
def labelOperands (labels : LabelTable) : List Operand → List Operand × LabelTable
  | [] => ([], labels)
  | operand :: rest =>
    let (operand, labels) := labelOperand labels operand
    let (rest, labels) := labelOperands labels rest
    (operand :: rest, labels)

/-- Claims the slots of operands, the first of which has number `index`. -/
def claimOperands (script : Script) (header : Nat) : (index : Nat) → List Operand → Script
  | _, [] => script
  | index, operand :: rest =>
    claimOperands (script.fill operand.address (.operandSlot header index) operand.width)
      header (index + 1) rest

/-- Labels the operands of an instruction and claims its slots. -/
def placeInstruction (script : Script) (instruction : Instruction) : Instruction × Script :=
  let (operands, labels) := labelOperands script.labels instruction.operands
  let placed := { instruction with operands }
  let script := claimOperands { script with labels } instruction.address 0 operands
  (placed, script.setEntry instruction.address (.instruction placed))

end EventScript.Recovery
