/-
Probing a branch: decoding instructions one behind the other until control
leaves, the image ends, or something is there already.
-/
import EventScript.Recovery.Decode
import EventScript.Recovery.Transfer

namespace EventScript.Recovery

/-- Places an instruction that was read, follows its operands and its transfer,
and says whether decoding goes on at `next`, the address behind it. -/
def takeInstruction (setting : Setting) (instruction : Instruction) (next : Nat)
    (s : Session) : Except Halt (Flow × Session) :=
  let (instruction, script) := placeInstruction s.script instruction
  let parameters :=
    ((setting.methodOf? instruction.opcode instruction.parameter).map Method.parameters).getD []
  match followOperands setting instruction.opcode instruction.operands parameters
      { s with script } with
  | .error halt => .error halt
  | .ok s => transfer setting instruction next s

/-- Decodes instructions from `cursor` on, on the branch that starts at `start`. -/
def decodeFrom (setting : Setting) (start cursor : Nat) (s : Session) : Except Halt Session :=
  if _ : cursor / 4 < setting.image.size then
    if cursor ≠ start ∧ s.script.branches.contains cursor then .ok s
    else match s.script.entryAt? cursor with
      | some (.instruction _) => .ok s
      | some .unset =>
        match readInstruction setting cursor s with
        | .error halt => .error halt
        | .ok (none, s) => .ok s
        | .ok (some instruction, s) =>
          let next := cursor + 4 * instruction.width
          match takeInstruction setting instruction next s with
          | .error halt => .error halt
          | .ok (.stop, s) => .ok s
          | .ok (.goOn, s) => decodeFrom setting start next s
      | _ => .ok (s.diagnose cursor .overlappingCode)
  else .ok s
termination_by 4 * setting.image.size - cursor
decreasing_by
  have : 0 < instruction.width := by simp only [Instruction.width]; omega
  omega

/-- Decodes the branch at an address, unless it was before. -/
def probeBranch (setting : Setting) (address : Nat) (s : Session) : Except Halt Session :=
  if s.script.branches.contains address then .ok s
  else decodeFrom setting address address { s with
    script.branches := s.script.branches.insert address
    stats.branchesProbed := s.stats.branchesProbed + 1 }

end EventScript.Recovery
