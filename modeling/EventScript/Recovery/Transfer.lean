/-
What an instruction leads to. Operands that go through a table have the table
scanned, text operands ask for their text, and control transfers queue their
targets. A target only known at run time is recorded and not followed.
-/
import EventScript.Recovery.Table

namespace EventScript.Recovery

/-- Follows an operand into the image. A call parameter says what stands there. -/
def followOperand (setting : Setting) (opcode : Opcode) (operand : Operand)
    (parameter : Option Parameter) (s : Session) : Except Halt Session :=
  match operand.resolved with
  | none => .ok s
  | some target =>
    let texts := parameter.any Parameter.isString
    if !operand.mode.isInline then .ok s
    else if operand.mode.isTable && opcode ≠ .jmpTable && opcode ≠ .gosubTable then
      match parameter.bind fun p => Role.ofBranch? p.branch with
      | some role => probeTable setting target .branches role s
      | none => .ok (probeData setting target texts s)
    else if texts then .ok (s.request (.single target))
    else .ok s

/-- Follows operands into the image, each with the parameter of its position. -/
def followOperands (setting : Setting) (opcode : Opcode) :
    List Operand → List Parameter → Session → Except Halt Session
  | [], _, s => .ok s
  | operand :: rest, parameters, s =>
    match followOperand setting opcode operand parameters.head? s with
    | .error halt => .error halt
    | .ok s => followOperands setting opcode rest parameters.tail s

/-- Queues a target and, if code can stand there, records its role. -/
def transferTo (setting : Setting) (address target : Nat) (role : Option Role) (s : Session) :
    Session :=
  let (queued, s) := s.enqueue setting address target
  match role with
  | some role => if queued then { s with script := s.script.record role target } else s
  | none => s

/-- Transfers to an operand's target, if it is known. -/
def transferOperand (setting : Setting) (instruction : Instruction) (index : Nat)
    (role : Option Role) (s : Session) : Session :=
  match instruction.operands[index]?.bind Operand.resolved with
  | some target => transferTo setting instruction.address target role s
  | none => s.unknowable instruction.address instruction.opcode

/-- The role a branch parameter of a call gives to its target; a jump leaves no trace. -/
def callRole? : BranchKind → Option Role
  | .subroutine | .gosub => some .subroutine
  | .reentry => some .reentry
  | .none | .jump => none

/-- Transfers through the branch parameters of a call; tables were followed before. -/
def transferCall (setting : Setting) (address : Nat) :
    List Parameter → List Operand → Session → Session
  | parameter :: parameters, operand :: operands, s =>
    let s :=
      if parameter.branch = .none || operand.mode.isTable then s
      else match operand.resolved with
        | some target => transferTo setting address target (callRole? parameter.branch) s
        | none => s.unknowable address .call
    transferCall setting address parameters operands s
  | _, _, s => s

/-- Checks a call against its method and transfers through its branch parameters. -/
def transferMethod (setting : Setting) (instruction : Instruction) (method : Method)
    (s : Session) : Session :=
  let expected := method.parameters.length
  let actual := instruction.operands.length
  let s :=
    if expected = actual then s
    else s.diagnose instruction.address (.callArityMismatch expected actual)
  transferCall setting instruction.address method.parameters instruction.operands s

/-- Scans the table of a table jump; address zero means there is none. -/
def transferTable (setting : Setting) (instruction : Instruction) (role : Role) (s : Session) :
    Except Halt Session :=
  match instruction.operands[1]? with
  | none => .ok (s.unknowable instruction.address instruction.opcode)
  | some operand =>
    match operand.resolved with
    | none => .ok (s.unknowable instruction.address instruction.opcode)
    | some table =>
      if table = 0 then .ok s
      else probeTable setting table (if operand.mode.isTable then .tables else .branches) role s

/-- Queues where control goes after an instruction, and says whether decoding
goes on at `next`, the address behind it. -/
def transfer (setting : Setting) (instruction : Instruction) (next : Nat) (s : Session) :
    Except Halt (Flow × Session) :=
  let address := instruction.address
  match instruction.opcode with
  | .call =>
    match setting.catalogue.method? instruction.parameter with
    | some method => .ok (.goOn, transferMethod setting instruction method s)
    | none => .ok (.goOn, s)
  | .jmp =>
    match instruction.operands[0]?.bind Operand.resolved with
    | some target => .ok (.stop, (s.enqueue setting address target).2)
    | none => .ok (.goOn, s.unknowable address .jmp)
  | .jmpCmp | .jmpCmp0 =>
    match instruction.operands.getLast?.bind Operand.resolved with
    | some target =>
      -- The target is queued first, so the way straight on is explored first.
      let s := (s.enqueue setting address target).2
      .ok (.stop, (s.enqueue setting address next).2)
    | none => .ok (.stop, s.unknowable address instruction.opcode)
  | .jmpTable => (transferTable setting instruction .jumpDestination s).map (.stop, ·)
  | .gosubTable => (transferTable setting instruction .subroutine s).map (.goOn, ·)
  | .gosub => .ok (.goOn, transferOperand setting instruction 0 (some .subroutine) s)
  | .fork => .ok (.goOn, transferOperand setting instruction 1 (some .reentry) s)
  | .whileLoop => .ok (.goOn, transferOperand setting instruction 1 none s)
  | opcode => .ok (if opcode.isTerminal then .stop else .goOn, s)

end EventScript.Recovery
