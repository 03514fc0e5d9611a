/-
The instruction set. Every opcode has a number, a mnemonic, an optional
parameter packed into the header word, and a fixed list of operands. `call`
is the one variadic instruction: its operand count stands in the header and
is checked against the call catalogue instead.
-/
import EventScript.Text.Caseless

namespace EventScript

/-- The opcodes, in numeric order. -/
inductive Opcode where
  | yield | rewind | wait | waitCmp | waitCmp0 | rewind5 | rewind6 | rewind7 | mov | swapBroken
  | memcpy | rewind11 | mov0 | rewind13 | rewind14 | rewind15 | and | or | xor | andOr | not
  | shl | shr | add | sub | subRev | incr | decr | neg | abs | mul | div | divRev | mod | modRev
  | mul12 | div12 | div12Rev | mod43 | modRev44 | sqrt | rand | sin12 | cos12 | atan212 | call
  | jmp | jmpCmp | jmpCmp0 | whileLoop | jmpTable | gosub | ret | gosubTable | deallocate
  | deallocate82 | deallocateOther | fork | forkReenter | consume | debug96 | debug97 | debug98
  | depth
  deriving DecidableEq, Repr

namespace Opcode

/-- What the catalogue says about one opcode. -/
structure Info where
  /-- The low byte of the header word. -/
  code : UInt8
  /-- The name a listing shows; several opcodes may share one. -/
  mnemonic : String
  /-- The name of the parameter in the upper half of the header word. -/
  parameter : Option String
  /-- The operands' names, in encoding order. -/
  operands : List String
  /-- The name documents use; no two opcodes share one. -/
  id : String
  deriving DecidableEq, Repr

/-- Every opcode, in numeric order. -/
def all : List Opcode := [
  .yield, .rewind, .wait, .waitCmp, .waitCmp0, .rewind5, .rewind6, .rewind7, .mov, .swapBroken,
  .memcpy, .rewind11, .mov0, .rewind13, .rewind14, .rewind15, .and, .or, .xor, .andOr, .not,
  .shl, .shr, .add, .sub, .subRev, .incr, .decr, .neg, .abs, .mul, .div, .divRev, .mod, .modRev,
  .mul12, .div12, .div12Rev, .mod43, .modRev44, .sqrt, .rand, .sin12, .cos12, .atan212, .call,
  .jmp, .jmpCmp, .jmpCmp0, .whileLoop, .jmpTable, .gosub, .ret, .gosubTable, .deallocate,
  .deallocate82, .deallocateOther, .fork, .forkReenter, .consume, .debug96, .debug97, .debug98,
  .depth]

/-- The catalogue of the instruction set. -/
def info : Opcode → Info
  | .yield => ⟨0, "yield", none, [], "yield"⟩
  | .rewind => ⟨1, "rewind", none, [], "rewind"⟩
  | .wait => ⟨2, "wait", none, ["frames"], "wait"⟩
  | .waitCmp => ⟨3, "wait_cmp", some "operator", ["left", "right"], "wait_cmp"⟩
  | .waitCmp0 => ⟨4, "wait_cmp", some "operator", ["right"], "wait_cmp0"⟩
  | .rewind5 => ⟨5, "rewind", none, [], "rewind5"⟩
  | .rewind6 => ⟨6, "rewind", none, [], "rewind6"⟩
  | .rewind7 => ⟨7, "rewind", none, [], "rewind7"⟩
  | .mov => ⟨8, "mov", none, ["source", "dest"], "mov"⟩
  | .swapBroken => ⟨9, "swap_broken", none, ["sourceDest", "dest"], "swap_broken"⟩
  | .memcpy => ⟨10, "memcpy", none, ["size", "src", "dest"], "memcpy"⟩
  | .rewind11 => ⟨11, "rewind", none, [], "rewind11"⟩
  | .mov0 => ⟨12, "mov", none, ["dest"], "mov0"⟩
  | .rewind13 => ⟨13, "rewind", none, [], "rewind13"⟩
  | .rewind14 => ⟨14, "rewind", none, [], "rewind14"⟩
  | .rewind15 => ⟨15, "rewind", none, [], "rewind15"⟩
  | .and => ⟨16, "and", none, ["right", "left"], "and"⟩
  | .or => ⟨17, "or", none, ["right", "left"], "or"⟩
  | .xor => ⟨18, "xor", none, ["right", "left"], "xor"⟩
  | .andOr => ⟨19, "andor", none, ["right", "left"], "and_or"⟩
  | .not => ⟨20, "not", none, ["right", "left"], "not"⟩
  | .shl => ⟨21, "shl", none, ["right", "left"], "shl"⟩
  | .shr => ⟨22, "shr", none, ["right", "left"], "shr"⟩
  | .add => ⟨24, "add", none, ["amount", "operand"], "add"⟩
  | .sub => ⟨25, "sub", none, ["amount", "operand"], "sub"⟩
  | .subRev => ⟨26, "sub_rev", none, ["amount", "operand/dest"], "sub_rev"⟩
  | .incr => ⟨27, "incr", none, ["operand"], "incr"⟩
  | .decr => ⟨28, "decr", none, ["operand"], "decr"⟩
  | .neg => ⟨29, "neg", none, ["operand"], "neg"⟩
  | .abs => ⟨30, "abs", none, ["operand"], "abs"⟩
  | .mul => ⟨32, "mul", none, ["amount", "operand"], "mul"⟩
  | .div => ⟨33, "div", none, ["amount", "operand"], "div"⟩
  | .divRev => ⟨34, "div_rev", none, ["amount", "operand/dest"], "div_rev"⟩
  | .mod => ⟨35, "mod", none, ["amount", "operand"], "mod"⟩
  | .modRev => ⟨36, "mod_rev", none, ["amount", "operand/dest"], "mod_rev"⟩
  | .mul12 => ⟨40, "mul_12", none, ["amount", "operand"], "mul12"⟩
  | .div12 => ⟨41, "div_12", none, ["amount", "operand"], "div12"⟩
  | .div12Rev => ⟨42, "div_12_rev", none, ["amount", "operand"], "div12_rev"⟩
  | .mod43 => ⟨43, "mod", none, ["amount", "operand"], "mod43"⟩
  | .modRev44 => ⟨44, "mod_rev", none, ["amount", "operand/dest"], "mod_rev44"⟩
  | .sqrt => ⟨48, "sqrt", none, ["value", "dest"], "sqrt"⟩
  | .rand => ⟨49, "rand", none, ["bound", "dest"], "rand"⟩
  | .sin12 => ⟨50, "sin_12", none, ["angle", "dest"], "sin12"⟩
  | .cos12 => ⟨51, "cos_12", none, ["angle", "dest"], "cos12"⟩
  | .atan212 => ⟨52, "atan2_12", none, ["y", "x", "dest"], "atan212"⟩
  | .call => ⟨56, "call", some "index", [], "call"⟩
  | .jmp => ⟨64, "jmp", none, ["addr"], "jmp"⟩
  | .jmpCmp => ⟨65, "jmp_cmp", some "operator", ["left", "right", "addr"], "jmp_cmp"⟩
  | .jmpCmp0 => ⟨66, "jmp_cmp", some "operator", ["right", "addr"], "jmp_cmp0"⟩
  | .whileLoop => ⟨67, "while", none, ["counter", "addr"], "while"⟩
  | .jmpTable => ⟨68, "jmp_table", none, ["index", "table"], "jmp_table"⟩
  | .gosub => ⟨72, "gosub", none, ["addr"], "gosub"⟩
  | .ret => ⟨73, "return", none, [], "return"⟩
  | .gosubTable => ⟨74, "gosub_table", none, ["index", "table"], "gosub_table"⟩
  | .deallocate => ⟨80, "deallocate", none, [], "deallocate"⟩
  | .deallocate82 => ⟨82, "deallocate", none, [], "deallocate82"⟩
  | .deallocateOther => ⟨83, "deallocate_other", none, ["index"], "deallocate_other"⟩
  | .fork => ⟨86, "fork", none, ["index", "addr", "p2"], "fork"⟩
  | .forkReenter => ⟨87, "fork_reenter", none, ["index", "entrypoint", "p2"], "fork_reenter"⟩
  | .consume => ⟨88, "consume", none, [], "consume"⟩
  | .debug96 => ⟨96, "debug96", some "?", ["?", "?"], "debug96"⟩
  | .debug97 => ⟨97, "debug97", none, [], "debug97"⟩
  | .debug98 => ⟨98, "debug98", none, ["?"], "debug98"⟩
  | .depth => ⟨99, "depth", none, ["dest"], "depth"⟩

/-- The low byte of the header word. -/
def code (op : Opcode) : UInt8 := op.info.code

/-- The name a listing shows. -/
def mnemonic (op : Opcode) : String := op.info.mnemonic

/-- The name of the header parameter, where the opcode has one. -/
def parameter (op : Opcode) : Option String := op.info.parameter

/-- The operands' names, in encoding order. -/
def operands (op : Opcode) : List String := op.info.operands

/-- The name documents use. -/
def id (op : Opcode) : String := op.info.id

/-- The opcode with a number. -/
def ofCode? (code : UInt8) : Option Opcode := all.find? (·.code == code)

/-- The lowest opcode with a mnemonic, in either case. -/
def ofMnemonic? (name : String) : Option Opcode := all.find? (Text.sameLetters ·.mnemonic name)

/-- The opcode a document names. -/
def ofId? (name : String) : Option Opcode := all.find? (·.id == name)

/-- The names a listing comments the operands with. The forms that compare
with, or move, an implicit zero name that zero too. -/
def commentOperands : Opcode → List String
  | .waitCmp0 => ["left", "right"]
  | .mov0 => ["source", "dest"]
  | .jmpCmp0 => ["left", "right", "addr"]
  | op => op.operands

/-- The operand count, fixed for every opcode but `call`. -/
def arity : Opcode → Option Nat
  | .call => none
  | op => some op.operands.length

/-- Whether execution never falls through to the next instruction. -/
def isTerminal : Opcode → Bool
  | .rewind | .ret | .deallocate | .deallocate82 | .consume => true
  | _ => false

/-- Whether the header parameter is a comparison. -/
def compares : Opcode → Bool
  | .waitCmp | .waitCmp0 | .jmpCmp | .jmpCmp0 => true
  | _ => false

end Opcode

/-- The symbol of a comparison a header parameter selects. -/
def comparison? (value : UInt16) : Option String :=
  ["<=", "<", "==", "!=", ">", ">=", "&", "!&"][value.toNat]?

end EventScript
