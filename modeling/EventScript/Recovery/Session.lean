/-
The state of a recovery. Recovery explores an image from its entry points,
driven by a worklist: what is still to be probed, the newest on top. Texts are
only laid out when all code is known, so requests for them are kept aside.
-/
import EventScript.Catalogue
import EventScript.Image
import EventScript.Likelihood
import EventScript.Script

namespace EventScript

namespace Recovery

/-- What steers the guesses of a recovery. -/
structure Options where
  /-- Leading slots that may name entry points. -/
  maxEntrypoints : Nat := 32
  /-- Instructions to decode when asked whether words are code. -/
  lookahead : Nat := 3
  /-- The score at which words pass for code. -/
  threshold : Int := 2
  /-- Words to search for a terminator before a table of texts is believed. -/
  searchWords : Nat := 300
  /-- Addresses to probe once the rest is explored. -/
  extraBranches : List Nat := []
  deriving DecidableEq, Repr

/-- Options that are slower to take data for code. -/
def Options.thorough : Options := { lookahead := 5, threshold := 3, searchWords := 1024 }

/-- Options with a shallower lookahead. -/
def Options.fast : Options := { lookahead := 2, threshold := 2, searchWords := 128 }

/-- Counters of the work done. -/
structure Stats where
  headersDecoded : Nat := 0
  branchesProbed : Nat := 0
  tablesProbed : Nat := 0
  deriving DecidableEq, Repr

/-- A fault that ends a recovery, with the counters as they stood. -/
structure Halt where
  fault : Fault
  stats : Stats
  deriving DecidableEq, Repr

/-- What the destinations of a branch table are to the script. -/
inductive Role where
  | jumpDestination
  | subroutine
  | reentry
  deriving DecidableEq, Repr

/-- The role a call parameter gives to its targets. -/
def Role.ofBranch? : BranchKind → Option Role
  | .none => none
  | .jump => some .jumpDestination
  | .subroutine | .gosub => some .subroutine
  | .reentry => some .reentry

/-- What the entries of a branch table point at. -/
inductive TableKind where
  | branches
  | tables
  deriving DecidableEq, Repr

/-- Work still to be done. -/
inductive Probe where
  | branch (address : Nat)
  | table (address : Nat) (role : Role)
  deriving DecidableEq, Repr

/-- Texts to lay out at the end. -/
inductive TextRequest where
  | single (address : Nat)
  /-- The texts that the data table at `head` points at, in table order. -/
  | table (head : Nat) (destinations : List Nat)
  deriving DecidableEq, Repr

/-- Whether decoding goes on behind an instruction. -/
inductive Flow where
  | goOn
  | stop
  deriving DecidableEq, Repr

/-- What stays fixed during a recovery. -/
structure Setting where
  image : Image
  catalogue : Catalogue
  options : Options

/-- What changes during a recovery. -/
structure Session where
  script : Script
  worklist : List Probe := []
  requests : List TextRequest := []
  stats : Stats := {}

namespace Setting

/-- Whether the words at an address are probably code. -/
def isProbablyOp (setting : Setting) (script : Script) (address : Nat) : Bool :=
  Likelihood.isProbablyOp script setting.image address setting.options.lookahead
    setting.options.threshold

/-- The method an instruction calls. -/
def methodOf? (setting : Setting) (opcode : Opcode) (parameter : UInt16) : Option Method :=
  if opcode = .call then setting.catalogue.method? parameter else none

end Setting

namespace Session

/-- Records a problem met at an address. -/
def diagnose (s : Session) (address : Nat) (problem : Problem) : Session :=
  { s with script := s.script.diagnose address problem }

/-- Puts a probe on top of the worklist. -/
def push (s : Session) (probe : Probe) : Session := { s with worklist := probe :: s.worklist }

/-- Puts probes on the worklist; the last one comes to lie on top. -/
def pushAll (s : Session) (probes : List Probe) : Session :=
  { s with worklist := probes.reverse ++ s.worklist }

/-- Keeps a request for texts. -/
def request (s : Session) (request : TextRequest) : Session :=
  { s with requests := s.requests ++ [request] }

/-- Stops here. -/
def halt (s : Session) (fault : Fault) : Halt := ⟨fault, s.stats⟩

/-- Queues a branch target, or records at `origin` that no code can stand there.
The answer says whether it was queued. -/
def enqueue (s : Session) (setting : Setting) (origin target : Nat) : Bool × Session :=
  if target % 4 = 0 ∧ 4 ≤ target ∧ target < setting.image.byteLength then
    (true, s.push (.branch target))
  else (false, s.diagnose origin (.invalidBranchTarget target))

/-- Records that a transfer depends on a value only known at run time. -/
def unknowable (s : Session) (address : Nat) (opcode : Opcode) : Session :=
  s.diagnose address (.unknowableOperand opcode.mnemonic)

end Session
end Recovery

/-- Records what the destination of a table is to the script. -/
def Script.record (script : Script) (role : Recovery.Role) (destination : Nat) : Script :=
  match role with
  | .jumpDestination =>
    { script with jumpTableDestinations := script.jumpTableDestinations.insert destination }
  | .subroutine => { script with subroutines := script.subroutines.insert destination }
  | .reentry => { script with reentryPoints := script.reentryPoints.insert destination }

end EventScript
