/-
Recovery of a script from its image. An image mixes code, pointer tables,
texts and plain data without saying where each begins. Recovery starts at the
entry points named at the head of the image, follows every control transfer
that is known without running the script, and guesses how far tables reach.
The guesses are settled when exploration is: tables that met anything are cut,
texts are laid out, and the rest is data.
-/
import EventScript.Recovery.Overrun
import EventScript.Recovery.Texts
import EventScript.Recovery.Worklist

namespace EventScript.Recovery

/-- Classifies the leading slots that name entry points, at most `room` from
slot `n` on. -/
def findEntrypoints (image : Image) : (room n : Nat) → Script → Script
  | 0, _, script => script
  | room + 1, n, script =>
    match image[n]? with
    | none => script
    | some word =>
      let destination := word.toNat
      if Likelihood.isValidOp image destination then
        let (name, labels) := script.labels.addUnique destination
        let script := { script with labels, entrypoints := script.entrypoints ++ [destination] }
        findEntrypoints image room (n + 1) (script.setEntry (4 * n) (.entrypoint (4 * n) name))
      else script

/-- Explores the branches at some addresses, the first of them first, and then
settles the tables. -/
def exploreBranches (setting : Setting) (addresses : List Nat) (s : Session) :
    Except Halt Session :=
  match drain setting (s.pushAll (addresses.reverse.map Probe.branch)) with
  | .error halt => .error halt
  | .ok s => .ok { s with script := s.script.correctOverruns }

/-- Explores the image. -/
def explore (setting : Setting) (stats : Stats) : Except Halt Session :=
  let script := findEntrypoints setting.image setting.options.maxEntrypoints 0
    (.blank setting.image.size)
  match exploreBranches setting script.entrypoints { script, stats } with
  | .error halt => .error halt
  | .ok s =>
    if setting.options.extraBranches.isEmpty then .ok s
    else exploreBranches setting setting.options.extraBranches s

/-- Lays out the texts that were asked for, and takes the rest for data. -/
def settle (image : Image) (s : Session) : Script :=
  fillData image (s.requests.foldl (answer image) s.script)

/-- Recovers the script of an image, counting the work on top of `stats`. -/
def recover (setting : Setting) (stats : Stats) : Except Halt (Script × Stats) :=
  match explore setting stats with
  | .error halt => .error halt
  | .ok s => .ok (settle setting.image s, s.stats)

end EventScript.Recovery

namespace EventScript

open Recovery

/-- Recovers the script of an image. -/
def disassemble (catalogue : Catalogue) (options : Options) (image : Image) :
    Except Fault Script :=
  match recover ⟨image, catalogue, options⟩ {} with
  | .error halt => .error halt.fault
  | .ok (script, _) => .ok script

/-- Recovers the script stored as the given bytes. -/
def disassembleBytes (catalogue : Catalogue) (options : Options) (bytes : List UInt8) :
    Except Fault Script := do
  disassemble catalogue options (← Image.ofBytes bytes)

end EventScript
