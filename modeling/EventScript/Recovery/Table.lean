/-
Pointer tables. A table has no length of its own: it ends where an entry would
have to lie behind a destination already named, where a slot is taken or the
words look like code, or where an entry leads nowhere. Destinations of branch
tables are explored in turn; those of data tables may be texts.
-/
import EventScript.Recovery.Session

namespace EventScript.Recovery

/-- The destinations named so far bound where the table can reach: forward
entries have to stand before the earliest, others behind the latest. -/
structure Window where
  earliest : Nat
  latest : Nat
  deriving DecidableEq, Repr

namespace Window

/-- Before any destination is known. -/
def start (image : Image) : Window := ⟨image.byteLength, 0⟩

/-- Whether the entry at an address, with the given word, may belong to the table. -/
def admits (window : Window) (entry : Nat) (word : Word) : Bool :=
  if 0 < word.signed then entry < window.earliest else window.latest < entry

/-- Takes note of a destination. -/
def widen (window : Window) (destination : Nat) : Window :=
  ⟨min window.earliest destination, max window.latest destination⟩

end Window

/-- How many slots there are from an address to the end of the image. -/
def slotsFrom (image : Image) (address : Nat) : Nat := image.size - address / 4

/-- The destination of the entry at `entry` of the branch table at `table`, if
that slot passes for one. -/
def branchEntry? (setting : Setting) (script : Script) (kind : TableKind) (table entry : Nat)
    (window : Window) : Option Nat :=
  let image := setting.image
  let word := image.wordAt entry
  let destination := tableDestination table word
  if script.isUnset entry && (entry == table || !script.labels.contains entry) &&
      window.admits entry word &&
      (4 : Int) ≤ destination && destination + 4 ≤ image.byteLength then
    let destination := destination.toNat
    let valid := Likelihood.isValidOp image destination
    let accepted := match kind with
      | .branches => valid
      | .tables => !setting.isProbablyOp script destination
    if (valid || !setting.isProbablyOp script entry) && accepted then some destination
    else none
  else none

/-- Scans the entries of a branch table: destinations with their labels. -/
def scanBranches (setting : Setting) (kind : TableKind) (role : Role) (table : Nat) :
    (room entry : Nat) → Window → Script → List (Nat × String) × Script
  | 0, _, _, script => ([], script)
  | room + 1, entry, window, script =>
    match branchEntry? setting script kind table entry window with
    | none => ([], script)
    | some destination =>
      let script := match kind with
        | .branches => script.record role destination
        | .tables => script
      let (name, labels) := script.labels.add destination
      let (rest, script) :=
        scanBranches setting kind role table room (entry + 4) (window.widen destination)
          { script with labels }
      ((destination, name) :: rest, script)

/-- The addresses of a list, ascending and each once. -/
def ascending (addresses : List Nat) : List Nat := (Std.ExtTreeSet.ofList addresses).toList

/-- Scans the branch table at an address, unless it was before. Its
destinations are queued, the highest on top. -/
def probeTable (setting : Setting) (address : Nat) (kind : TableKind) (role : Role)
    (s : Session) : Except Halt Session :=
  if s.script.tableAddresses.contains address then .ok s
  else
    let s := { s with
      script.tableAddresses := s.script.tableAddresses.insert address
      stats.tablesProbed := s.stats.tablesProbed + 1 }
    let (entries, script) :=
      scanBranches setting kind role address (slotsFrom setting.image address) address
        (.start setting.image) s.script
    if entries.isEmpty then .error (s.halt (.emptyTable address))
    else
      let script := script.setEntry address (.pointerTable address (entries.map (·.2)))
      let probes := (ascending (entries.map (·.1))).map fun destination =>
        match kind with
        | .branches => Probe.branch destination
        | .tables => Probe.table destination role
      .ok ({ s with script }.pushAll probes)

/-- The destination of the entry at `entry` of the data table at `table`, if
that slot passes for one. -/
def dataEntry? (setting : Setting) (script : Script) (texts : Bool) (table entry : Nat)
    (window : Window) : Option Nat :=
  let image := setting.image
  let word := image.wordAt entry
  let destination := tableDestination table word
  if script.isUnset entry && window.admits entry word &&
      (0 : Int) ≤ destination && destination + 4 < image.byteLength then
    let destination := destination.toNat
    if !setting.isProbablyOp script entry ||
        (texts && (Likelihood.findTerminator script image destination
          setting.options.searchWords).isSome) then
      some destination
    else none
  else none

/-- Scans the entries of a data table: its destinations. -/
def scanData (setting : Setting) (script : Script) (texts : Bool) (table : Nat) :
    (room entry : Nat) → Window → List Nat
  | 0, _, _ => []
  | room + 1, entry, window =>
    match dataEntry? setting script texts table entry window with
    | none => []
    | some destination =>
      destination :: scanData setting script texts table room (entry + 4)
        (window.widen destination)

/-- Scans the data table an operand points at, unless its slot is taken. -/
def probeData (setting : Setting) (address : Nat) (texts : Bool) (s : Session) : Session :=
  if s.script.isUnset address then
    let destinations := scanData setting s.script texts address
      (slotsFrom setting.image address) address (.start setting.image)
    if destinations.isEmpty then s.diagnose address .emptyDataTable
    else
      let (names, labels) := s.script.labels.addAll destinations
      let script := { s.script with labels }.setEntry address (.pointerTable address names)
      let s := { s with script }
      if texts then s.request (.table address destinations) else s
  else s

end EventScript.Recovery
