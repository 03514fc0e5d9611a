/-
Tables that ran too far. A table was scanned before everything it may run into
was known. Once exploration has settled, it is cut at the first slot that
another entry owns or a label names; the entries cut off give their references
back. What remains is sealed: its later slots become continuations.
-/
import EventScript.Recovery.Session

namespace EventScript

namespace Script

/-- The heads of the pointer tables, ascending. -/
def tableHeads (script : Script) : List Nat :=
  script.heads.filterMap fun
    | (address, .pointerTable ..) => some address
    | _ => none

/-- Whether a slot behind the head of a table belongs to something else. -/
def claimedFrom (script : Script) (head slot : Nat) : Bool :=
  (match script.entryAt? slot with
    | none => true
    | some .unset | some (.rawData ..) => false
    | some (.continuation owner) => owner ≠ head
    | some _ => true) || script.labels.contains slot

/-- How many of the slots of a table, from its `n`th on and `room` at most, are
its own. -/
def ownSlots (script : Script) (head : Nat) : (room n : Nat) → Nat
  | 0, n => n
  | room + 1, n =>
    if script.claimedFrom head (head + 4 * n) then n else script.ownSlots head room (n + 1)

/-- Drops an address from the exploration sets once no label names it. -/
def forget (script : Script) (destination : Nat) : Script :=
  if script.labels.contains destination then script
  else { script with
    jumpTableDestinations := script.jumpTableDestinations.erase destination
    subroutines := script.subroutines.erase destination
    reentryPoints := script.reentryPoints.erase destination }

/-- Gives back the reference a table entry holds. -/
def releaseEntry (script : Script) (name : String) : Script :=
  let destination := script.labels.addressOf? name
  let script := { script with labels := (script.labels.release name).2 }
  match destination with
  | some destination => script.forget destination
  | none => script

/-- Frees the slots from the `n`th of a table on, `count` at most, that it had sealed. -/
def freeTail (script : Script) (head : Nat) : (count n : Nat) → Script
  | 0, _ => script
  | count + 1, n =>
    let slot := head + 4 * n
    let script := match script.entryAt? slot with
      | some (.continuation owner) => if owner = head then script.setEntry slot .unset else script
      | _ => script
    script.freeTail head count (n + 1)

/-- Cuts the table at `head` down to its first `keep` labels. -/
def cutTable (script : Script) (head keep : Nat) (labels : List String) : Script :=
  let dropped := labels.drop keep
  let script := dropped.foldl releaseEntry script
  let script := script.freeTail head (labels.length - keep) keep
  let script := script.diagnose head (.tableOverrun keep dropped.length)
  script.setEntry head (.pointerTable head (labels.take keep))

/-- Cuts the table at `head`, if it runs into anything, and seals the rest. -/
def correctTable (script : Script) (head : Nat) : Script :=
  match script.entryAt? head with
  | some (.pointerTable _ labels) =>
    let keep := script.ownSlots head (labels.length - 1) 1
    let script := if keep < labels.length then script.cutTable head keep labels else script
    script.fill (head + 4) (.continuation head) (keep - 1)
  | _ => script

/-- Cuts and seals every table. -/
def correctOverruns (script : Script) : Script :=
  script.tableHeads.foldl correctTable script

end Script
end EventScript
