/-
Where a data table ends. A scan takes entry by entry as long as each passes all its
tests, with the window that the destinations before it leave (`scanData_scanned`).
So if the entry it ends at passes every test but that of its range, it leads out of
the image, or to the last word of it, which is taken for the outside
(`probeData_cut`, `last_word_refused`).
-/
import EventScript.Proofs.Bounded
import EventScript.Proofs.LabelTable
import EventScript.Proofs.Reading

namespace EventScript.Recovery

variable {setting : Setting} {script : Script} {texts : Bool}

/-! ## One entry -/

/-- The slot at `entry` passes every test of an entry of the data table at `table`
but that of its range: it is free, it stands on the right side of the destinations
so far, and it does not look like code, or leads to a text. -/
structure Eligible (setting : Setting) (script : Script) (texts : Bool) (table entry : Nat)
    (window : Window) : Prop where
  free : script.isUnset entry = true
  admitted : window.admits entry (setting.image.wordAt entry) = true
  believed : setting.isProbablyOp script entry = false ∨
    texts = true ∧ (Likelihood.findTerminator script setting.image
      (tableDestination table (setting.image.wordAt entry)).toNat
      setting.options.searchWords).isSome = true

/-- A slot is an entry if it passes every test, that of its range included. -/
theorem dataEntry?_eq_some {table entry destination : Nat} {window : Window} :
    dataEntry? setting script texts table entry window = some destination ↔
      Eligible setting script texts table entry window ∧
        tableDestination table (setting.image.wordAt entry) = destination ∧
        destination + 4 < setting.image.byteLength := by
  simp only [ dataEntry?, Option.ite_none_right_eq_some, Option.some.injEq, Bool.and_eq_true,
    Bool.or_eq_true, Bool.not_eq_true', decide_eq_true_eq]
  constructor
  · rintro ⟨⟨⟨⟨free, admitted⟩, low⟩, high⟩, believed, rfl⟩
    exact ⟨⟨free, admitted, believed⟩, by omega, by omega⟩
  · rintro ⟨⟨free, admitted, believed⟩, leads, high⟩
    exact ⟨⟨⟨⟨free, admitted⟩, by omega⟩, by omega⟩, believed, by omega⟩

/-! ## A scan -/

/-- The window that destinations leave. -/
def windowAfter (image : Image) (destinations : List Nat) : Window :=
  destinations.foldl Window.widen (.start image)

/-- A scan takes as many entries as pass in turn, up to its room. -/
theorem scanData_scanned {table room entry : Nat} {window : Window} {destinations : List Nat}
    (scanned : scanData setting script texts table room entry window = destinations) :
    (∀ k d, destinations[k]? = some d →
      dataEntry? setting script texts table (entry + 4 * k)
        ((destinations.take k).foldl Window.widen window) = some d) ∧
      (destinations.length < room →
        dataEntry? setting script texts table (entry + 4 * destinations.length)
          (destinations.foldl Window.widen window) = none) := by
  induction room generalizing entry window destinations with
  | zero =>
    cases scanned
    exact ⟨fun k d at_k => (by cases at_k), fun short => absurd short (Nat.not_lt_zero _)⟩
  | succ room ih =>
    rw [scanData] at scanned
    cases first : dataEntry? setting script texts table entry window with
    | none =>
      rw [first] at scanned
      cases scanned
      exact ⟨fun k d at_k => (by cases at_k), fun _ => first⟩
    | some destination =>
      rw [first] at scanned
      cases scanned
      obtain ⟨taken, ended⟩ := ih rfl
      refine ⟨fun k d at_k => ?_, fun short => ?_⟩
      · cases k with
        | zero =>
          cases at_k
          exact first
        | succ k =>
          have later := taken k d at_k
          rwa [show entry + 4 + 4 * k = entry + 4 * (k + 1) by omega] at later
      · have later := ended (Nat.lt_of_succ_lt_succ short)
        rwa [show ∀ n, entry + 4 + 4 * n = entry + 4 * (n + 1) by omega] at later

/-- A probe lays down the table of what its scan found, or records that it is empty. -/
theorem probeData_lays {s : Session} {table : Nat} (free : s.script.isUnset table = true)
    {destinations : List Nat}
    (scanned : scanData setting s.script texts table (slotsFrom setting.image table) table
      (.start setting.image) = destinations) :
    (destinations = [] →
      probeData setting table texts s = s.diagnose table .emptyDataTable) ∧
      (destinations ≠ [] → ∃ names, names.length = destinations.length ∧
        (probeData setting table texts s).script.entryAt? table =
          some (.pointerTable table names)) := by
  rw [probeData, if_pos free, scanned]
  refine ⟨fun empty => by rw [empty]; rfl, fun some => ⟨_, s.script.labels.length_addAll _, ?_⟩⟩
  have laid (script : Script) (names : List String) (same : script.entries = s.script.entries) :
      (script.setEntry table (.pointerTable table names)).entryAt? table =
        .some (.pointerTable table names) := by
    obtain ⟨aligned, at_table⟩ := Script.entryAt?_eq_some (Script.entryAt?_of_isUnset free)
    have inside := (Array.getElem?_eq_some_iff.mp at_table).1
    refine Script.entryAt?_of_slot aligned ?_
    rw [Script.getElem?_setEntry, if_pos ⟨rfl, same ▸ inside⟩]
  rw [if_neg (by simpa using some)]
  cases texts <;> exact laid _ _ rfl

/-- **A data table is cut at the bounds of the image only**, and at its last word.
The entries of a table are those that pass every test one behind the other, and if
the scan ends at a slot that passes every test but that of its range, then that
entry leads out of the image or to the last word of it. -/
theorem probeData_cut {s : Session} {table : Nat} (free : s.script.isUnset table = true) :
    let image := setting.image
    let destinations := scanData setting s.script texts table (slotsFrom image table) table
      (.start image)
    (∀ k d : Nat, destinations[k]? = some d →
      Eligible setting s.script texts table (table + 4 * k)
          (windowAfter image (destinations.take k)) ∧
        tableDestination table (image.wordAt (table + 4 * k)) = d ∧ d + 4 < image.byteLength) ∧
      (let entry := table + 4 * destinations.length
        let destination := tableDestination table (image.wordAt entry)
        entry < image.byteLength →
        Eligible setting s.script texts table entry (windowAfter image destinations) →
        destination < 0 ∨ (image.byteLength : Int) ≤ destination ∨
          destination = image.byteLength - 4) ∧
      (destinations = [] →
        probeData setting table texts s = s.diagnose table .emptyDataTable) ∧
      (destinations ≠ [] → ∃ names, names.length = destinations.length ∧
        (probeData setting table texts s).script.entryAt? table =
          some (.pointerTable table names)) := by
  intro image destinations
  obtain ⟨taken, ended⟩ := scanData_scanned (rfl : _ = destinations)
  refine ⟨fun k d at_k => dataEntry?_eq_some.mp (taken k d at_k), ?_, probeData_lays free rfl⟩
  intro entry destination inside eligible
  have aligned := (Script.slot_of_isUnset free).1
  have room : destinations.length < slotsFrom image table := by
    simp only [Image.byteLength, entry] at inside
    simp only [slotsFrom]
    omega
  by_cases accepted : 0 ≤ destination ∧ destination + 4 < setting.image.byteLength
  · have leads : destination = destination.toNat := by omega
    have next := dataEntry?_eq_some.mpr ⟨eligible, leads, by omega⟩
    cases (ended room).symm.trans next
  · -- Destinations are aligned as their table is, so only the last word is left.
    simp only [Image.byteLength, destination, tableDestination, image] at accepted ⊢
    omega

/-- A table whose second entry leads behind the image. -/
def outsideImage : Image := #[2, 0x1fffffff, 0x12345678, 0x12345678]

theorem probeData_cut_outside :
    let setting : Setting := ⟨outsideImage, {}, {}⟩
    let s : Session := { script := .blank 4 }
    s.script.isUnset 0 = true ∧ 4 < outsideImage.byteLength ∧
      Eligible setting s.script false 0 4 (windowAfter outsideImage [8]) ∧
      (tableDestination 0 (outsideImage.wordAt 4) < 0 ∨
        (outsideImage.byteLength : Int) ≤ tableDestination 0 (outsideImage.wordAt 4) ∨
        tableDestination 0 (outsideImage.wordAt 4) = outsideImage.byteLength - 4) := by
  intro setting s
  have free : s.script.isUnset 0 = true := by decide +kernel
  have inside : 4 < outsideImage.byteLength := by decide +kernel
  have eligible : Eligible setting s.script false 0 4 (windowAfter outsideImage [8]) :=
    ⟨by decide +kernel, by decide +kernel, .inl (by decide +kernel)⟩
  have scanned : scanData setting s.script false 0 (slotsFrom outsideImage 0) 0
      (.start outsideImage) = [8] := by decide +kernel
  obtain ⟨-, ended, -⟩ := @probeData_cut setting false s 0 free
  dsimp only at ended
  rw [scanned] at ended
  exact ⟨free, inside, eligible, ended inside eligible⟩

/-- An entry point, a move through a table, and the table, whose one entry names
the last word. -/
def lastWordImage : Image :=
  #[0x00000004, 0x00000208, 0x0b000004, 0x02000001, 0x00000049, 0x00000001, 0x12345678]

/-- The last word of an image is in the image, but no data table can name it. -/
theorem last_word_refused :
    (∃ script, disassemble {} {} lastWordImage = .ok script ∧
      script.diagnostics.contains ⟨20, .emptyDataTable⟩ = true) ∧
    let setting : Setting := ⟨lastWordImage, {}, {}⟩
    let script := findEntrypoints lastWordImage setting.options.maxEntrypoints 0 (.blank 7)
    script.isUnset 20 = true ∧
      scanData setting script false 20 (slotsFrom lastWordImage 20) 20 (.start lastWordImage) = [] ∧
      20 < lastWordImage.byteLength ∧
      Eligible setting script false 20 20 (windowAfter lastWordImage []) ∧
      0 ≤ tableDestination 20 (lastWordImage.wordAt 20) ∧
      tableDestination 20 (lastWordImage.wordAt 20) < lastWordImage.byteLength := by
  refine ⟨?_, by decide +kernel, by decide +kernel, by decide +kernel, ⟨?_, ?_, .inl ?_⟩,
    by decide +kernel, by decide +kernel⟩
  · exact disassemble_within_holds {} {} lastWordImage 4 _ (by decide +kernel)
  all_goals decide +kernel

end EventScript.Recovery
