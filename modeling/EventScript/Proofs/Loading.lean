/-
Every script that a document holds has the numbers of a machine (`ofDocument_fits`):
a reader answers only numbers that fit where they are put. So the scripts that can be
read back from their documents are those that documents hold (`read_back`).
-/
import EventScript.Proofs.Documents

namespace EventScript

open Json

namespace Json

/-- Whatever the reader answers has a property. -/
def Yields {α : Type} (read : Json → Option α) (holds : α → Prop) : Prop :=
  ∀ value a, read value = some a → holds a

theorem intIn?_range {low high n : Int} {value : Json} (h : intIn? low high value = some n) :
    low ≤ n ∧ n < high := by
  cases value with
  | number spelling =>
    obtain ⟨numeral, -, h⟩ := Option.bind_eq_some_iff.mp h
    obtain ⟨m, -, h⟩ := Option.bind_eq_some_iff.mp h
    split at h
    · rename_i range
      cases h
      exact range
    · cases h
  | _ => cases h

theorem yields_nat? (bits : Nat) : Yields (nat? bits) (· < 2 ^ bits) := by
  intro value n h
  obtain ⟨m, read, rfl⟩ := Option.map_eq_some_iff.mp h
  have range := intIn?_range read
  have bound : m < ((2 ^ bits : Nat) : Int) := range.2
  omega

theorem yields_int64? : Yields int64? fun n => -2 ^ 63 ≤ n ∧ n < 2 ^ 63 :=
  fun _ _ => intIn?_range

theorem mem_of_mapM {α β : Type} {read : α → Option β} {items : List α} {results : List β}
    (h : items.mapM read = some results) : ∀ b ∈ results, ∃ a, read a = some b := by
  induction items generalizing results with
  | nil =>
    cases h
    simp
  | cons a rest ih =>
    rw [List.mapM_cons] at h
    obtain ⟨b, first, h⟩ := Option.bind_eq_some_iff.mp h
    obtain ⟨others, read, h⟩ := Option.bind_eq_some_iff.mp h
    cases h
    exact List.forall_mem_cons.mpr ⟨⟨a, first⟩, ih read⟩

section Combined

variable {α : Type} {read : Json → Option α} {holds : α → Prop} (yields : Yields read holds)
include yields

theorem Yields.list? : Yields (list? read) fun items => ∀ a ∈ items, holds a := by
  intro value items h
  cases value with
  | array given =>
    intro a mem
    obtain ⟨item, found⟩ := mem_of_mapM h a mem
    exact yields _ _ found
  | _ => cases h

theorem Yields.pairs? {κ : Type} {readName : List Char → Option κ} :
    Yields (pairs? readName read) fun pairs =>
      ∀ p ∈ pairs, (∃ name, readName name = some p.1) ∧ holds p.2 := by
  intro value pairs h
  cases value with
  | object fields =>
    intro p mem
    obtain ⟨⟨name, value⟩, found⟩ := mem_of_mapM h p mem
    obtain ⟨key, named, found⟩ := Option.bind_eq_some_iff.mp found
    obtain ⟨a, item, found⟩ := Option.bind_eq_some_iff.mp found
    cases found
    exact ⟨⟨name, named⟩, yields _ _ item⟩
  | _ => cases h

theorem Yields.required {fields : Fields} {name : String} {a : α}
    (h : fields.required name read = some a) : holds a := by
  obtain ⟨value, -, found⟩ := Option.bind_eq_some_iff.mp h
  exact yields _ _ found

theorem Yields.nullable {fields : Fields} {name : String} {optional : Option α}
    (h : fields.nullable name read = some optional) : ∀ a ∈ optional, holds a := by
  intro a mem
  cases mem
  rw [Fields.nullable] at h
  split at h
  · split at h <;> cases h
  · cases h
  · obtain ⟨b, found, eq⟩ := Option.map_eq_some_iff.mp h
    cases eq
    exact yields _ _ found

theorem Yields.defaulted {fields : Fields} {name : String} {a default : α}
    (h : fields.defaulted name read default = some a) : a = default ∨ holds a := by
  rw [Fields.defaulted] at h
  split at h
  · cases h
    exact .inl rfl
  · exact .inr (yields _ _ h)

end Combined

theorem yields_set? (bits : Nat) :
    Yields (set? (nat? bits)) fun set => ∀ a ∈ set, a < 2 ^ bits := by
  intro value set h
  obtain ⟨items, read, rfl⟩ := Option.map_eq_some_iff.mp h
  intro a mem
  rw [Std.ExtTreeSet.mem_ofList, List.contains_iff_mem] at mem
  exact (yields_nat? bits).list? _ _ read a mem

/-- Every pair of a map is among those that it was made of. -/
theorem mem_of_getElem?_ofList {κ α : Type} [Ord κ] [Std.TransOrd κ] [Std.LawfulEqOrd κ]
    {pairs : List (κ × α)} {key : κ} {a : α}
    (h : (Std.ExtTreeMap.ofList pairs)[key]? = some a) : (key, a) ∈ pairs := by
  have inserted : ∀ (pairs : List (κ × α)) (map : Std.ExtTreeMap κ α),
      (map.insertMany pairs)[key]? = some a → (key, a) ∈ pairs ∨ map[key]? = some a := by
    intro pairs
    induction pairs with
    | nil => exact fun map h => .inr h
    | cons p rest ih =>
      intro map h
      rw [Std.ExtTreeMap.insertMany_cons] at h
      rcases ih _ h with mem | found
      · exact .inl (List.mem_cons_of_mem p mem)
      · rw [Std.ExtTreeMap.getElem?_insert] at found
        split at found
        · rename_i same
          cases found
          cases Std.LawfulEqCmp.eq_of_compare same
          exact .inl List.mem_cons_self
        · exact .inr found
  rw [Std.ExtTreeMap.ofList_eq_insertMany_empty] at h
  rcases inserted pairs ∅ h with mem | found
  · exact mem
  · simp at found

end Json

/-! ## Parts of a script -/

theorem Operand.yields : Yields ofJson? Operand.Fits := by
  intro value operand h
  simp only [ofJson?, Option.bind_eq_bind, Option.bind_eq_some_iff] at h
  obtain ⟨f, -, address, found, mode, -, words, -, resolved, given, label, -, h⟩ := h
  cases h
  exact ⟨(yields_nat? 32).required found, (yields_nat? 32).nullable given⟩

theorem Entry.yields_ofKind? (kind : String) : Yields (ofKind? kind) Entry.Fits := by
  intro rest entry h
  rw [ofKind?.eq_def] at h
  split at h
  all_goals
    simp only [Option.bind_eq_bind, Option.bind_eq_some_iff, Option.map_eq_some_iff,
      reduceCtorEq] at h
  · obtain ⟨-, -, rfl⟩ := h
    trivial
  · obtain ⟨f, -, address, found, destination, -, h⟩ := h
    cases h
    exact (yields_nat? 32).required found
  · obtain ⟨f, -, address, found, opcode, -, parameter, -, operands, read, h⟩ := h
    cases h
    exact ⟨(yields_nat? 32).required found, Operand.yields.list?.required read⟩
  · obtain ⟨f, -, header, found, index, counted, h⟩ := h
    cases h
    exact ⟨(yields_nat? 32).required found, (yields_nat? 64).required counted⟩
  · obtain ⟨f, -, address, found, labels, -, h⟩ := h
    cases h
    exact (yields_nat? 32).required found
  · obtain ⟨f, -, address, found, codes, -, terminated, -, h⟩ := h
    cases h
    exact (yields_nat? 32).required found
  · obtain ⟨f, -, head, found, h⟩ := h
    cases h
    exact (yields_nat? 32).required found
  · obtain ⟨f, -, address, found, word, -, h⟩ := h
    cases h
    exact (yields_nat? 32).required found

theorem Entry.yields (room : Nat) : Yields (ofJson? room) Entry.Fits := by
  intro value entry h
  obtain ⟨⟨kind, rest⟩, -, h⟩ := Option.bind_eq_some_iff.mp h
  exact yields_ofKind? kind rest entry h

theorem Problem.yields_ofKind? (kind : String) : Yields (ofKind? kind) Problem.Fits := by
  intro rest problem h
  rw [ofKind?.eq_def] at h
  split at h
  all_goals
    simp only [Option.bind_eq_bind, Option.bind_eq_some_iff, Option.map_eq_some_iff,
      reduceCtorEq] at h
  case h_6 =>
    obtain ⟨f, -, destination, found, h⟩ := h
    cases h
    exact yields_int64?.required found
  case h_7 =>
    obtain ⟨f, -, destination, found, h⟩ := h
    cases h
    exact (yields_nat? 32).required found
  case h_8 =>
    obtain ⟨f, -, expected, wanted, actual, found, h⟩ := h
    cases h
    exact ⟨(yields_nat? 64).required wanted, (yields_nat? 64).required found⟩
  case h_9 =>
    obtain ⟨f, -, kept, found, dropped, lost, h⟩ := h
    cases h
    exact ⟨(yields_nat? 64).required found, (yields_nat? 64).required lost⟩
  case h_1 | h_2 | h_5 =>
    obtain ⟨f, -, field, -, h⟩ := h
    cases h
    trivial
  all_goals
    obtain ⟨-, -, rfl⟩ := h
    trivial

theorem Problem.yields (room : Nat) : Yields (ofJson? room) Problem.Fits := by
  intro value problem h
  obtain ⟨⟨kind, rest⟩, -, h⟩ := Option.bind_eq_some_iff.mp h
  exact yields_ofKind? kind rest problem h

theorem Diagnostic.yields (room : Nat) : Yields (ofJson? room) Diagnostic.Fits := by
  intro value d h
  simp only [ofJson?, Option.bind_eq_bind, Option.bind_eq_some_iff] at h
  obtain ⟨f, -, address, found, problem, read, h⟩ := h
  cases h
  exact ⟨(yields_nat? 32).required found, (Problem.yields (room - 1)).required read⟩

theorem LabelTable.yields : Yields ofJson? LabelTable.Fits := by
  intro value table h
  simp only [ofJson?, Option.bind_eq_bind, Option.bind_eq_some_iff] at h
  obtain ⟨f, -, byAddress, named, references, counted, nextIndex, found, h⟩ := h
  cases h
  refine ⟨fun address mem => ?_, fun name count listed => ?_, (yields_nat? 64).required found⟩
  · obtain ⟨names, listed⟩ := Option.isSome_iff_exists.mp
      (Std.ExtTreeMap.mem_iff_isSome_getElem?.mp mem)
    have any : Yields (list? text?) fun _ => True := fun _ _ _ => trivial
    obtain ⟨⟨name, read⟩, -⟩ := any.pairs?.required named _ (mem_of_getElem?_ofList listed)
    exact yields_nat? 32 (.number name) address read
  · exact ((yields_nat? 64).pairs?.required counted _ (mem_of_getElem?_ofList listed)).2

/-! ## Scripts -/

namespace Script

theorem yields : Yields ofJson? Script.Fits := by
  intro value script h
  simp only [ofJson?, Option.bind_eq_bind, Option.bind_eq_some_iff] at h
  obtain ⟨f, -, entries, es, labels, ls, entrypoints, ps, branches, bs, subroutines, ss,
    reentryPoints, rs, tableAddresses, ts, jumpTableDestinations, js, diagnostics, ds, h⟩ := h
  cases h
  exact {
    entries := fun entry mem =>
      (Entry.yields _).list?.required es entry (by simpa using mem)
    labels := LabelTable.yields.required ls
    entrypoints := (yields_nat? 32).list?.required ps
    branches := (yields_set? 32).required bs
    subroutines := (yields_set? 32).required ss
    reentryPoints := (yields_set? 32).required rs
    tableAddresses := (yields_set? 32).required ts
    jumpTableDestinations := (yields_set? 32).required js
    diagnostics := by
      rcases (Diagnostic.yields _).list?.defaulted ds with rfl | fits
      · simp
      · exact fits }

/-- What a document holds has the numbers of a machine. -/
theorem ofDocument_fits {text : String} {script : Script} (h : ofDocument text = .ok script) :
    script.Fits := by
  rw [ofDocument] at h
  split at h
  · rename_i read
    cases h
    obtain ⟨value, -, found⟩ := Option.bind_eq_some_iff.mp read
    exact yields value script found
  · cases h

/-- **A script is read back from its documents**, whether they are laid out over lines
or stand on one, if its numbers are those of a machine; and no document holds a script
with other numbers. -/
theorem read_back (script : Script) :
    (script.Fits → ofDocument script.toDocument = .ok script ∧
      ofDocument script.toCompactDocument = .ok script) ∧
    ∀ text, ofDocument text = .ok script → script.Fits :=
  ⟨fun fits => ⟨ofDocument_toDocument fits, ofDocument_toCompactDocument fits⟩,
    fun _ => ofDocument_fits⟩

/-- A script that no recovery ends with: its parts have nothing to do with each other,
and its names are no names of labels. -/
def assorted : Script where
  entries := #[
    .unset, .entrypoint 0xfffffffc "", .operandSlot 7 0xffffffffffffffff, .continuation 1,
    .instruction ⟨2, .mov, 0xffff, [⟨3, .inline1, [1, 0xffffffff], some 5, some "\"\\\n"⟩]⟩,
    .pointerTable 6 ["\t", "😀"], .encodedString ⟨9, [0xa0ff, 0], true⟩, .rawData 0 0xffffffff]
  labels := { byAddress := .ofList [(8, ["ラベル", "ラベル"])], references := .ofList [("ü", 0)] }
  entrypoints := [3, 3]
  branches := .ofList [5]
  diagnostics := [⟨1, .pointerOutOfRange (-0x8000000000000000)⟩, ⟨0, .emptyDataTable⟩]

theorem assorted_fits : assorted.Fits where
  entries := by
    have operand : Operand.Fits ⟨3, .inline1, [1, 0xffffffff], some 5, some "\"\\\n"⟩ :=
      ⟨by decide, by simp⟩
    simp [assorted, Entry.Fits, operand]
  labels := {
    addresses := by simp [assorted]
    counts := by
      intro name count h
      simp only [assorted, Std.ExtTreeMap.ofList_singleton, Std.ExtTreeMap.getElem?_insert] at h
      split at h
      · cases h
        decide
      · cases h
    nextIndex := by decide }
  entrypoints := by simp [assorted]
  branches := by simp [assorted]
  subroutines := by simp [assorted]
  reentryPoints := by simp [assorted]
  tableAddresses := by simp [assorted]
  jumpTableDestinations := by simp [assorted]
  diagnostics := by
    simp only [assorted, List.forall_mem_cons]
    exact ⟨⟨by decide, by decide, by decide⟩, ⟨by decide, trivial⟩, by simp⟩

theorem read_back_assorted :
    assorted.Fits ∧ ofDocument assorted.toDocument = .ok assorted ∧
      ofDocument assorted.toCompactDocument = .ok assorted :=
  ⟨assorted_fits, (read_back assorted).1 assorted_fits⟩

end Script

end EventScript
