/-
Label names are immaterial. A label stands for its address, and a minted name is
shown by the rank of that address; so when minted names are exchanged for others
throughout a script (`Script.rename`), with no two becoming one, the script
assembles as before, faults included (`assembleFrom_rename`), and its listing is
the same line by line (`lines_rename`).

Both rest on what renaming does to the label table: a name is found where it was
found before (`addressOf?_rename`), and its rank among the minted names is what
it was (`shown_rename`), also where the table lists a name twice.
-/
import Mathlib.Logic.Equiv.Basic
import EventScript.Assembly
import EventScript.Proofs.ClosedListing

namespace EventScript

/-! ## Renaming labels -/

/-- Whether a name starts as minted ones do. -/
def LabelTable.hasStem (name : String) : Bool := stem.toList.isPrefixOf name.toList

/-- A way to rename labels: no two names become one, a name that starts as minted
ones do is replaced by another such, and all others stay. -/
structure Relabelling where
  toFun : String → String
  injective : Function.Injective toFun
  minted : ∀ {name}, LabelTable.hasStem name = true → LabelTable.hasStem (toFun name) = true
  fixed : ∀ {name}, LabelTable.hasStem name = false → toFun name = name

instance : CoeFun Relabelling fun _ => String → String := ⟨Relabelling.toFun⟩

/-- The table with other names at the same addresses, in the same order. -/
def LabelTable.rename (f : Relabelling) (table : LabelTable) : LabelTable where
  byAddress := table.byAddress.map fun _ names => names.map f
  references := .ofList (table.references.toList.map fun (name, count) => (f name, count))
  nextIndex := table.nextIndex

def Operand.rename (f : Relabelling) (operand : Operand) : Operand :=
  { operand with label := operand.label.map f }

def Instruction.rename (f : Relabelling) (instruction : Instruction) : Instruction :=
  { instruction with operands := instruction.operands.map (Operand.rename f) }

def Entry.rename (f : Relabelling) : Entry → Entry
  | .entrypoint address destination => .entrypoint address (f destination)
  | .instruction decoded => .instruction (decoded.rename f)
  | .pointerTable address labels => .pointerTable address (labels.map f)
  | entry => entry

/-- The script with other names for its labels, wherever they occur. -/
def Script.rename (f : Relabelling) (script : Script) : Script :=
  { script with
    entries := script.entries.map (Entry.rename f)
    labels := script.labels.rename f }

/-- Every name that an entry mentions is found in the label table. -/
def Script.Bound (script : Script) : Prop :=
  ∀ name ∈ script.entries.toList.flatMap Entry.names,
    (script.labels.addressOf? name).isSome = true

instance (script : Script) : Decidable script.Bound :=
  inferInstanceAs (Decidable (∀ name ∈ script.entries.toList.flatMap Entry.names,
    (script.labels.addressOf? name).isSome = true))

theorem Script.Bound.mem {script : Script} (bound : script.Bound) {n : Nat} {e : Entry}
    (here : script.entries[n]? = some e) {name : String} (mem : name ∈ e.names) :
    (script.labels.addressOf? name).isSome = true :=
  bound name (List.mem_flatMap.mpr
    ⟨e, Array.mem_toList_iff.mpr (Array.mem_of_getElem? here), mem⟩)

variable {f : Relabelling}

/-! ## The label table -/

theorem Relabelling.contains_map (f : Relabelling) (names : List String) (name : String) :
    (names.map f).contains (f name) = names.contains name := by
  rw [Bool.eq_iff_iff, List.contains_iff_mem, List.contains_iff_mem,
    List.mem_map_of_injective f.injective]

theorem Relabelling.hasStem_apply (f : Relabelling) (name : String) :
    LabelTable.hasStem (f name) = LabelTable.hasStem name := by
  cases stem : LabelTable.hasStem name with
  | true => exact f.minted stem
  | false => rw [f.fixed stem, stem]

/-- What stands under a name stands under its new name. -/
theorem Relabelling.getElem?_ofList {α : Type} (f : Relabelling) (pairs : List (String × α))
    (name : String) :
    (Std.ExtTreeMap.ofList (pairs.map fun (key, value) => (f key, value)))[f name]? =
      (Std.ExtTreeMap.ofList pairs)[name]? := by
  rw [Std.ExtTreeMap.ofList_eq_insertMany_empty, Std.ExtTreeMap.ofList_eq_insertMany_empty]
  -- The pairs are inserted one after the other, the last for a name being the one that counts.
  suffices ∀ new old : Std.ExtTreeMap String α, new[f name]? = old[name]? →
      (new.insertMany (pairs.map fun (key, value) => (f key, value)))[f name]? =
        (old.insertMany pairs)[name]? from this ∅ ∅ (by simp)
  induction pairs with
  | nil =>
    intro new old same
    simpa using same
  | cons pair rest ih =>
    obtain ⟨key, value⟩ := pair
    intro new old same
    rw [List.map_cons, Std.ExtTreeMap.insertMany_cons, Std.ExtTreeMap.insertMany_cons]
    apply ih
    simp only [Std.ExtTreeMap.getElem?_insert, Std.compare_eq_iff_eq, f.injective.eq_iff, same]

namespace LabelTable

theorem namesAt_rename (table : LabelTable) (address : Nat) :
    (table.rename f).namesAt address = (table.namesAt address).map f := by
  simp only [namesAt, rename, Std.ExtTreeMap.getElem?_map]
  cases table.byAddress[address]? <;> rfl

theorem toList_rename (table : LabelTable) :
    (table.rename f).toList = table.toList.map fun (address, names) => (address, names.map f) :=
  Std.ExtTreeMap.toList_map

/-- A name is found under its new name at the address where it was. -/
theorem addressOf?_rename (table : LabelTable) (name : String) :
    (table.rename f).addressOf? (f name) = table.addressOf? name := by
  rw [addressOf?, addressOf?, toList_rename, List.find?_map, Option.map_map]
  have same : (fun entry : Nat × List String => entry.2.contains (f name)) ∘
      (fun entry => (entry.1, entry.2.map f)) =
        fun entry : Nat × List String => entry.2.contains name :=
    funext fun entry => f.contains_map entry.2 name
  exact congrArg (fun carries => (table.toList.find? carries).map (·.1)) same

end LabelTable

/-! ## Assembly -/

theorem Entry.width?_rename (e : Entry) : (e.rename f).width? = e.width? := by
  cases e with
  | instruction decoded =>
    have width : ∀ operands : List Operand,
        Operand.widthOfAll (operands.map (Operand.rename f)) = Operand.widthOfAll operands := by
      intro operands
      induction operands with
      | nil => rfl
      | cons operand rest ih => exact congrArg (operand.width + ·) ih
    exact congrArg (fun w => some (1 + w)) (width decoded.operands)
  | pointerTable address labels => exact congrArg some (List.length_map ..)
  | _ => rfl

theorem Instruction.words_rename (instruction : Instruction) :
    (instruction.rename f).words = instruction.words := by
  have operands : ∀ operands : List Operand,
      (operands.map (Operand.rename f)).mapM Operand.words = operands.mapM Operand.words := by
    intro operands
    induction operands with
    | nil => rfl
    | cons operand rest ih =>
      rw [List.map_cons, List.mapM_cons, List.mapM_cons, ih]
      rfl
  simp only [words, rename, operandWords, operands, List.length_map]

namespace Script

variable {script : Script}

theorem size_rename : (script.rename f).entries.size = script.entries.size :=
  Array.size_map

theorem getElem?_rename (n : Nat) :
    (script.rename f).entries[n]? = script.entries[n]?.map (Entry.rename f) :=
  Array.getElem?_map

theorem labelAddress_rename {name : String}
    (found : (script.labels.addressOf? name).isSome = true) :
    (script.rename f).labelAddress (f name) = script.labelAddress name := by
  obtain ⟨address, known⟩ := Option.isSome_iff_exists.mp found
  have there : (script.rename f).labels.addressOf? (f name) = some address :=
    known ▸ script.labels.addressOf?_rename name
  rw [labelAddress, labelAddress, there, known]

theorem tableWords_rename (table : Nat) {labels : List String}
    (found : ∀ name ∈ labels, (script.labels.addressOf? name).isSome = true) :
    (script.rename f).tableWords table (labels.map f) = script.tableWords table labels := by
  rw [tableWords, tableWords]
  induction labels with
  | nil => rfl
  | cons name rest ih =>
    obtain ⟨first, others⟩ := List.forall_mem_cons.mp found
    rw [List.map_cons, List.mapM_cons, List.mapM_cons, labelAddress_rename first, ih others]

theorem entryWords_rename (address : Nat) {e : Entry}
    (found : ∀ name ∈ e.names, (script.labels.addressOf? name).isSome = true) :
    (script.rename f).entryWords address (e.rename f) = script.entryWords address e := by
  cases e with
  | entrypoint home name =>
    rw [Entry.rename, entryWords, entryWords, labelAddress_rename (found name List.mem_cons_self)]
  | instruction decoded => exact decoded.words_rename
  | pointerTable home labels => exact tableWords_rename address found
  | _ => rfl

theorem entryWidth_rename (n : Nat) (e : Entry) :
    (script.rename f).entryWidth n (e.rename f) = script.entryWidth n e := by
  have empty : emptyEntry (4 * n) (e.rename f) = emptyEntry (4 * n) e := by cases e <;> rfl
  have same : (script.rename f).size = script.size := size_rename
  rw [entryWidth, entryWidth, Entry.width?_rename, same, empty]

theorem assembleFrom_rename (bound : script.Bound) (n : Nat) :
    (script.rename f).assembleFrom n = script.assembleFrom n := by
  by_cases inside : n < script.entries.size
  · have here := Array.getElem?_eq_getElem inside
    have there : (script.rename f).entries[n]? = some (script.entries[n].rename f) := by
      rw [getElem?_rename, here]
      rfl
    rw [assembleFrom_head there, assembleFrom_head here, entryWidth_rename,
      entryWords_rename _ fun _ mem => bound.mem here mem]
    cases known : script.entryWidth n script.entries[n] with
    | error fault => rfl
    | ok width =>
      have := entryWidth_pos known
      simp only [Except.bind, assembleFrom_rename bound (n + width)]
  · rw [assembleFrom_end (by rw [size_rename]; omega), assembleFrom_end (by omega)]
termination_by script.entries.size - n

end Script

/-! ## Listings -/

namespace Listing

variable {table : LabelTable}

theorem mintedNames_rename : mintedNames (table.rename f) = (mintedNames table).map f := by
  have same : LabelTable.hasStem ∘ f = LabelTable.hasStem := funext f.hasStem_apply
  have flat : (table.rename f).toList.flatMap (·.2) = (table.toList.flatMap (·.2)).map f := by
    rw [LabelTable.toList_rename, List.flatMap_map, List.map_flatMap]
  rw [mintedNames, flat, List.filter_map]
  exact congrArg (fun minted => ((table.toList.flatMap (·.2)).filter minted).map f) same

theorem getElem?_ofLabels_rename (name : String) :
    (Renaming.ofLabels (table.rename f))[f name]? = (Renaming.ofLabels table)[name]? := by
  have ranked := f.getElem?_ofList ((mintedNames table).zipIdx.map fun (name, rank) =>
    (name, LabelTable.mintedName rank)) name
  rw [Renaming.ofLabels, Renaming.ofLabels, mintedNames_rename, ← ranked, List.zipIdx_map,
    List.map_map, List.map_map]
  rfl

/-- A minted name that the table lists has a rank. -/
theorem isSome_ofLabels {name : String} (stem : LabelTable.hasStem name = true)
    (found : (table.addressOf? name).isSome = true) :
    ((Renaming.ofLabels table)[name]?).isSome = true := by
  rw [LabelTable.addressOf?, Option.isSome_map, List.find?_isSome] at found
  obtain ⟨⟨address, names⟩, listed, carries⟩ := found
  have mem : name ∈ mintedNames table :=
    List.mem_filter.mpr ⟨List.mem_flatMap.mpr ⟨_, listed, by simpa using carries⟩, stem⟩
  obtain ⟨rank, at_rank⟩ := List.getElem?_of_mem mem
  rw [Renaming.ofLabels, Std.ExtTreeMap.isSome_getElem?_iff_mem, Std.ExtTreeMap.mem_ofList,
    List.contains_iff_mem, List.map_map]
  exact List.mem_map.mpr ⟨(name, rank), List.mem_zipIdx_iff_getElem?.mpr at_rank, rfl⟩

/-- **A label is shown as before.** -/
theorem shown_rename {name : String} (found : (table.addressOf? name).isSome = true) :
    shown (.ofLabels (table.rename f)) (f name) = shown (.ofLabels table) name := by
  rw [shown, shown, getElem?_ofLabels_rename]
  cases stem : LabelTable.hasStem name with
  | true =>
    obtain ⟨rank, known⟩ := Option.isSome_iff_exists.mp (isSome_ofLabels stem found)
    rw [known]
    rfl
  | false => rw [f.fixed stem]

/-- The names of an address are shown as before. -/
theorem labelLines_rename (address : Nat) :
    labelLines (table.rename f) (.ofLabels (table.rename f)) address =
      labelLines table (.ofLabels table) address := by
  rw [labelLines, labelLines, LabelTable.namesAt_rename, List.map_map]
  refine List.map_congr_left fun name mem => ?_
  refine congrArg Line.label (shown_rename (Option.isSome_iff_ne_none.mpr fun none => ?_))
  exact LabelTable.addressOf?_eq_none_iff.mp none address mem

theorem textLines_rename (address : Nat) (text : EncodedString) :
    textLines (table.rename f) (.ofLabels (table.rename f)) address text =
      textLines table (.ofLabels table) address text := by
  have inside : labelsInside (table.rename f) address text = labelsInside table address text := by
    rw [labelsInside, labelsInside, LabelTable.toList_rename, List.map_map]
    rfl
  rw [textLines, textLines, inside]
  generalize 0 = start
  induction labelsInside table address text generalizing start with
  | nil => rfl
  | cons label rest ih => rw [cutText, cutText, labelLines_rename, ih]

theorem operandPieces_rename (catalogue : Catalogue) (instruction : Instruction) (index : Nat)
    {operand : Operand}
    (found : ∀ name, operand.label = some name → (table.addressOf? name).isSome = true) :
    operandPieces catalogue (.ofLabels (table.rename f)) (instruction.rename f) index
        (operand.rename f) =
      operandPieces catalogue (.ofLabels table) instruction index operand := by
  have target : targetPiece (.ofLabels (table.rename f)) (instruction.rename f)
      (operand.rename f) = targetPiece (.ofLabels table) instruction operand := by
    cases label : operand.label with
    | none => simp only [targetPiece, Operand.rename, label, Option.map_none, Instruction.rename]
    | some name =>
      simp only [targetPiece, Operand.rename, label, Option.map_some,
        shown_rename (found name label)]
  have immediate : ∀ value, immediateText catalogue (instruction.rename f) index value =
      immediateText catalogue instruction index value := fun _ => rfl
  have mode : (operand.rename f).mode = operand.mode := rfl
  have words : (operand.rename f).rawWords = operand.rawWords := rfl
  simp only [operandPieces, target, immediate, mode, words]

theorem operandsPieces_rename (catalogue : Catalogue) (instruction : Instruction)
    {operands : List Operand}
    (found : ∀ name ∈ operands.filterMap Operand.label, (table.addressOf? name).isSome = true)
    (index : Nat) :
    operandsPieces catalogue (.ofLabels (table.rename f)) (instruction.rename f) index
        (operands.map (Operand.rename f)) =
      operandsPieces catalogue (.ofLabels table) instruction index operands := by
  induction operands generalizing index with
  | nil => rfl
  | cons operand rest ih =>
    have first : ∀ name, operand.label = some name → (table.addressOf? name).isSome = true :=
      fun name label => found name (List.mem_filterMap.mpr ⟨operand, List.mem_cons_self, label⟩)
    have others : ∀ name ∈ rest.filterMap Operand.label, (table.addressOf? name).isSome = true :=
      fun name mem => by
        obtain ⟨other, among, label⟩ := List.mem_filterMap.mp mem
        exact found name (List.mem_filterMap.mpr ⟨other, List.mem_cons_of_mem _ among, label⟩)
    rw [List.map_cons, operandsPieces, operandsPieces, operandPieces_rename _ _ _ first, ih others]
    rfl

theorem instructionLine_rename (listing : Listing) (catalogue : Catalogue)
    {instruction : Instruction}
    (found : ∀ name ∈ instruction.operands.filterMap Operand.label,
      (table.addressOf? name).isSome = true) :
    instructionLine listing catalogue (.ofLabels (table.rename f)) (instruction.rename f) =
      instructionLine listing catalogue (.ofLabels table) instruction := by
  have pieces : operandsPieces catalogue (.ofLabels (table.rename f)) (instruction.rename f) 0
      (instruction.rename f).operands =
        operandsPieces catalogue (.ofLabels table) instruction 0 instruction.operands :=
    operandsPieces_rename catalogue instruction found 0
  have head : ∀ method, headText listing method (instruction.rename f) =
      headText listing method instruction := fun _ => rfl
  have comment : ∀ method, commentText method (instruction.rename f) =
      commentText method instruction := fun method => by
    have empty : (instruction.rename f).operands.isEmpty = instruction.operands.isEmpty :=
      List.isEmpty_map ..
    cases method with
    | some method => rfl
    | none =>
      simp only [commentText, empty]
      rfl
  rw [instructionLine, instructionLine, pieces]
  simp only [head, comment]
  rfl

/-- **The lines of an entry** are the same under other names. -/
theorem entryLines_rename (listing : Listing) (catalogue : Catalogue) (address : Nat) {e : Entry}
    (found : ∀ name ∈ e.names, (table.addressOf? name).isSome = true) :
    entryLines listing catalogue (table.rename f) (.ofLabels (table.rename f)) address
        (e.rename f) =
      entryLines listing catalogue table (.ofLabels table) address e := by
  cases e with
  | entrypoint home name =>
    simp only [Entry.rename, entryLines, shown_rename (found name List.mem_cons_self)]
  | instruction decoded =>
    simp only [Entry.rename, entryLines, instructionLine_rename listing catalogue found]
  | pointerTable home labels =>
    simp only [Entry.rename, entryLines, List.map_map]
    exact List.map_congr_left fun name mem => congrArg Line.relative (shown_rename (found name mem))
  | encodedString text => exact textLines_rename address text
  | _ => rfl

end Listing

theorem Script.headsFrom_rename (entries : List Entry) (n : Nat) :
    headsFrom n (entries.map (Entry.rename f)) =
      (headsFrom n entries).map fun (address, e) => (address, e.rename f) := by
  induction entries generalizing n with
  | nil => rfl
  | cons e rest ih =>
    rw [List.map_cons, headsFrom, headsFrom, Entry.width?_rename, ih]
    split <;> rfl

theorem Script.heads_rename (script : Script) :
    (script.rename f).heads = script.heads.map fun (address, e) => (address, e.rename f) := by
  rw [heads, heads, ← headsFrom_rename, rename, Array.toList_map]

/-- **A listing is the same line by line** under other names. -/
theorem Listing.lines_rename (listing : Listing) (catalogue : Catalogue) {script : Script}
    (bound : script.Bound) :
    listing.lines catalogue (script.rename f) = listing.lines catalogue script := by
  rw [lines, lines, Script.heads_rename, List.flatMap_map]
  refine List.flatMap_congr fun head mem => ?_
  obtain ⟨address, e⟩ := head
  obtain ⟨n, -, here, -⟩ := Script.mem_heads_iff.mp mem
  exact congrArg₂ (_ ++ · ++ ·) (labelLines_rename address)
    (entryLines_rename listing catalogue address fun _ mem => bound.mem here mem)

/-- **Label names are immaterial**: a script whose minted labels are renamed
assembles to the same words, or fails with the same fault, and its listing is the
same text, whatever the listing shows. -/
theorem Script.rename_immaterial {script : Script} (bound : script.Bound) (f : Relabelling) :
    (script.rename f).assemble = script.assemble ∧
      ∀ (listing : Listing) (catalogue : Catalogue),
        listing.body catalogue (script.rename f) = listing.body catalogue script := by
  refine ⟨?_, fun listing catalogue => ?_⟩
  · rw [assemble, assemble, assembleFrom_rename bound]
  · rw [Listing.body, Listing.body, Listing.lines_rename listing catalogue bound]

/-! ## A sample -/

/-- Two names that start as minted ones do change places. -/
def Relabelling.swap (a b : String) (first : LabelTable.hasStem a = true)
    (second : LabelTable.hasStem b = true) : Relabelling where
  toFun := Equiv.swap a b
  injective := (Equiv.swap a b).injective
  minted := fun {name} stem => by
    rw [Equiv.swap_apply_def]
    split
    · exact second
    · split
      · exact first
      · exact stem
  fixed := fun {name} plain => by
    refine Equiv.swap_apply_of_ne_of_ne ?_ ?_
    · rintro rfl
      rw [first] at plain
      cases plain
    · rintro rfl
      rw [second] at plain
      cases plain

/-- An entry point; a table of two; a jump into the middle of a text; the text.
The first code has a name of its own next to the minted one. -/
def aliasedScript : Script where
  entries := #[
    .entrypoint 0 "LABEL_4",
    .pointerTable 4 ["LABEL_2", "exit"], .continuation 4,
    .instruction ⟨12, .jmp, 0, [⟨16, .inline1, [0x09000003], some 24, some "LABEL_2"⟩]⟩,
    .operandSlot 12 0,
    .encodedString ⟨20, [0x21, 0x22, 0x23], true⟩, .continuation 20]
  labels := {
    byAddress := .ofList [(12, ["LABEL_4", "exit"]), (24, ["LABEL_2"])]
    references := .ofList [("LABEL_2", 2), ("LABEL_4", 1), ("exit", 1)]
    nextIndex := 5 }

theorem Script.rename_immaterial_aliased :
    let f := Relabelling.swap "LABEL_2" "LABEL_4" rfl rfl
    aliasedScript.Bound ∧ (aliasedScript.rename f).entries ≠ aliasedScript.entries ∧
      (aliasedScript.rename f).assemble = aliasedScript.assemble ∧
      Listing.bare.body {} (aliasedScript.rename f) = Listing.bare.body {} aliasedScript := by
  intro f
  have bound : aliasedScript.Bound := by decide +kernel
  obtain ⟨words, text⟩ := rename_immaterial bound f
  exact ⟨bound, by decide +kernel, words, text Listing.bare {}⟩

end EventScript
