/-
The labels of a listing. A listing defines labels where it stops: at the head of
an entry, and inside a text wherever a label points there (`Script.stops`). It
refers to labels wherever an entry mentions one.

In a recovered script every label is mentioned, and no two are shown under one
name. A label never points into a table, which would have been cut there; so a
listing passes over a label in one case only: where it points at a word of an
operand (`Script.isOperandSlot`). Every other label is defined once
(`definitions_nodup`, `mem_definitions_iff`).
-/
import Mathlib.Data.List.Nodup
import EventScript.Listing
import EventScript.Proofs.ExtraBranches
import EventScript.Proofs.Grounds

namespace EventScript

/-- Whether a slot holds a word of an operand. -/
def Script.isOperandSlot (script : Script) (address : Nat) : Bool :=
  (script.entryAt? address).any fun
    | .operandSlot .. => true
    | _ => false

theorem Script.isOperandSlot_iff {script : Script} {n : Nat} :
    script.isOperandSlot (4 * n) = true ↔
      ∃ header index, script.entries[n]? = some (.operandSlot header index) := by
  rw [isOperandSlot, entryAt?_slot, Option.any_eq_true]
  constructor
  · rintro ⟨e, at_n, slot⟩
    cases e with
    | operandSlot header index => exact ⟨header, index, at_n⟩
    | _ => cases slot
  · rintro ⟨header, index, at_n⟩
    exact ⟨_, at_n, rfl⟩

/-! ## Heads -/

theorem mem_headsFrom_iff {entries : List Entry} {n address : Nat} {e : Entry} :
    (address, e) ∈ Script.headsFrom n entries ↔
      ∃ k, address = 4 * (n + k) ∧ entries[k]? = some e ∧ e.width?.isSome = true := by
  constructor
  · intro mem
    induction entries generalizing n with
    | nil => cases mem
    | cons first rest ih =>
      have later : (address, e) ∈ Script.headsFrom (n + 1) rest →
          ∃ k, address = 4 * (n + k) ∧ (first :: rest)[k]? = some e ∧ e.width?.isSome = true :=
        fun mem => by
          obtain ⟨k, eq, at_k, begins⟩ := ih mem
          exact ⟨k + 1, by omega, at_k, begins⟩
      rw [Script.headsFrom] at mem
      split at mem
      · rename_i begins
        rcases List.mem_cons.mp mem with eq | mem
        · cases eq
          exact ⟨0, rfl, rfl, begins⟩
        · exact later mem
      · exact later mem
  · rintro ⟨k, rfl, at_k, begins⟩
    exact mem_headsFrom at_k begins

theorem Script.mem_heads_iff {script : Script} {address : Nat} {e : Entry} :
    (address, e) ∈ script.heads ↔
      ∃ n, address = 4 * n ∧ script.entries[n]? = some e ∧ e.width?.isSome = true := by
  rw [heads, mem_headsFrom_iff]
  simp

theorem headsFrom_ascending (entries : List Entry) (n : Nat) :
    (Script.headsFrom n entries).Pairwise fun a b => a.1 < b.1 := by
  induction entries generalizing n with
  | nil => exact .nil
  | cons first rest ih =>
    rw [Script.headsFrom]
    split
    · refine List.pairwise_cons.mpr ⟨fun later mem => ?_, ih (n + 1)⟩
      obtain ⟨k, eq, -, -⟩ := mem_headsFrom_iff.mp mem
      omega
    · exact ih (n + 1)

/-! ## What lines define and refer to -/

namespace Listing

/-- The label a line defines. -/
def Line.defined? : Line → Option String
  | .label name => some name
  | _ => none

/-- The labels that lines define, in order. -/
def definitions (lines : List Line) : List String := lines.filterMap Line.defined?

/-- The labels that lines refer to, in order. -/
def references (lines : List Line) : List String := lines.flatMap Line.references

/-- Every label that lines refer to is defined by exactly one of them. -/
def Closed (lines : List Line) : Prop :=
  ∀ name ∈ references lines, (definitions lines).count name = 1

instance (lines : List Line) : Decidable (Closed lines) :=
  inferInstanceAs (Decidable (∀ name ∈ references lines, (definitions lines).count name = 1))

/-- The names a listing shows for the labels of an address. -/
def shownAt (labels : LabelTable) (names : Renaming) (address : Nat) : List String :=
  (labels.namesAt address).map (shown names)

@[simp] theorem definitions_append (lines more : List Line) :
    definitions (lines ++ more) = definitions lines ++ definitions more :=
  List.filterMap_append

@[simp] theorem definitions_labelLines (labels : LabelTable) (names : Renaming) (address : Nat) :
    definitions (labelLines labels names address) = shownAt labels names address := by
  simp [definitions, labelLines, shownAt, List.filterMap_map, Function.comp_def, Line.defined?]

@[simp] theorem references_append (lines more : List Line) :
    references (lines ++ more) = references lines ++ references more :=
  List.flatMap_append

@[simp] theorem references_labelLines (labels : LabelTable) (names : Renaming) (address : Nat) :
    references (labelLines labels names address) = [] := by
  simp [references, labelLines, Line.references]

theorem banners_plain (flags : AddressFlags) :
    definitions (banners flags) = [] ∧ references (banners flags) = [] := by
  rw [banners]
  split <;> split <;> split <;> exact ⟨rfl, rfl⟩

/-- A text is cut at each label inside, and defines it there. -/
theorem definitions_cutText (labels : LabelTable) (names : Renaming) (text : EncodedString)
    (address : Nat) (inside : List Nat) (start : Nat) :
    definitions (cutText labels names text address inside start) =
      inside.flatMap (shownAt labels names) := by
  induction inside generalizing start with
  | nil => rfl
  | cons label rest ih =>
    rw [cutText, List.flatMap_cons, ← ih, ← definitions_labelLines, ← definitions_append]
    rfl

theorem references_cutText (labels : LabelTable) (names : Renaming) (text : EncodedString)
    (address : Nat) (inside : List Nat) (start : Nat) :
    references (cutText labels names text address inside start) = [] := by
  induction inside generalizing start with
  | nil => rfl
  | cons label rest ih =>
    have more := ih (min ((label - address) / 2) text.codes.length)
    rw [cutText, ← List.singleton_append, List.append_assoc, references_append, references_append,
      references_labelLines, more]
    rfl

/-- The labelled addresses inside an entry at which its lines are cut. -/
def cuts (labels : LabelTable) (address : Nat) : Entry → List Nat
  | .encodedString text => labelsInside labels address text
  | _ => []

theorem definitions_entryLines (listing : Listing) (catalogue : Catalogue) (labels : LabelTable)
    (names : Renaming) (address : Nat) (e : Entry) :
    definitions (entryLines listing catalogue labels names address e) =
      (cuts labels address e).flatMap (shownAt labels names) := by
  cases e with
  | encodedString text => exact definitions_cutText ..
  | pointerTable head entries =>
    simp [definitions, entryLines, cuts, List.filterMap_map, Function.comp_def, Line.defined?]
  | _ => rfl

/-- The labels that pieces of a line refer to. -/
theorem mem_references_instruction {pieces : List Piece} {reference : String} :
    reference ∈ (Line.instruction pieces).references ↔ .reference reference ∈ pieces := by
  rw [Line.references, List.mem_filterMap]
  constructor
  · rintro ⟨piece, mem, eq⟩
    cases piece with
    | plain => cases eq
    | reference name =>
      cases eq
      exact mem
  · exact fun mem => ⟨_, mem, rfl⟩

/-- An operand refers to the label it carries. -/
theorem mem_operandPieces {catalogue : Catalogue} {names : Renaming} {instruction : Instruction}
    {index : Nat} {operand : Operand} (labelled : operand.label.isSome = operand.mode.isInline)
    {reference : String} :
    .reference reference ∈ operandPieces catalogue names instruction index operand ↔
      ∃ name, operand.label = some name ∧ shown names name = reference := by
  obtain ⟨address, mode, words, resolved, label⟩ := operand
  cases label with
  | some name =>
    cases mode with
    | inline1 | inline2 | inline3 | inlineTable1 | inlineTable2 | inlineTable3 | inlineTable4 =>
      simp [operandPieces, targetPiece, eq_comm]
    | _ => cases labelled
  | none =>
    cases mode with
    | inline1 | inline2 | inline3 | inlineTable1 | inlineTable2 | inlineTable3 | inlineTable4 =>
      cases labelled
    | _ => simp [operandPieces]

theorem mem_operandsPieces {catalogue : Catalogue} {names : Renaming} {instruction : Instruction}
    {operands : List Operand}
    (labelled : ∀ operand ∈ operands, operand.label.isSome = operand.mode.isInline) {index : Nat}
    {reference : String} :
    .reference reference ∈ operandsPieces catalogue names instruction index operands ↔
      reference ∈ (operands.filterMap Operand.label).map (shown names) := by
  induction operands generalizing index with
  | nil => simp [operandsPieces]
  | cons operand rest ih =>
    obtain ⟨first, others⟩ := List.forall_mem_cons.mp labelled
    rw [operandsPieces, List.mem_append, List.mem_cons, ih others, mem_operandPieces first]
    cases label : operand.label with
    | none => simp [label]
    | some name =>
      rw [List.filterMap_cons_some label, List.map_cons, List.mem_cons]
      simp only [reduceCtorEq, false_or, Option.some.injEq, exists_eq_left']
      rw [eq_comm]

/-- The lines of an entry refer to the labels it mentions. -/
theorem mem_references_entryLines {listing : Listing} {catalogue : Catalogue}
    {labels : LabelTable} {names : Renaming} {address : Nat} {e : Entry}
    (labelled : ∀ decoded, e = .instruction decoded → Recovery.Labelled decoded)
    {reference : String} :
    reference ∈ references (entryLines listing catalogue labels names address e) ↔
      reference ∈ e.names.map (shown names) := by
  cases e with
  | instruction decoded =>
    rw [entryLines, references, List.flatMap_singleton, instructionLine,
      mem_references_instruction]
    simp only [List.mem_append, List.mem_cons, reduceCtorEq, List.not_mem_nil, false_or, or_false]
    exact mem_operandsPieces (labelled decoded rfl)
  | pointerTable head entries =>
    simp only [references, entryLines, Entry.names, List.flatMap_map, Line.references]
    rw [List.map_eq_flatMap]
  | encodedString text =>
    rw [entryLines, textLines, references_cutText]
    rfl
  | _ => simp [references, entryLines, Entry.names, Line.references]

end Listing

open Listing

/-! ## What the lines of a script define and refer to -/

/-- The addresses where a listing stops to define labels. -/
def Script.stops (script : Script) : List Nat :=
  script.heads.flatMap fun (address, e) => address :: cuts script.labels address e

theorem Listing.definitions_lines (listing : Listing) (catalogue : Catalogue) (script : Script) :
    definitions (listing.lines catalogue script) =
      script.stops.flatMap (shownAt script.labels (.ofLabels script.labels)) := by
  rw [Script.stops, lines]
  induction script.heads with
  | nil => rfl
  | cons head rest ih =>
    obtain ⟨address, e⟩ := head
    have plain : definitions (if listing.stripComments then []
        else banners (script.flagsAt address)) = [] := by
      split
      · rfl
      · exact (banners_plain _).1
    rw [List.flatMap_cons, List.flatMap_cons, List.flatMap_append, definitions_append, ih]
    simp only [definitions_append, plain, definitions_labelLines, definitions_entryLines,
      List.nil_append, List.flatMap_cons]

/-- **The lines of a script refer to the labels its entries mention.** -/
theorem Listing.mem_references_lines {script : Script}
    (labelled : ∀ {n : Nat} {decoded : Instruction},
      script.entries[n]? = some (.instruction decoded) → Recovery.Labelled decoded)
    {listing : Listing} {catalogue : Catalogue} {reference : String} :
    reference ∈ references (listing.lines catalogue script) ↔
      ∃ name, 0 < script.mentions name ∧
        shown (.ofLabels script.labels) name = reference := by
  have plain : ∀ address, references (if listing.stripComments then []
      else banners (script.flagsAt address)) = [] := fun address => by
    split
    · rfl
    · exact (banners_plain _).2
  have head : ∀ {n : Nat} {e : Entry}, script.entries[n]? = some e →
      (reference ∈ references ((if listing.stripComments then []
          else banners (script.flagsAt (4 * n))) ++
        labelLines script.labels (.ofLabels script.labels) (4 * n) ++
        entryLines listing catalogue script.labels (.ofLabels script.labels) (4 * n) e) ↔
      reference ∈ e.names.map (shown (.ofLabels script.labels))) := fun {n e} at_n => by
    rw [references_append, references_append, plain, references_labelLines, List.nil_append,
      List.nil_append]
    exact mem_references_entryLines fun decoded eq => labelled (eq ▸ at_n)
  rw [references, List.mem_flatMap]
  constructor
  · rintro ⟨line, mem, refers⟩
    obtain ⟨⟨address, e⟩, mem, there⟩ := List.mem_flatMap.mp mem
    obtain ⟨n, rfl, at_n, -⟩ := Script.mem_heads_iff.mp mem
    have named := (head at_n).mp (List.mem_flatMap.mpr ⟨line, there, refers⟩)
    obtain ⟨name, mentioned, eq⟩ := List.mem_map.mp named
    exact ⟨name, mentions_pos at_n mentioned, eq⟩
  · rintro ⟨name, mentioned, eq⟩
    rw [Script.mentions, List.count_pos_iff, List.mem_flatMap] at mentioned
    obtain ⟨e, mem, named⟩ := mentioned
    obtain ⟨n, at_n⟩ := List.getElem?_of_mem mem
    rw [Array.getElem?_toList] at at_n
    have begins : e.width?.isSome = true := by
      cases width : e.width? with
      | some w => rfl
      | none =>
        rw [Entry.names_of_width? width] at named
        cases named
    have there := (head at_n).mpr (List.mem_map.mpr ⟨name, named, eq⟩)
    obtain ⟨line, mem, refers⟩ := List.mem_flatMap.mp there
    exact ⟨line, List.mem_flatMap.mpr
      ⟨(4 * n, e), Script.mem_heads_iff.mpr ⟨n, rfl, at_n, begins⟩, mem⟩, refers⟩

/-! ## Shown names -/

namespace LabelTable.Sound

variable {table : LabelTable}

theorem mem_toList (h : table.Sound) {name : String} :
    name ∈ table.toList.flatMap (·.2) ↔ ∃ address, name ∈ table.namesAt address := by
  rw [List.mem_flatMap]
  constructor
  · rintro ⟨⟨address, names⟩, listed, mem⟩
    rw [toList, Std.ExtTreeMap.mem_toList_iff_getElem?_eq_some] at listed
    exact ⟨address, (namesAt_eq listed).symm ▸ mem⟩
  · rintro ⟨address, mem⟩
    have listed := (h.listed address).mpr (List.ne_nil_of_mem mem)
    rw [contains, Std.ExtTreeMap.contains_eq_isSome_getElem?] at listed
    obtain ⟨names, stored⟩ := Option.isSome_iff_exists.mp listed
    refine ⟨(address, names), ?_, namesAt_eq stored ▸ mem⟩
    rw [toList, Std.ExtTreeMap.mem_toList_iff_getElem?_eq_some]
    exact stored

/-- All names of a sound table are minted. -/
theorem mintedNames_eq (h : table.Sound) : mintedNames table = table.toList.flatMap (·.2) := by
  rw [mintedNames, List.filter_eq_self]
  intro name mem
  obtain ⟨address, mem⟩ := h.mem_toList.mp mem
  obtain ⟨n, -, rfl⟩ := h.minted mem
  rw [mintedName, String.toList_append, List.isPrefixOf_iff_prefix]
  exact List.prefix_append _ _

theorem nodup_mintedNames (h : table.Sound) : (mintedNames table).Nodup := by
  rw [h.mintedNames_eq, List.nodup_flatMap]
  have stored : ∀ {address names}, (address, names) ∈ table.toList →
      table.namesAt address = names := fun listed => by
    rw [toList, Std.ExtTreeMap.mem_toList_iff_getElem?_eq_some] at listed
    exact namesAt_eq listed
  constructor
  · rintro ⟨address, names⟩ listed
    exact stored listed ▸ h.nodup address
  · refine List.Pairwise.imp_of_mem ?_ Std.ExtTreeMap.distinct_keys_toList
    rintro ⟨a, names⟩ ⟨b, others⟩ first second distinct name mem mem'
    refine distinct (Std.compare_eq_iff_eq.mpr ?_)
    exact h.unique (stored first ▸ mem) (stored second ▸ mem')

/-- A name is shown by its rank. -/
theorem distinct_ranked (h : table.Sound) :
    ((mintedNames table).zipIdx.map fun (name, rank) => (name, mintedName rank)).Pairwise
      fun a b => ¬ compare a.1 b.1 = .eq := by
  have names := h.nodup_mintedNames
  rw [← List.zipIdx_map_fst 0 (mintedNames table), List.Nodup, List.pairwise_map] at names
  rw [List.pairwise_map]
  exact names.imp fun ne eq => ne (Std.compare_eq_iff_eq.mp eq)

theorem shown_eq (h : table.Sound) {name : String} {rank : Nat}
    (at_rank : (mintedNames table)[rank]? = some name) :
    shown (.ofLabels table) name = mintedName rank := by
  have ranked : (name, rank) ∈ (mintedNames table).zipIdx :=
    List.mem_zipIdx_iff_getElem?.mpr at_rank
  rw [shown, Renaming.ofLabels,
    Std.ExtTreeMap.getElem?_ofList_of_mem (Std.compare_eq_iff_eq.mpr rfl) h.distinct_ranked
      (List.mem_map.mpr ⟨(name, rank), ranked, rfl⟩)]
  rfl

/-- **Labels with different names are shown under different names.** -/
theorem shown_injective (h : table.Sound) {name other : String} {a b : Nat}
    (first : name ∈ table.namesAt a) (second : other ∈ table.namesAt b)
    (same : shown (.ofLabels table) name = shown (.ofLabels table) other) : name = other := by
  have ranked : ∀ {name address}, name ∈ table.namesAt address →
      ∃ rank : Nat, (mintedNames table)[rank]? = some name := fun {name address} mem =>
    List.getElem?_of_mem (h.mintedNames_eq ▸ h.mem_toList.mpr ⟨address, mem⟩)
  obtain ⟨m, at_m⟩ := ranked first
  obtain ⟨n, at_n⟩ := ranked second
  rw [h.shown_eq at_m, h.shown_eq at_n] at same
  rw [mintedName_injective same, at_n] at at_m
  exact (Option.some.inj at_m).symm

end LabelTable.Sound

/-! ## Where a listing stops -/

theorem Listing.mem_labelsInside {labels : LabelTable} {address label : Nat}
    {text : EncodedString} : label ∈ labelsInside labels address text ↔
      labels.contains label = true ∧ address < label ∧ label < address + 4 * text.width := by
  rw [labelsInside, List.mem_filter, LabelTable.toList, Std.ExtTreeMap.map_fst_toList_eq_keys,
    Std.ExtTreeMap.mem_keys, LabelTable.contains, Std.ExtTreeMap.contains_iff_mem]
  simp

/-- What lines are cut at lies inside the entry. -/
theorem Listing.mem_cuts {labels : LabelTable} {address label : Nat} {e : Entry}
    (mem : label ∈ cuts labels address e) :
    ∃ w, e.width? = some w ∧ address < label ∧ label < address + 4 * w := by
  cases e with
  | encodedString text => exact ⟨_, rfl, (mem_labelsInside.mp mem).2⟩
  | _ => cases mem

theorem Listing.cuts_nodup (labels : LabelTable) (address : Nat) (e : Entry) :
    (cuts labels address e).Nodup := by
  cases e with
  | encodedString text =>
    rw [cuts, labelsInside, LabelTable.toList, Std.ExtTreeMap.map_fst_toList_eq_keys]
    exact List.Nodup.filter _ Std.ExtTreeMap.nodup_keys
  | _ => exact .nil

/-- **A listing stops at an address once**: what it is cut at lies inside the
entry, where no other begins. -/
theorem stops_nodup {script : Script} (laid : Laid script.entries)
    (sealed : Sealed script.entries) : script.stops.Nodup := by
  rw [Script.stops, List.nodup_flatMap]
  constructor
  · rintro ⟨address, e⟩ -
    refine List.nodup_cons.mpr ⟨fun mem => ?_, cuts_nodup _ _ _⟩
    obtain ⟨w, -, low, -⟩ := mem_cuts mem
    omega
  · refine List.Pairwise.imp_of_mem ?_ (headsFrom_ascending script.entries.toList 0)
    rintro ⟨a, e⟩ ⟨b, other⟩ first second lower stop mem mem'
    simp only at lower mem mem'
    have above : b ≤ stop := by
      rcases List.mem_cons.mp mem' with rfl | cut
      · exact Nat.le_refl _
      · obtain ⟨-, -, low, -⟩ := mem_cuts cut
        omega
    rcases List.mem_cons.mp mem with rfl | cut
    · omega
    obtain ⟨w, width, -, high⟩ := mem_cuts cut
    obtain ⟨m, rfl, at_m, -⟩ := Script.mem_heads_iff.mp first
    obtain ⟨n, rfl, at_n, begins⟩ := Script.mem_heads_iff.mp second
    -- The second head would stand inside the first entry.
    rw [sealed.width?_eq_none laid at_m width (by omega) (by omega) at_n] at begins
    cases begins

/-- No label names a slot inside a table. -/
def Script.Clear (script : Script) : Prop :=
  ∀ {n m address : Nat} {labels : List String},
    script.entries[n]? = some (.pointerTable address labels) →
    n < m → m < n + labels.length → script.labels.contains (4 * m) = false

/-- **A listing stops at a label unless it names a word of an operand.** -/
theorem mem_stops_iff {script : Script} (laid : Laid script.entries)
    (sealed : Sealed script.entries) (clear : script.Clear) {n : Nat}
    (inside : n < script.entries.size) (labelled : script.labels.contains (4 * n) = true) :
    4 * n ∈ script.stops ↔ script.isOperandSlot (4 * n) = false := by
  have here := Array.getElem?_eq_getElem inside
  rw [← Bool.not_eq_true, Script.isOperandSlot_iff, Script.stops, List.mem_flatMap]
  constructor
  · rintro ⟨⟨address, e⟩, head, mem⟩ ⟨header, index, slot⟩
    obtain ⟨m, rfl, at_m, begins⟩ := Script.mem_heads_iff.mp head
    rcases List.mem_cons.mp mem with eq | cut
    · rw [show m = n by omega, slot] at at_m
      cases at_m
      cases begins
    · cases e with
      | encodedString text =>
        obtain ⟨-, low, high⟩ := mem_labelsInside.mp cut
        have width := @Entry.length_tail (.encodedString text) _ rfl (laid.room at_m rfl).1
        have bound : n - m - 1 < (Entry.encodedString text).tail.length := by omega
        have there := sealed m _ at_m (List.getElem?_eq_getElem bound)
        rw [show m + 1 + (n - m - 1) = n by omega, slot] at there
        have later : Entry.operandSlot header index ∈ (Entry.encodedString text).tail := by
          rw [Option.some.inj there]
          exact List.getElem_mem bound
        cases List.eq_of_mem_replicate later
      | _ => cases cut
  · intro free
    generalize script.entries[n] = e at here
    cases width : e.width? with
    | some w =>
      exact ⟨(4 * n, e), Script.mem_heads_iff.mpr ⟨n, rfl, here, by rw [width]; rfl⟩,
        List.mem_cons_self⟩
    | none =>
      obtain ⟨m, owner, w, at_m, mem, reach, low, high⟩ := laid.owner here width
      cases owner with
      | instruction decoded =>
        obtain ⟨index, rfl⟩ := mem_operandSlots mem
        exact absurd ⟨_, _, here⟩ free
      | pointerTable address labels =>
        cases reach
        rw [clear at_m low high] at labelled
        cases labelled
      | encodedString text =>
        cases reach
        refine ⟨(4 * m, .encodedString text), Script.mem_heads_iff.mpr ⟨m, rfl, at_m, rfl⟩, ?_⟩
        exact List.mem_cons_of_mem _ (mem_labelsInside.mpr ⟨labelled, by omega, by omega⟩)
      | _ => cases mem

/-! ## The labels of a recovered script -/

namespace Recovery

theorem exploreBranches_settled {setting : Setting} {addresses : List Nat} {s t : Session}
    (moves : Moves setting.image (.blank setting.image.size) s.script)
    (h : exploreBranches setting addresses s = .ok t) : Settled t.script := by
  rw [exploreBranches] at h
  split at h
  · cases h
  · rename_i u drained
    cases h
    have moves : Moves setting.image (.blank setting.image.size) u.script :=
      moves.trans (drain_moves drained).1
    have balanced := moves.balanced (.blank setting.image) (.blank setting.image _)
    exact correctOverruns_settled (moves.explored (.blank setting.image)).laid balanced.sound

/-- **No label of a recovered script names a slot inside a table.** -/
theorem disassemble_clear {catalogue : Catalogue} {options : Options} {image : Image}
    {script : Script} (h : disassemble catalogue options image = .ok script) : script.Clear := by
  obtain ⟨s, explored, rfl⟩ := disassemble_cases h
  have settled : Settled s.script := by
    obtain ⟨_, u, rfl, first, more⟩ := explore_cases explored
    have named := named_moves image options.maxEntrypoints
    rcases more with rfl | more
    · exact exploreBranches_settled named first
    · exact exploreBranches_settled (named.trans (exploreBranches_moves first).1) more
  intro n m address labels table low high
  rw [settle_eq]
  exact settled.clear (settle_found table id) low high

section

variable {image : Image} {script : Script} (recovered : Recovered image script)
  (balanced : Balanced image script) (clear : script.Clear) (listing : Listing)
  (catalogue : Catalogue)

include recovered balanced

/-- **A listing defines no label twice.** -/
theorem definitions_nodup : (definitions (listing.lines catalogue script)).Nodup := by
  rw [definitions_lines, List.nodup_flatMap]
  constructor
  · intro stop _
    refine List.Nodup.map_on (fun name mem other mem' same => ?_) (balanced.sound.nodup stop)
    exact balanced.sound.shown_injective mem mem' same
  · refine (stops_nodup recovered.explored.laid recovered.sealed).imp fun {a b} ne => ?_
    intro shownName first second
    obtain ⟨name, mem, rfl⟩ := List.mem_map.mp first
    obtain ⟨other, mem', same⟩ := List.mem_map.mp second
    cases balanced.sound.shown_injective mem' mem same
    exact ne (balanced.sound.unique mem mem')

include clear

/-- **A listing defines a label unless it names a word of an operand.** -/
theorem mem_definitions_iff {name : String} {address : Nat}
    (mem : name ∈ script.labels.namesAt address) :
    shown (.ofLabels script.labels) name ∈ definitions (listing.lines catalogue script) ↔
      script.isOperandSlot address = false := by
  have labelled := (balanced.sound.listed address).mpr (List.ne_nil_of_mem mem)
  obtain ⟨aligned, bound⟩ := balanced.landed mem
  obtain ⟨n, rfl⟩ : ∃ n, address = 4 * n := ⟨address / 4, by omega⟩
  have inside : n < script.entries.size := by
    rw [Image.byteLength] at bound
    rw [recovered.explored.size]
    omega
  rw [← mem_stops_iff recovered.explored.laid recovered.sealed clear inside labelled,
    definitions_lines, List.mem_flatMap]
  constructor
  · rintro ⟨stop, stops, shownThere⟩
    obtain ⟨other, mem', same⟩ := List.mem_map.mp shownThere
    cases balanced.sound.shown_injective mem' mem same
    rwa [balanced.sound.unique mem mem']
  · exact fun stops => ⟨4 * n, stops, List.mem_map_of_mem mem⟩

/-- How often a listing defines a label. -/
theorem count_definitions {name : String} {address : Nat}
    (mem : name ∈ script.labels.namesAt address) :
    (definitions (listing.lines catalogue script)).count
        (shown (.ofLabels script.labels) name) =
      if script.isOperandSlot address then 0 else 1 := by
  have once := definitions_nodup recovered balanced listing catalogue
  have defined := mem_definitions_iff recovered balanced clear listing catalogue mem
  cases slot : script.isOperandSlot address with
  | false => exact List.count_eq_one_of_mem once (defined.mpr slot)
  | true =>
    refine List.count_eq_zero.mpr fun there => ?_
    rw [defined.mp there] at slot
    cases slot

end

end Recovery

/-- The account of the labels in the lines of a script. -/
structure Listing.Lists (script : Script) (lines : List Line) : Prop where
  /-- Labels with different names are shown under different names. -/
  distinct : ∀ {a b name other}, name ∈ script.labels.namesAt a →
    other ∈ script.labels.namesAt b →
    shown (.ofLabels script.labels) name = shown (.ofLabels script.labels) other → name = other
  /-- What is referred to is a label, and defined once, unless it names a word of
  an operand: such a label is not defined at all. -/
  defined : ∀ reference ∈ references lines, ∃ address name,
    name ∈ script.labels.namesAt address ∧
      reference = shown (.ofLabels script.labels) name ∧
      (definitions lines).count reference = if script.isOperandSlot address then 0 else 1
  closed : Closed lines ↔ ∀ address, script.labels.contains address = true →
    script.isOperandSlot address = false

namespace Recovery

/-- **A listing is closed under its labels unless one names a word of an
operand**: any other label that is referred to is defined once. -/
theorem disassemble_listed {catalogue : Catalogue} {options : Options} {image : Image}
    {script : Script} (h : disassemble catalogue options image = .ok script)
    (listing : Listing) (known : Catalogue) : Lists script (listing.lines known script) := by
  have moves := disassemble_moves h
  have recovered := disassemble_recovered h
  have balanced := moves.balanced (.blank image) (.blank image image.size)
  have count {name : String} {address : Nat} (mem : name ∈ script.labels.namesAt address) :=
    count_definitions recovered balanced (disassemble_clear h) listing known mem
  have refers {reference : String} : reference ∈ references (listing.lines known script) ↔
      ∃ name, 0 < script.mentions name ∧ shown (.ofLabels script.labels) name = reference :=
    mem_references_lines fun at_n => moves.labelled at_n
  refine ⟨fun mem mem' => balanced.sound.shown_injective mem mem', ?_, ?_⟩
  · intro reference there
    obtain ⟨name, mentioned, rfl⟩ := refers.mp there
    obtain ⟨address, mem⟩ := (balanced.sound.counted name).mp (balanced.counted name ▸ mentioned)
    exact ⟨address, name, mem, rfl, count mem⟩
  · constructor
    · intro closed address labelled
      obtain ⟨name, mem⟩ :=
        List.exists_mem_of_ne_nil _ ((balanced.sound.listed address).mp labelled)
      have mentioned : 0 < script.mentions name :=
        balanced.counted name ▸ (balanced.sound.counted name).mpr ⟨address, mem⟩
      have once := closed _ (refers.mpr ⟨name, mentioned, rfl⟩)
      rw [count mem] at once
      cases slot : script.isOperandSlot address with
      | false => rfl
      | true =>
        rw [slot] at once
        cases once
    · intro free reference there
      obtain ⟨name, mentioned, rfl⟩ := refers.mp there
      obtain ⟨address, mem⟩ := (balanced.sound.counted name).mp (balanced.counted name ▸ mentioned)
      rw [count mem, free address ((balanced.sound.listed address).mpr (List.ne_nil_of_mem mem))]
      rfl

/-- In the sample no label names a word of an operand, so the listing is closed, and the
label of the call, the fifth by its address, is defined once. -/
theorem disassemble_listed_sample :
    ∃ script, disassemble sampleCatalogue {} sampleImage = .ok script ∧
      Lists script (Listing.bare.lines sampleCatalogue script) ∧
      script.entries[10]? = some (.instruction sampleGosub) ∧
      Closed (Listing.bare.lines sampleCatalogue script) ∧
      "LABEL_4" ∈ references (Listing.bare.lines sampleCatalogue script) ∧
      (definitions (Listing.bare.lines sampleCatalogue script)).count "LABEL_4" = 1 := by
  obtain ⟨script, h, at_ten, free, called⟩ :=
    disassemble_within_holds sampleCatalogue {} sampleImage 8
      (fun script => script.entries[10]? = some (.instruction sampleGosub) ∧
        (∀ address ∈ script.labels.byAddress.keys, script.isOperandSlot address = false) ∧
        "LABEL_4" ∈ references (Listing.bare.lines sampleCatalogue script)) (by decide +kernel)
  have lists := disassemble_listed h Listing.bare sampleCatalogue
  have closed := lists.closed.mpr fun address labelled =>
    free address (Std.ExtTreeMap.mem_keys.mpr labelled)
  exact ⟨script, h, lists, at_ten, closed, called, closed _ called⟩

/-- An entry point; a move whose first operand points at its own second word; a return. -/
def inwardImage : Image := #[0x00000004, 0x00000208, 0x09000001, 0x02000001, 0x00000049]

/-- The label at a word of an operand is referred to and defined nowhere. -/
theorem operand_label_undefined :
    ∃ script, disassemble {} {} inwardImage = .ok script ∧
      "LABEL_1" ∈ references (Listing.bare.lines {} script) ∧
      "LABEL_1" ∉ definitions (Listing.bare.lines {} script) := by
  exact disassemble_within_holds {} {} inwardImage 3
    (fun script => "LABEL_1" ∈ references (Listing.bare.lines {} script) ∧
      "LABEL_1" ∉ definitions (Listing.bare.lines {} script)) (by decide +kernel)

end Recovery
end EventScript
