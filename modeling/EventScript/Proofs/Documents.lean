/-
Scripts are read back from their documents (`Script.ofDocument_toDocument`,
`Script.ofDocument_toCompactDocument`), whatever entries, names, sets and diagnostics
they have, as long as their numbers are those of a machine (`Script.Fits`).

From the inside out, each part has two lemmas: what is written of it has a meaning
in all its parts (`isSound_toJson`), which is what the text of a document and the
tagged values in it need to be read, and it is read as what it was
(`ofJson?_toJson`). Reading refuses what is nested too deeply, so both tell how many
levels a part takes.
-/
import EventScript.Document.Script
import EventScript.Proofs.Parsing
import EventScript.Proofs.Records

namespace EventScript

open Json

/-! ## What documents hold -/

/-- Whether the numbers of an operand are those of a machine. -/
structure Operand.Fits (operand : Operand) : Prop where
  address : operand.address < 2 ^ 32
  resolved : ∀ n ∈ operand.resolved, n < 2 ^ 32

/-- Whether the numbers of an entry are those of a machine. -/
def Entry.Fits : Entry → Prop
  | .unset => True
  | .entrypoint address _ => address < 2 ^ 32
  | .instruction decoded => decoded.address < 2 ^ 32 ∧ ∀ operand ∈ decoded.operands, operand.Fits
  | .operandSlot header index => header < 2 ^ 32 ∧ index < 2 ^ 64
  | .pointerTable address _ => address < 2 ^ 32
  | .encodedString text => text.address < 2 ^ 32
  | .continuation head => head < 2 ^ 32
  | .rawData address _ => address < 2 ^ 32

/-- Whether the numbers of a problem are those of a machine. -/
def Problem.Fits : Problem → Prop
  | .pointerOutOfRange destination => -2 ^ 63 ≤ destination ∧ destination < 2 ^ 63
  | .invalidBranchTarget destination => destination < 2 ^ 32
  | .callArityMismatch expected actual => expected < 2 ^ 64 ∧ actual < 2 ^ 64
  | .tableOverrun kept dropped => kept < 2 ^ 64 ∧ dropped < 2 ^ 64
  | _ => True

/-- Whether the numbers of a diagnostic are those of a machine. -/
structure Diagnostic.Fits (d : Diagnostic) : Prop where
  address : d.address < 2 ^ 32
  problem : d.problem.Fits

/-- Whether the numbers of a label table are those of a machine. -/
structure LabelTable.Fits (table : LabelTable) : Prop where
  addresses : ∀ address ∈ table.byAddress, address < 2 ^ 32
  counts : ∀ (name : String) count, table.references[name]? = some count → count < 2 ^ 64
  nextIndex : table.nextIndex < 2 ^ 64

/-- Whether the numbers of a script are those of a machine: addresses and words have
32 bits, indices and counts 64, displacements 64 with a sign. Texts, and how the
parts go together, are arbitrary. -/
structure Script.Fits (script : Script) : Prop where
  entries : ∀ entry ∈ script.entries, entry.Fits
  labels : script.labels.Fits
  entrypoints : ∀ address ∈ script.entrypoints, address < 2 ^ 32
  branches : ∀ address ∈ script.branches, address < 2 ^ 32
  subroutines : ∀ address ∈ script.subroutines, address < 2 ^ 32
  reentryPoints : ∀ address ∈ script.reentryPoints, address < 2 ^ 32
  tableAddresses : ∀ address ∈ script.tableAddresses, address < 2 ^ 32
  jumpTableDestinations : ∀ address ∈ script.jumpTableDestinations, address < 2 ^ 32
  diagnostics : ∀ d ∈ script.diagnostics, d.Fits

/-! ## Operands -/

theorem Mode.mem_all (mode : Mode) : mode ∈ all := by
  cases mode <;> decide

theorem Mode.ofId?_id (mode : Mode) : ofId? mode.id = some mode := by
  have listed : ∀ mode ∈ all, ofId? mode.id = some mode := by decide +kernel
  exact listed mode mode.mem_all

theorem Opcode.mem_all (opcode : Opcode) : opcode ∈ all := by
  cases opcode <;> decide

theorem Opcode.ofId?_id (opcode : Opcode) : ofId? opcode.id = some opcode := by
  have listed : ∀ opcode ∈ all, ofId? opcode.id = some opcode := by decide +kernel
  exact listed opcode opcode.mem_all

namespace Operand

variable {operand : Operand}

theorem isSound_toJson (fits : operand.Fits) (room : Nat) :
    operand.toJson.isSound (room + 2) = true := by
  refine isSound_record ?_
  simp only [List.forall_mem_cons, List.not_mem_nil, false_imp_iff, implies_true, and_true]
  refine ⟨isSound_ofNat32 fits.address _, isSound_ofText _ _, isSound_ofList fun word _ => ?_,
    isSound_ofOption fun n mem => ?_, isSound_ofOption fun text _ => isSound_ofText text _⟩
  · exact isSound_ofNat32 word.toNat_lt _
  · exact isSound_ofNat32 (fits.resolved n mem) _

theorem ofJson?_toJson (fits : operand.Fits) : ofJson? operand.toJson = some operand := by
  have words : list? (nat? 32) (ofList (fun word => ofNat word.toNat) operand.rawWords) =
      some (operand.rawWords.map UInt32.toNat) :=
    list?_ofList fun word _ => nat?_ofNat word.toNat_lt
  have same : operand.rawWords.map (UInt32.ofNat ∘ UInt32.toNat) = operand.rawWords :=
    (List.map_congr_left fun _ _ => UInt32.ofNat_toNat).trans (List.map_id _)
  have resolved (rest : List (String × Json)) :
      Fields.nullable ⟨("resolved", ofOption ofNat operand.resolved) :: rest, false⟩ "resolved"
        (nat? 32) = some operand.resolved :=
    nullable_self (fun n mem => nat?_ofNat (fits.resolved n mem)) (by simp [ofNat])
  have label : Fields.nullable ⟨[("label", ofOption ofText operand.label)], false⟩ "label" text? =
      some operand.label :=
    nullable_self (fun text _ => text?_ofText text) (by simp [ofText])
  rw [toJson, ofJson?, fields?_record (by simp)]
  simp [nat?_ofNat fits.address, Mode.ofId?_id, words, resolved, label, same]

end Operand

/-! ## Entries -/

namespace Entry

variable {entry : Entry}

theorem isSound_toJson (fits : entry.Fits) (room : Nat) :
    entry.toJson.isSound (room + 4) = true := by
  refine isSound_record ?_
  cases entry with
  | unset => simp [fields]
  | entrypoint address destination => simp [fields, isSound_ofNat32 fits]
  | instruction decoded =>
    have parameter := isSound_ofNat32 (Nat.lt_trans decoded.parameter.toNat_lt (by decide))
    have operands : (Json.ofList Operand.toJson decoded.operands).isSound (room + 3) = true :=
      isSound_ofList fun operand mem => Operand.isSound_toJson (fits.2 operand mem) room
    simp [fields, isSound_ofNat32 fits.1, parameter, operands]
  | operandSlot header index => simp [fields, isSound_ofNat32 fits.1, isSound_ofNat fits.2]
  | pointerTable address labels =>
    have texts : (Json.ofList ofText labels).isSound (room + 3) = true :=
      isSound_ofList fun text _ => isSound_ofText text _
    simp [fields, isSound_ofNat32 fits, texts]
  | encodedString text =>
    have codes : (Json.ofList (fun code => ofNat code.toNat) text.codes).isSound (room + 3) =
        true :=
      isSound_ofList fun code _ => isSound_ofNat32 (Nat.lt_trans code.toNat_lt (by decide)) _
    have address : text.address < 2 ^ 32 := fits
    simp [fields, isSound_ofNat32 address, codes, isSound]
  | continuation head => simp [fields, isSound_ofNat32 fits]
  | rawData address value => simp [fields, isSound_ofNat32 fits, isSound_ofNat32 value.toNat_lt]

theorem ofJson?_toJson (fits : entry.Fits) (room : Nat) :
    ofJson? (room + 4) entry.toJson = some entry := by
  have sound := isSound_toJson fits room
  cases entry with
  | unset =>
    rw [ofJson?, toJson, fields, tagged?_record sound (by simp)]
    rfl
  | entrypoint address destination =>
    rw [ofJson?, toJson, fields, tagged?_record sound (by simp [tagName])]
    simp [ofKind?, fields?_record, nat?_ofNat fits]
  | instruction decoded =>
    rw [ofJson?, toJson, fields, tagged?_record sound (by simp [tagName])]
    have operands : list? Operand.ofJson? (Json.ofList Operand.toJson decoded.operands) =
        some decoded.operands :=
      list?_ofList_self fun operand mem => Operand.ofJson?_toJson (fits.2 operand mem)
    simp [ofKind?, fields?_record, nat?_ofNat fits.1, Opcode.ofId?_id,
      nat?_ofNat decoded.parameter.toNat_lt, operands]
  | operandSlot header index =>
    rw [ofJson?, toJson, fields, tagged?_record sound (by simp [tagName])]
    simp [ofKind?, fields?_record, nat?_ofNat fits.1, nat?_ofNat fits.2]
  | pointerTable address labels =>
    rw [ofJson?, toJson, fields, tagged?_record sound (by simp [tagName])]
    have texts : list? text? (Json.ofList ofText labels) = some labels :=
      list?_ofList_self fun text _ => text?_ofText text
    simp [ofKind?, fields?_record, nat?_ofNat fits, texts]
  | encodedString text =>
    rw [ofJson?, toJson, fields, tagged?_record sound (by simp [tagName])]
    have codes : list? (nat? 16) (Json.ofList (fun code => ofNat code.toNat) text.codes) =
        some (text.codes.map UInt16.toNat) :=
      list?_ofList fun code _ => nat?_ofNat code.toNat_lt
    have same : text.codes.map (UInt16.ofNat ∘ UInt16.toNat) = text.codes :=
      (List.map_congr_left fun _ _ => UInt16.ofNat_toNat).trans (List.map_id _)
    have address : text.address < 2 ^ 32 := fits
    simp [ofKind?, fields?_record, nat?_ofNat address, codes, bool?, same]
  | continuation head =>
    rw [ofJson?, toJson, fields, tagged?_record sound (by simp [tagName])]
    simp [ofKind?, fields?_record, nat?_ofNat fits]
  | rawData address value =>
    rw [ofJson?, toJson, fields, tagged?_record sound (by simp [tagName])]
    simp [ofKind?, fields?_record, nat?_ofNat fits, nat?_ofNat value.toNat_lt]

end Entry

/-! ## Diagnostics -/

namespace Problem

variable {problem : Problem}

theorem isSound_toJson (fits : problem.Fits) (room : Nat) :
    problem.toJson.isSound (room + 1) = true := by
  refine isSound_record ?_
  cases problem with
  | invalidHeader word => simp [fields, isSound_ofNat32 word.toNat_lt]
  | unsupportedMode tag =>
    simp [fields, isSound_ofNat32 (Nat.lt_trans tag.toNat_lt (by decide : 2 ^ 8 < 2 ^ 32))]
  | unknowableOperand mnemonic => simp [fields]
  | pointerOutOfRange destination => simp [fields, isSound_ofInt fits]
  | invalidBranchTarget destination => simp [fields, isSound_ofNat32 fits]
  | callArityMismatch expected actual =>
    simp [fields, isSound_ofNat fits.1, isSound_ofNat fits.2]
  | tableOverrun kept dropped => simp [fields, isSound_ofNat fits.1, isSound_ofNat fits.2]
  | truncatedInstruction | overlappingCode | emptyDataTable | stringSkipped => simp [fields]

theorem ofJson?_toJson (fits : problem.Fits) (room : Nat) :
    ofJson? (room + 1) problem.toJson = some problem := by
  have sound := isSound_toJson fits room
  cases problem with
  | invalidHeader word =>
    rw [ofJson?, toJson, fields, tagged?_record sound (by simp [tagName])]
    simp [ofKind?, fields?_record, nat?_ofNat word.toNat_lt]
  | unsupportedMode tag =>
    rw [ofJson?, toJson, fields, tagged?_record sound (by simp [tagName])]
    simp [ofKind?, fields?_record, nat?_ofNat tag.toNat_lt]
  | unknowableOperand mnemonic =>
    rw [ofJson?, toJson, fields, tagged?_record sound (by simp [tagName])]
    simp [ofKind?, fields?_record]
  | pointerOutOfRange destination =>
    rw [ofJson?, toJson, fields, tagged?_record sound (by simp [tagName])]
    simp [ofKind?, fields?_record, int64?_ofInt fits]
  | invalidBranchTarget destination =>
    rw [ofJson?, toJson, fields, tagged?_record sound (by simp [tagName])]
    simp [ofKind?, fields?_record, nat?_ofNat fits]
  | callArityMismatch expected actual =>
    rw [ofJson?, toJson, fields, tagged?_record sound (by simp [tagName])]
    simp [ofKind?, fields?_record, nat?_ofNat fits.1, nat?_ofNat fits.2]
  | tableOverrun kept dropped =>
    rw [ofJson?, toJson, fields, tagged?_record sound (by simp [tagName])]
    simp [ofKind?, fields?_record, nat?_ofNat fits.1, nat?_ofNat fits.2]
  | truncatedInstruction | overlappingCode | emptyDataTable | stringSkipped =>
    rw [ofJson?, toJson, fields, tagged?_record sound (by simp)]
    rfl

end Problem

namespace Diagnostic

variable {d : Diagnostic}

theorem isSound_toJson (fits : d.Fits) (room : Nat) : d.toJson.isSound (room + 2) = true := by
  refine isSound_record ?_
  simp [isSound_ofNat32 fits.address, Problem.isSound_toJson fits.problem room]

theorem ofJson?_toJson (fits : d.Fits) (room : Nat) : ofJson? (room + 2) d.toJson = some d := by
  have problem : Problem.ofJson? (room + 1) d.problem.toJson = some d.problem :=
    Problem.ofJson?_toJson fits.problem room
  rw [toJson, ofJson?, fields?_record (by simp)]
  simp [nat?_ofNat fits.address, problem]

end Diagnostic

/-! ## Label tables -/

namespace LabelTable

variable {table : LabelTable}

theorem isSound_toJson (fits : table.Fits) (room : Nat) :
    table.toJson.isSound (room + 3) = true := by
  refine isSound_record ?_
  simp only [List.forall_mem_cons, List.not_mem_nil, false_imp_iff, implies_true, and_true]
  refine ⟨isSound_record fun field mem => ?_, isSound_record fun field mem => ?_,
    isSound_ofNat fits.nextIndex _⟩
  · obtain ⟨⟨address, names⟩, -, rfl⟩ := List.mem_map.mp mem
    exact isSound_ofList fun name _ => isSound_ofText name _
  · obtain ⟨⟨name, count⟩, listed, rfl⟩ := List.mem_map.mp mem
    exact isSound_ofNat
      (fits.counts name count (Std.ExtTreeMap.mem_toList_iff_getElem?_eq_some.mp listed)) _

theorem pairs?_byAddress (fits : table.Fits) :
    pairs? (nameNat? 32) (list? text?) (record (table.byAddress.toList.map
      fun (address, names) => (Text.decimal address, Json.ofList ofText names))) =
        some table.byAddress.toList := by
  refine pairs?_record (fun p mem => ?_) fun p _ =>
    list?_ofList_self fun name _ => text?_ofText name
  obtain ⟨address, names⟩ := p
  have listed := Std.ExtTreeMap.mem_toList_iff_getElem?_eq_some.mp mem
  exact nameNat?_decimal (fits.addresses address (Std.ExtTreeMap.mem_iff_isSome_getElem?.mpr
    (by rw [listed]; rfl)))

theorem pairs?_references (fits : table.Fits) :
    pairs? unescape? (nat? 64) (record (table.references.toList.map
      fun (name, count) => (name, ofNat count))) = some table.references.toList :=
  @pairs?_record _ _ unescape? (nat? 64) id ofNat _ (fun p _ => unescape?_escape p.1) fun p mem =>
    nat?_ofNat (fits.counts p.1 p.2 (Std.ExtTreeMap.mem_toList_iff_getElem?_eq_some.mp mem))

theorem ofJson?_toJson (fits : table.Fits) : ofJson? table.toJson = some table := by
  rw [toJson, ofJson?, fields?_record (by simp)]
  simp [pairs?_byAddress fits, pairs?_references fits, nat?_ofNat fits.nextIndex, ofList_toList]

end LabelTable

/-! ## Scripts -/

namespace Script

variable {script : Script}

theorem isSound_toJson (fits : script.Fits) (room : Nat) :
    script.toJson.isSound (room + 6) = true := by
  have addresses {set : AddressSet} (small : ∀ address ∈ set, address < 2 ^ 32) :
      (addressesToJson set).isSound (room + 5) = true :=
    isSound_ofList fun address mem =>
      isSound_ofNat32 (small address (Std.ExtTreeSet.mem_toList.mp mem)) _
  refine isSound_record ?_
  simp only [List.forall_mem_cons, List.not_mem_nil, false_imp_iff, implies_true, and_true]
  refine ⟨isSound_ofList fun entry mem => ?_, LabelTable.isSound_toJson fits.labels _,
    isSound_ofList fun address mem => isSound_ofNat32 (fits.entrypoints address mem) _,
    addresses fits.branches, addresses fits.subroutines, addresses fits.reentryPoints,
    addresses fits.tableAddresses, addresses fits.jumpTableDestinations,
    isSound_ofList fun d mem => Diagnostic.isSound_toJson (fits.diagnostics d mem) _⟩
  exact Entry.isSound_toJson (fits.entries entry (Array.mem_toList_iff.mp mem)) room

theorem ofJson?_toJson (fits : script.Fits) : ofJson? script.toJson = some script := by
  have entries : list? (Entry.ofJson? (depthLimit - 2))
      (Json.ofList Entry.toJson script.entries.toList) = some script.entries.toList :=
    list?_ofList_self fun entry mem =>
      Entry.ofJson?_toJson (fits.entries entry (Array.mem_toList_iff.mp mem)) 121
  have diagnostics : list? (Diagnostic.ofJson? (depthLimit - 2))
      (Json.ofList Diagnostic.toJson script.diagnostics) = some script.diagnostics :=
    list?_ofList_self fun d mem => Diagnostic.ofJson?_toJson (fits.diagnostics d mem) 123
  have entrypoints : list? (nat? 32) (Json.ofList ofNat script.entrypoints) =
      some script.entrypoints :=
    list?_ofList_self fun address mem => nat?_ofNat (fits.entrypoints address mem)
  have addresses {set : AddressSet} (small : ∀ address ∈ set, address < 2 ^ 32) :
      set? (nat? 32) (addressesToJson set) = some set := set?_ofList small
  rw [toJson, ofJson?, fields?_record (by simp)]
  simp [entries, LabelTable.ofJson?_toJson fits.labels, entrypoints, addresses fits.branches,
    addresses fits.subroutines, addresses fits.reentryPoints, addresses fits.tableAddresses,
    addresses fits.jumpTableDestinations, diagnostics]

theorem ofDocument_toDocument (fits : script.Fits) :
    ofDocument script.toDocument = .ok script := by
  rw [ofDocument, toDocument, parse?_toPretty (isSound_toJson fits 0), Option.bind_some,
    ofJson?_toJson fits]

theorem ofDocument_toCompactDocument (fits : script.Fits) :
    ofDocument script.toCompactDocument = .ok script := by
  rw [ofDocument, toCompactDocument, parse?_toCompact (isSound_toJson fits 0), Option.bind_some,
    ofJson?_toJson fits]

end Script

end EventScript
