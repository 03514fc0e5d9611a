/-
Catalogues are read back from their documents, whatever texts they hold, if every
method has a name; and otherwise the first method without one is reported
(`Catalogue.reread`).

What is written of each part has a meaning and is read as what it was, as with
scripts; but a catalogue holds no numbers, so nothing is asked of it. The names of
branch kinds are read in either case and written in one.
-/
import EventScript.Document.Catalogue
import EventScript.Proofs.Parsing
import EventScript.Proofs.Records

namespace EventScript

open Json

theorem BranchKind.ofName?_name (kind : BranchKind) : ofName? kind.name = some kind := by
  cases kind <;> decide +kernel

/-! ## What is written is read -/

namespace Parameter

theorem isSound_toJson (p : Parameter) (room : Nat) : p.toJson.isSound (room + 1) = true :=
  isSound_record (by simp)

theorem ofJson?_toJson (p : Parameter) : ofJson? p.toJson = some p := by
  rw [toJson, ofJson?, fields?_record (by simp)]
  simp [BranchKind.ofName?_name]

end Parameter

namespace Method

theorem isSound_toJson (m : Method) (room : Nat) : m.toJson.isSound (room + 3) = true := by
  have parameters : (Json.ofList Parameter.toJson m.parameters).isSound (room + 2) = true :=
    isSound_ofList fun p _ => p.isSound_toJson room
  exact isSound_record (by simp [parameters])

theorem ofJson?_toJson (m : Method) : ofJson? m.toJson = some m := by
  have parameters : list? Parameter.ofJson? (Json.ofList Parameter.toJson m.parameters) =
      some m.parameters :=
    list?_ofList_self fun p _ => p.ofJson?_toJson
  rw [toJson, ofJson?, fields?_record (by simp)]
  simp [parameters]

end Method

namespace Catalogue

variable (catalogue : Catalogue)

theorem isSound_toJson (room : Nat) : catalogue.toJson.isSound (room + 5) = true := by
  refine isSound_record ?_
  simp only [List.forall_mem_cons, List.not_mem_nil, false_imp_iff, implies_true, and_true]
  refine ⟨isSound_ofList fun method _ => method.isSound_toJson room,
    isSound_record fun field mem => ?_⟩
  obtain ⟨⟨name, symbols⟩, -, rfl⟩ := List.mem_map.mp mem
  exact isSound_ofList fun symbol _ => isSound_ofText symbol _

theorem ofJson?_toJson : ofJson? catalogue.toJson = some catalogue := by
  have methods : list? Method.ofJson? (Json.ofList Method.toJson catalogue.methods) =
      some catalogue.methods :=
    list?_ofList_self fun method _ => method.ofJson?_toJson
  have enums : pairs? unescape? (list? text?) (record (catalogue.enums.toList.map
      fun p => (p.1, Json.ofList ofText p.2))) =
        some catalogue.enums.toList :=
    @pairs?_record _ _ unescape? (list? text?) id (Json.ofList ofText) _
      (fun p _ => unescape?_escape p.1)
      fun p _ => list?_ofList_self fun symbol _ => text?_ofText symbol
  rw [toJson, ofJson?, fields?_record (by simp)]
  simp [methods, enums, ofList_toList]

/-- Whichever way a catalogue is written, what is read of it has to be valid. -/
theorem ofDocument_written {document : String}
    (written : document = catalogue.toJson.toPretty ∨ document = catalogue.toJson.toCompact) :
    ofDocument document = catalogue.validate := by
  have parsed : Json.parse? document = some catalogue.toJson := by
    rcases written with rfl | rfl
    · exact parse?_toPretty (catalogue.isSound_toJson 0)
    · exact parse?_toCompact (catalogue.isSound_toJson 0)
  rw [ofDocument, ofParsed, parsed, Option.bind_some, ofJson?_toJson]

/-! ## Nameless methods -/

/-- The method at an index is the first without a name. -/
structure FirstNameless (index : Nat) : Prop where
  nameless : ∃ method, catalogue.methods[index]? = some method ∧ method.name = ""
  named : ∀ i < index, ∀ method, catalogue.methods[i]? = some method → method.name ≠ ""

theorem validate_named (named : ∀ method ∈ catalogue.methods, method.name ≠ "") :
    catalogue.validate = .ok catalogue := by
  have none : catalogue.methods.findIdx? (·.name.isEmpty) = none := by
    simpa [List.findIdx?_eq_none_iff] using named
  rw [validate, none]

theorem validate_nameless (nameless : ∃ method ∈ catalogue.methods, method.name = "") :
    ∃ index, catalogue.FirstNameless index ∧
      catalogue.validate = .error (.namelessMethod index) := by
  cases found : catalogue.methods.findIdx? (·.name.isEmpty) with
  | none =>
    obtain ⟨method, mem, empty⟩ := nameless
    have named := List.findIdx?_eq_none_iff.mp found method mem
    simp [empty] at named
  | some index =>
    obtain ⟨bound, empty, before⟩ := List.findIdx?_eq_some_iff_getElem.mp found
    refine ⟨index, ⟨⟨_, List.getElem?_eq_getElem bound, by simpa using empty⟩, ?_⟩, ?_⟩
    · intro i lt method at_i
      obtain ⟨_, rfl⟩ := List.getElem?_eq_some_iff.mp at_i
      simpa using before i lt
    · rw [validate, found]

/-- **A catalogue is read back from its documents**, whether they are laid out over
lines or stand on one, if every method has a name; and otherwise reading fails and
names the first that has none. -/
theorem reread {document : String}
    (written : document = catalogue.toJson.toPretty ∨ document = catalogue.toJson.toCompact) :
    ((∀ method ∈ catalogue.methods, method.name ≠ "") → ofDocument document = .ok catalogue) ∧
      ((∃ method ∈ catalogue.methods, method.name = "") →
        ∃ index, catalogue.FirstNameless index ∧
          ofDocument document = .error (.namelessMethod index) ∧
          (Fault.namelessMethod index).message =
            "Invalid metadata: method " ++ Text.decimal index ++ " has no name") := by
  rw [catalogue.ofDocument_written written]
  refine ⟨catalogue.validate_named, fun nameless => ?_⟩
  obtain ⟨index, first, failed⟩ := catalogue.validate_nameless nameless
  exact ⟨index, first, failed, rfl⟩

/-- A catalogue of odd texts, with a parameter of each kind. -/
def assorted : Catalogue where
  methods := [
    { name := " ", description := "\"\\\n", parameters := BranchKind.all.map fun branch =>
        { direction := "", type := "STRING", name := "\t😀", branch } },
    { name := "方向" }]
  enums := .ofList [("", []), ("方向", ["北", "\x00"])]

/-- The same with two methods more, which have no names. -/
def assortedNameless : Catalogue :=
  { assorted with methods := assorted.methods ++ [{ name := "" }, { name := "" }] }

theorem reread_assorted :
    (∀ method ∈ assorted.methods, method.name ≠ "") ∧
      ofDocument assorted.toDocument = .ok assorted ∧
      (∃ method ∈ assortedNameless.methods, method.name = "") ∧
      ofDocument assortedNameless.toJson.toCompact = .error (.namelessMethod 2) := by
  have named : ∀ method ∈ assorted.methods, method.name ≠ "" := by decide
  have nameless : ∃ method ∈ assortedNameless.methods, method.name = "" := by decide
  obtain ⟨index, first, failed, -⟩ := (assortedNameless.reread (.inr rfl)).2 nameless
  obtain ⟨method, at_index, empty⟩ := first.nameless
  have least : index = 2 := by
    rcases Nat.lt_trichotomy index 2 with before | same | behind
    · have others : ∀ i < 2, ∀ method ∈ assortedNameless.methods[i]?, method.name ≠ "" := by decide
      exact absurd empty (others index before method at_index)
    · exact same
    · exact absurd rfl (first.named 2 behind _ rfl)
  exact ⟨named, (assorted.reread (.inl rfl)).1 named, nameless, least ▸ failed⟩

end Catalogue
end EventScript
