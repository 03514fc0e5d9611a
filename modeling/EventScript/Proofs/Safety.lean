/-
What a recovery can answer. It never leaves the numbers of a machine, and it
fails only as its documentation says: at a call the catalogue does not know, and
at a branch table without an entry. Bytes fail in one more way, if they do not
come in whole words.

Whatever halts exploration is a step that could not be taken (`Halts`), so it is
enough to know what fails there.
-/
import EventScript.Proofs.Bounded
import EventScript.Proofs.InRange

namespace EventScript

namespace Recovery

/-! ## Where exploration halts -/

/-- The documented faults of a recovery. -/
inductive Documented (catalogue : Catalogue) (image : Image) : Fault → Prop
  /-- A header in the image calls a method the catalogue does not have. -/
  | unknownCall {address : Nat} {header : Header} (aligned : address % 4 = 0)
      (inside : address < image.byteLength)
      (decodes : Header.decode (image.wordAt address) = some header)
      (call : header.opcode = .call)
      (unknown : catalogue.methods.length ≤ header.parameter.toNat) :
      Documented catalogue image (.unknownCall header.parameter address)
  /-- A branch table has no entry. -/
  | emptyTable (address : Nat) : Documented catalogue image (.emptyTable address)

variable {setting : Setting}

theorem probeTable_halts {address : Nat} {kind : TableKind} {role : Role} {s : Session}
    {halt : Halt} (h : probeTable setting address kind role s = .error halt) :
    halt.fault = .emptyTable address := by
  rw [probeTable] at h
  split at h
  · cases h
  simp only at h
  split at h
  · cases h
    rfl
  · cases h

theorem followOperand_halts {opcode : Opcode} {operand : Operand} {parameter : Option Parameter}
    {s : Session} {halt : Halt}
    (h : followOperand setting opcode operand parameter s = .error halt) :
    ∃ address, halt.fault = .emptyTable address := by
  rw [followOperand] at h
  split at h
  · cases h
  simp only at h
  split at h
  · cases h
  split at h
  · split at h
    · exact ⟨_, probeTable_halts h⟩
    · cases h
  · split at h <;> cases h

theorem followOperands_halts {opcode : Opcode} {operands : List Operand}
    {parameters : List Parameter} {s : Session} {halt : Halt}
    (h : followOperands setting opcode operands parameters s = .error halt) :
    ∃ address, halt.fault = .emptyTable address := by
  induction operands generalizing parameters s with
  | nil => cases h
  | cons operand rest ih =>
    rw [followOperands] at h
    split at h
    · rename_i halted
      cases h
      exact followOperand_halts halted
    · exact ih h

theorem transferTable_halts {instruction : Instruction} {role : Role} {s : Session} {halt : Halt}
    (h : transferTable setting instruction role s = .error halt) :
    ∃ address, halt.fault = .emptyTable address := by
  rw [transferTable] at h
  split at h
  · cases h
  split at h
  · cases h
  split at h
  · cases h
  · exact ⟨_, probeTable_halts h⟩

theorem transfer_halts {instruction : Instruction} {next : Nat} {s : Session} {halt : Halt}
    (h : transfer setting instruction next s = .error halt) :
    ∃ address, halt.fault = .emptyTable address := by
  have table : ∀ {role : Role} {flow : Flow},
      (transferTable setting instruction role s).map (flow, ·) = .error halt →
        ∃ address, halt.fault = .emptyTable address := by
    intro role flow mapped
    cases scanned : transferTable setting instruction role s with
    | error halt =>
      rw [scanned] at mapped
      cases mapped
      exact transferTable_halts scanned
    | ok t =>
      rw [scanned] at mapped
      cases mapped
  rw [transfer] at h
  simp only at h
  split at h
  · split at h <;> cases h
  · split at h <;> cases h
  · split at h <;> cases h
  · split at h <;> cases h
  · exact table h
  · exact table h
  all_goals cases h

theorem takeInstruction_halts {read : Instruction} {next : Nat} {s : Session} {halt : Halt}
    (h : takeInstruction setting read next s = .error halt) :
    ∃ address, halt.fault = .emptyTable address := by
  rw [takeInstruction] at h
  simp only at h
  split at h
  · rename_i halted
    cases h
    exact followOperands_halts halted
  · exact transfer_halts h

theorem readInstruction_halts {cursor : Nat} {s : Session} {halt : Halt}
    (inside : cursor / 4 < setting.image.size) (free : s.script.entryAt? cursor = some .unset)
    (h : readInstruction setting cursor s = .error halt) :
    Documented setting.catalogue setting.image halt.fault := by
  have aligned := (Script.entryAt?_eq_some free).1
  rw [readInstruction] at h
  simp only at h
  split at h
  · cases h
  rename_i header decodes
  split at h
  · rename_i unknown
    cases h
    refine .unknownCall (by omega) ?_ decodes unknown.1 ?_
    · rw [Image.byteLength]
      omega
    · exact List.getElem?_eq_none_iff.mp (Option.isNone_iff_eq_none.mp unknown.2)
  · split at h <;> cases h

/-- Wherever exploration halts, its fault is documented. -/
theorem Halts.documented {p : Point} {halt : Halt} (h : Halts setting p halt) :
    Documented setting.catalogue setting.image halt.fault := by
  cases h with
  | table _ halted =>
    rw [probeTable_halts halted]
    exact .emptyTable _
  | read inside free halted => exact readInstruction_halts inside free halted
  | taken _ _ _ halted =>
    obtain ⟨address, eq⟩ := takeInstruction_halts halted
    rw [eq]
    exact .emptyTable _

/-! ## Whole recoveries -/

theorem disassemble_documented {catalogue : Catalogue} {options : Options} {image : Image}
    {fault : Fault} (h : disassemble catalogue options image = .error fault) :
    Documented catalogue image fault := by
  have nothing : Exploring ⟨image, catalogue, options⟩ {} fun _ => True :=
    ⟨trivial, fun _ _ => trivial, fun _ _ _ => trivial, fun _ _ => trivial⟩
  rw [disassemble, recover] at h
  cases answer : explore ⟨image, catalogue, options⟩ {} with
  | error halt =>
    rw [answer] at h
    cases h
    obtain ⟨_, _, _, _, _, halts⟩ := nothing.halted answer
    exact halts.documented
  | ok s =>
    rw [answer] at h
    cases h

theorem disassembleBytes_eq (catalogue : Catalogue) (options : Options) (bytes : List UInt8) :
    disassembleBytes catalogue options bytes =
      if bytes.length % 4 = 0 then
        disassemble catalogue options (Image.wordsOfBytes bytes).toArray
      else .error (.misalignedImage bytes.length) := by
  rw [disassembleBytes, Image.ofBytes]
  split <;> rfl

theorem disassembleBytes_misaligned_iff (catalogue : Catalogue) (options : Options)
    (bytes : List UInt8) (length : Nat) :
    disassembleBytes catalogue options bytes = .error (.misalignedImage length) ↔
      bytes.length % 4 ≠ 0 ∧ length = bytes.length := by
  rw [disassembleBytes_eq]
  split
  · rename_i whole
    refine ⟨fun h => ?_, fun h => absurd whole h.1⟩
    cases disassemble_documented h
  · rename_i odd
    refine ⟨fun h => ?_, fun h => h.2 ▸ rfl⟩
    cases h
    exact ⟨odd, rfl⟩

/-- **A recovery is safe.** On an image of fewer than `2 ^ 30` words, whatever the
catalogue and the extra branches, no check of the recovery in machine numbers
fails, and all it can fail with are the documented faults; bytes are rejected
exactly if they are no whole words. -/
theorem recovery_safe {catalogue : Catalogue} {options : Options} {image : Image}
    (small : image.size < 2 ^ 30) (lookahead : options.lookahead < 2 ^ 63)
    (search : options.searchWords + image.size < 2 ^ 64) :
    Checked.disassemble catalogue options image = some (disassemble catalogue options image) ∧
      (∀ fault, disassemble catalogue options image = .error fault →
        Documented catalogue image fault) ∧
      ∀ bytes length, disassembleBytes catalogue options bytes = .error (.misalignedImage length) ↔
        bytes.length % 4 ≠ 0 ∧ length = bytes.length :=
  ⟨disassemble_checked ⟨small, lookahead, search⟩, fun _ => disassemble_documented,
    disassembleBytes_misaligned_iff catalogue options⟩

/-- The sample is recovered in machine numbers, its call included; three bytes are rejected. -/
theorem recovery_safe_sample :
    ∃ script, disassemble sampleCatalogue {} sampleImage = .ok script ∧
      Checked.disassemble sampleCatalogue {} sampleImage = some (.ok script) ∧
      script.entries[10]? = some (.instruction sampleGosub) ∧
      disassembleBytes sampleCatalogue {} [4, 0, 0] = .error (.misalignedImage 3) := by
  obtain ⟨script, h, -, at_ten, -⟩ := sample_disassembles
  obtain ⟨checked, -, bytes⟩ :=
    @recovery_safe sampleCatalogue {} sampleImage (by decide) (by decide) (by decide)
  rw [h] at checked
  exact ⟨script, h, checked, at_ten, (bytes [4, 0, 0] 3).mpr (by decide)⟩

end Recovery
end EventScript
