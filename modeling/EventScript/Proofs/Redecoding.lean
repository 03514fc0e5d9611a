/-
Decoding what was assembled. An image tells an instruction by its words alone:
the header says how many operands follow, and the first word of each how wide
it is (`Image.outline?`). The model of an instruction says the same by what it
recorded (`Instruction.outline`), and assembly writes what was recorded.

The two agree but for one case. An operand that leads outside the image gives
way to a zero immediate and keeps all its words, and a zero immediate is one
word wide; so behind an operand of two words that was replaced, the assembled
words are cut elsewhere (`Operand.isPadded`).
-/
import EventScript.Proofs.Grounds
import EventScript.Proofs.RoundTrip

namespace EventScript

/-! ## Outlines -/

/-- Where the parts of an instruction stand, in slots. -/
structure Outline where
  header : Header
  /-- Where each operand begins. -/
  operands : List Nat
  /-- The slot behind the last operand. -/
  next : Nat
  deriving DecidableEq

namespace Image

/-- Where `count` operands begin that stand one behind the other from slot `n`
on, each as wide as its first word says, and the slot behind them. -/
def places? (image : Image) : (count n : Nat) → Option (List Nat × Nat)
  | 0, n => some ([], n)
  | count + 1, n => do
    let first ← image[n]?
    let (places, next) ← image.places? count (n + (Mode.ofWord first).width first)
    some (n :: places, next)

/-- The outline of the instruction that stands at slot `n`. -/
def outline? (image : Image) (n : Nat) : Option Outline := do
  let header ← image.headerAt? (4 * n)
  let (operands, next) ← image.places? header.operandCount (n + 1)
  some ⟨header, operands, next⟩

end Image

/-- Where the operands of a model say they begin. -/
def Operand.slots (operands : List Operand) : List Nat := operands.map fun o => o.address / 4

/-- The header of an instruction. -/
def Instruction.header (decoded : Instruction) : Header :=
  ⟨decoded.opcode, decoded.operands.length, decoded.parameter⟩

/-- The outline a model has of an instruction. -/
def Instruction.outline (decoded : Instruction) : Outline :=
  ⟨decoded.header, Operand.slots decoded.operands, decoded.address / 4 + decoded.width⟩

/-- Whether an operand keeps more words than a decoder will take for it: it was
two words wide, led outside the image, and is a zero immediate now. -/
def Operand.isPadded (operand : Operand) : Bool :=
  operand.mode = .immediate && operand.width = 2

/-- The first operand begins where the decoder stands. -/
theorem Image.head?_places? {image : Image} {count n next : Nat} {places : List Nat}
    (h : image.places? (count + 1) n = some (places, next)) : places.head? = some n := by
  rw [Image.places?] at h
  obtain ⟨first, -, h⟩ := Option.bind_eq_some_iff.mp h
  obtain ⟨found, -, h⟩ := Option.bind_eq_some_iff.mp h
  cases h
  rfl

/-! ## Operands as they are assembled -/

theorem Mode.width_of_isInline {mode : Mode} (inline : mode.isInline = true) (first : Word) :
    mode.width first = 1 ∨ mode.width first = 2 := by
  cases mode <;> first | exact .inl rfl | exact .inr rfl | cases inline

theorem operandWords_eq {operands : List Operand} {words : List Word}
    (h : operandWords operands = .ok words) : words = operands.flatMap Operand.rawWords := by
  induction operands generalizing words with
  | nil =>
    cases h
    rfl
  | cons operand rest ih =>
    rw [operandWords, List.mapM_cons] at h
    cases first : operand.words with
    | error fault =>
      rw [first] at h
      cases h
    | ok own =>
      have supported : own = operand.rawWords := by
        rw [Operand.words] at first
        split at first
        · cases first
          rfl
        · cases first
      cases others : rest.mapM Operand.words with
      | error fault =>
        rw [first, others] at h
        cases h
      | ok lists =>
        rw [first, others] at h
        cases h
        have more : lists.flatten = rest.flatMap Operand.rawWords := by
          refine ih ?_
          rw [operandWords, others]
          rfl
        rw [List.flatMap_cons, ← more, supported]
        rfl

theorem Operand.isPadded_iff {operand : Operand} :
    operand.isPadded = true ↔ operand.mode = .immediate ∧ operand.width = 2 := by
  rw [isPadded, Bool.and_eq_true, decide_eq_true_eq, decide_eq_true_eq]

namespace Recovery

/-- **The first word of an operand tells how wide it is**, unless the operand is
padded: then it tells of one word, and it was noted why. -/
theorem Read.told {image : Image} {diagnostics : List Diagnostic} {header cursor : Nat}
    {operand : Operand} (h : Read image diagnostics header cursor operand) :
    ∃ first, operand.rawWords[0]? = some first ∧
      (operand.isPadded = false ∧ (Mode.ofWord first).width first = operand.width ∨
        operand.isPadded = true ∧ (Mode.ofWord first).width first = 1 ∧
          ∃ destination, ⟨operand.address, .pointerOutOfRange destination⟩ ∈ diagnostics) := by
  cases h with
  | @kept first label word supported inside near =>
    obtain ⟨rest, words⟩ := wordsOfOperand_cons word
    have width : (wordsOfOperand image cursor first).length = (Mode.ofWord first).width first :=
      length_wordsOfOperand inside
    refine ⟨first, by simp only [words]; rfl, .inl ⟨?_, width.symm⟩⟩
    rw [← Bool.not_eq_true, Operand.isPadded_iff, Operand.width, width]
    rintro ⟨immediate, two⟩
    rw [show Mode.ofWord first = .immediate from immediate] at two
    cases two
  | @zeroed first target word inside resolved astray noted =>
    obtain ⟨rest, words⟩ := wordsOfOperand_cons word
    have width : (Operand.zeroed cursor (wordsOfOperand image cursor first)).width =
        (Mode.ofWord first).width first := by
      rw [Operand.width, Operand.zeroed, List.length_modifyHead, length_wordsOfOperand inside]
    refine ⟨0, by simp only [Operand.zeroed, words]; rfl, ?_⟩
    rcases Mode.width_of_isInline astray.1 first with one | two
    · refine .inl ⟨?_, by rw [width, one]; rfl⟩
      rw [← Bool.not_eq_true, Operand.isPadded_iff, width, one]
      exact fun both => absurd both.2 (by decide)
    · exact .inr ⟨Operand.isPadded_iff.mpr ⟨rfl, width.trans two⟩, rfl, target, noted⟩

theorem ReadAll.take {image : Image} {diagnostics : List Diagnostic} {header cursor : Nat}
    {operands : List Operand} (h : ReadAll image diagnostics header cursor operands) (k : Nat) :
    ReadAll image diagnostics header cursor (operands.take k) := by
  induction h generalizing k with
  | nil =>
    rw [List.take_nil]
    exact .nil
  | cons read _ ih =>
    cases k with
    | zero => exact .nil
    | succ k => exact .cons read (ih k)

end Recovery

/-- The words from slot `n` on are the given ones. -/
def Image.Holds (image : Image) (n : Nat) (words : List Word) : Prop :=
  ∀ k w, words[k]? = some w → image[n + k]? = some w

theorem Image.Holds.left {image : Image} {n : Nat} {words more : List Word}
    (h : image.Holds n (words ++ more)) : image.Holds n words := by
  intro k w at_k
  refine h k w ?_
  rwa [List.getElem?_append_left (List.getElem?_eq_some_iff.mp at_k).1]

theorem Image.Holds.right {image : Image} {n : Nat} {words more : List Word}
    (h : image.Holds n (words ++ more)) : image.Holds (n + words.length) more := by
  intro k w at_k
  rw [Nat.add_assoc]
  refine h _ w ?_
  rwa [List.getElem?_append_right (by omega), Nat.add_sub_cancel_left]

namespace Recovery

/-- **Operands are found where they say**, in any image that holds their words,
exactly if none of them is padded. -/
theorem ReadAll.places_iff {image out : Image} {diagnostics : List Diagnostic}
    {header cursor n : Nat} {operands : List Operand}
    (h : ReadAll image diagnostics header cursor operands) (slot : cursor = 4 * n)
    (holds : out.Holds n (operands.flatMap Operand.rawWords)) :
    out.places? operands.length n =
        some (Operand.slots operands, n + Operand.widthOfAll operands) ↔
      ∀ operand ∈ operands, operand.isPadded = false := by
  induction h generalizing n with
  | nil => simp [Image.places?, Operand.slots, Operand.widthOfAll]
  | @cons cursor operand rest read others ih =>
    have here : operand.address / 4 = n := by
      rw [read.address]
      omega
    rw [List.flatMap_cons] at holds
    obtain ⟨first, front, told⟩ := read.told
    have word : out[n]? = some first := holds.left 0 first front
    have slots : Operand.slots (operand :: rest) = n :: Operand.slots rest := by
      rw [← here]
      rfl
    rw [List.length_cons, Image.places?, word, List.forall_mem_cons, slots]
    simp only [Option.bind_eq_bind, Option.bind_some, Operand.widthOfAll]
    rcases told with ⟨plain, width⟩ | ⟨padded, width, -⟩
    · -- The decoder goes on where the model does.
      have goesOn := ih (n := n + operand.width) (by omega) holds.right
      rw [width, ← Nat.add_assoc, ← goesOn]
      cases places : out.places? rest.length (n + operand.width) with
      | none => simp
      | some found => simp [plain, Prod.ext_iff]
    · -- The decoder takes the second word of the operand for the next operand.
      have two := (Operand.isPadded_iff.mp padded).2
      rw [width]
      simp only [padded, Bool.true_eq_false, false_and, iff_false]
      cases others with
      | nil =>
        simp [Image.places?, Operand.widthOfAll, Operand.slots, two]
      | cons next _ =>
        intro found
        obtain ⟨⟨places, behind⟩, there, eq⟩ := Option.bind_eq_some_iff.mp found
        cases eq
        have place := Image.head?_places? there
        simp only [List.head?_cons, Option.some.injEq, next.address] at place
        omega

/-! ## Instructions as they are assembled -/

/-- **Assembly puts the words of an entry into its own slots.** -/
theorem Recovered.assembleFrom_own {image : Image} {script : Script} (h : Recovered image script)
    (balanced : Balanced image script) {n m w : Nat} {e : Entry} {words : List Word} (le : n ≤ m)
    (boundary : Boundary script.entries n) (assembled : script.assembleFrom n = .ok words)
    (here : script.entries[m]? = some e) (width : e.width? = some w) :
    ∃ own, script.entryWords (4 * m) e = .ok own ∧
      ∀ k v, own[k]? = some v → words[m - n + k]? = some v := by
  have inside := (Array.getElem?_eq_some_iff.mp here).1
  obtain ⟨first, wide, at_n, known, pos, fits⟩ := boundary.head h.explored.laid (by omega)
  obtain ⟨own, written, length, -⟩ := h.entryWords balanced at_n known
  have next : Boundary script.entries (n + wide) :=
    boundary.next h.explored.laid h.sealed at_n known
  obtain ⟨more, rest, -⟩ := h.assembleFrom balanced fits next
  rw [Script.assembleFrom_step at_n known pos fits written rest] at assembled
  cases assembled
  by_cases eq : m = n
  · subst eq
    rw [here] at at_n
    cases at_n
    refine ⟨own, written, fun k v at_k => ?_⟩
    rw [Nat.sub_self, Nat.zero_add,
      List.getElem?_append_left (List.getElem?_eq_some_iff.mp at_k).1, at_k]
  · -- No other run begins inside the one at `n`.
    have behind : n + wide ≤ m := by
      refine Nat.not_lt.mp fun within => ?_
      rw [h.sealed.width?_eq_none h.explored.laid at_n known (by omega) within here] at width
      cases width
    obtain ⟨later, said, there⟩ := h.assembleFrom_own balanced behind next rest here width
    refine ⟨later, said, fun k v at_k => ?_⟩
    rw [List.getElem?_append_right (by omega), length,
      show m - n + k - wide = m - (n + wide) + k by omega]
    exact there k v at_k
termination_by m - n

/-- The words of an instruction stand where the instruction does. -/
theorem Recovered.holds_instruction {image out : Image} {script : Script}
    (h : Recovered image script) (balanced : Balanced image script)
    (assembled : script.assemble = .ok out) {n : Nat} {decoded : Instruction}
    (at_n : script.entries[n]? = some (.instruction decoded)) :
    out.Holds n (decoded.header.encode :: decoded.operands.flatMap Operand.rawWords) := by
  rw [Script.assemble] at assembled
  cases known : script.assembleFrom 0 with
  | error fault =>
    rw [known] at assembled
    cases assembled
  | ok words =>
    rw [known] at assembled
    cases assembled
    obtain ⟨own, written, there⟩ :=
      h.assembleFrom_own balanced (Nat.zero_le n) (Boundary.zero _) known at_n rfl
    rw [Script.entryWords, Instruction.words] at written
    cases behind : operandWords decoded.operands with
    | error fault =>
      rw [behind] at written
      cases written
    | ok rest =>
      rw [behind] at written
      cases written
      cases operandWords_eq behind
      intro k w at_k
      rw [List.getElem?_toArray]
      exact there k w at_k

end Recovery

/-- What the assembled image `out` tells of the instruction at slot `n`. -/
structure Redecodes (script : Script) (out : Image) (n : Nat) (decoded : Instruction) : Prop where
  header : out.headerAt? (4 * n) = some decoded.header
  /-- The image tells what the model does, unless an operand is padded. -/
  outline : out.outline? n = some decoded.outline ↔
    ∀ operand ∈ decoded.operands, operand.isPadded = false
  /-- Up to the first padded operand it does in any case. -/
  front : ∀ {k : Nat}, k ≤ decoded.operands.length →
    (∀ operand ∈ decoded.operands.take k, operand.isPadded = false) →
    out.places? k (n + 1) = some (Operand.slots (decoded.operands.take k),
      n + 1 + Operand.widthOfAll (decoded.operands.take k))
  /-- A padded operand was replaced because it leads outside the image. -/
  padded : ∀ operand ∈ decoded.operands, operand.isPadded = true →
    ∃ destination, ⟨operand.address, .pointerOutOfRange destination⟩ ∈ script.diagnostics

namespace Recovery

/-- **Assembled code decodes to the same instructions**: the same header always,
and the same operands in the same places exactly if none of them is padded. -/
theorem disassemble_redecodes {catalogue : Catalogue} {options : Options} {image out : Image}
    {script : Script} (h : disassemble catalogue options image = .ok script)
    (assembled : script.assemble = .ok out) {n : Nat} {decoded : Instruction}
    (at_n : script.entries[n]? = some (.instruction decoded)) :
    Redecodes script out n decoded := by
  have recovered := disassemble_recovered h
  have balanced := (disassemble_moves h).balanced (.blank image) (.blank image image.size)
  have home : decoded.address = 4 * n := recovered.explored.laid.home at_n rfl
  obtain ⟨headed, read⟩ := recovered.explored.faithful at_n
  have holds := recovered.holds_instruction balanced assembled at_n
  have word : out[n]? = some decoded.header.encode := holds 0 _ rfl
  have behind : out.Holds (n + 1) (decoded.operands.flatMap Operand.rawWords) :=
    @Image.Holds.right out n [decoded.header.encode] _ holds
  have header : out.headerAt? (4 * n) = some decoded.header := by
    rw [Image.headerAt?, if_pos (by omega), show 4 * n / 4 = n by omega, word]
    have same : decoded.header.encode = image.wordAt decoded.address := headed.word
    obtain ⟨found, decodes, opcode, parameter, count⟩ := headed
    rw [Option.bind_some, same, decodes, Instruction.header, opcode, parameter, count]
  have slot : decoded.address + 4 = 4 * (n + 1) := by omega
  refine ⟨header, ?_, ?_, ?_⟩
  · rw [← read.places_iff slot behind, Image.outline?, header]
    have next : decoded.address / 4 + decoded.width =
        n + 1 + Operand.widthOfAll decoded.operands := by
      rw [Instruction.width]
      omega
    cases places : out.places? decoded.operands.length (n + 1) with
    | none => simp [Instruction.header, places]
    | some found =>
      simp [Instruction.header, Instruction.outline, places, next, Prod.ext_iff]
  · intro k le plain
    have own : out.Holds (n + 1) ((decoded.operands.take k).flatMap Operand.rawWords) := by
      rw [← List.take_append_drop k decoded.operands, List.flatMap_append] at behind
      exact behind.left
    have front := (read.take k).places_iff slot own
    rw [List.length_take, Nat.min_eq_left le] at front
    exact front.mpr plain
  · intro operand mem padded
    obtain ⟨place, found⟩ := read.mem mem
    obtain ⟨first, -, ⟨plain, -⟩ | ⟨-, -, noted⟩⟩ := found.told
    · rw [plain] at padded
      cases padded
    · exact noted

theorem disassemble_redecodes_sample :
    ∃ script out decoded, disassemble sampleCatalogue {} sampleImage = .ok script ∧
      script.assemble = .ok out ∧ script.entries[8]? = some (.instruction decoded) ∧
      Redecodes script out 8 decoded := by
  obtain ⟨script, h, assembles, at_eight⟩ := disassemble_within_holds sampleCatalogue {}
    sampleImage 8 (fun script => script.assemble.isOk = true ∧
      script.entries[8]? = some (.instruction sampleCut)) (by decide +kernel)
  cases assembled : script.assemble with
  | error fault => simp [assembled, Except.isOk, Except.toBool] at assembles
  | ok out =>
    exact ⟨script, out, _, h, assembled, at_eight, disassemble_redecodes h assembled at_eight⟩

/-- An entry point; a move whose source goes through a table outside the image;
a return. -/
def paddedImage : Image := #[0x4, 0x208, 0x0c000100, 0x102, 0x02000001, 0x49]

/-- The move as it is recovered, its source replaced by a zero. -/
def paddedMove : Instruction :=
  ⟨4, .mov, 0, [⟨8, .immediate, [0, 0x102], some 0, none⟩,
    ⟨16, .storage, [0x02000001], none, none⟩]⟩

/-- Behind an operand that was replaced, the assembled words are cut elsewhere. -/
theorem padded_operand_cut_elsewhere :
    ∃ script out decoded, disassemble {} {} paddedImage = .ok script ∧
      script.assemble = .ok out ∧ script.entries[1]? = some (.instruction decoded) ∧
      out.outline? 1 ≠ some decoded.outline := by
  obtain ⟨script, h, at_one, cut⟩ := disassemble_within_holds {} {} paddedImage 4
    (fun script => script.entries[1]? = some (.instruction paddedMove) ∧
      (script.assemble.toOption.any fun out => out.outline? 1 ≠ some paddedMove.outline) = true)
    (by decide +kernel)
  cases assembled : script.assemble with
  | error fault => simp [assembled, Except.toOption] at cut
  | ok out =>
    have elsewhere : out.outline? 1 ≠ some paddedMove.outline := by
      simpa [assembled, Except.toOption] using cut
    exact ⟨script, out, paddedMove, h, assembled, at_one, elsewhere⟩

end Recovery
end EventScript
