/-
The round trip. Assembly goes over a script from entry to entry and writes what
each says; a recovered script says nothing but what stands in its image, so
assembly gives the image back. The one exception is noted: an inline pointer
that led outside the image was replaced by a zero when it was read.

Each kind of entry restores its own words (`Recovered.entryWords`). Instructions
and texts repeat what they were read from, entry points and tables name labels,
and labels stand where they were taken for (`Balanced`). The words follow each
other without gap because the runs do (`Boundary`).
-/
import Mathlib.Data.Nat.Bitwise
import EventScript.Assembly
import EventScript.Proofs.Accounting
import EventScript.Proofs.Classification

namespace EventScript

/-! ## Fields of a word -/

/-- Two fields of a word side by side, the low one of `width` bits. -/
theorem Word.lor_shiftLeft {low high width : Nat} (fits : low < 2 ^ width)
    (room : high * 2 ^ width < 2 ^ 32) :
    low ||| high <<< width % 2 ^ 32 = low + high * 2 ^ width := by
  rw [Nat.shiftLeft_eq, Nat.mod_eq_of_lt room, ← Nat.shiftLeft_eq, Nat.or_comm,
    ← Nat.shiftLeft_add_eq_or_of_lt fits, Nat.shiftLeft_eq, Nat.add_comm]

theorem Word.toNat_ofHalves (low high : UInt16) :
    (Word.ofHalves low high).toNat = low.toNat + high.toNat * 2 ^ 16 := by
  have := low.toNat_lt
  have := high.toNat_lt
  simp only [Word.ofHalves, UInt32.toNat_or, UInt32.toNat_shiftLeft, UInt16.toNat_toUInt32,
    UInt32.toNat_ofNat]
  rw [show 16 % 2 ^ 32 % 32 = 16 from rfl, Word.lor_shiftLeft (by omega) (by omega)]

theorem Word.ofHalves_low_high (w : Word) : Word.ofHalves w.low w.high = w := by
  have := w.toNat_lt
  apply UInt32.toNat_inj.mp
  simp only [Word.toNat_ofHalves, Word.low, Word.high, UInt32.toNat_toUInt16,
    UInt32.toNat_shiftRight, UInt32.toNat_ofNat, Nat.shiftRight_eq_div_pow, Nat.reduceMod,
    Nat.reducePow]
  omega

theorem Word.ofSigned_signed (w : Word) : Word.ofSigned w.signed = w := by
  have lt := w.toNat_lt
  have same : w.signed % ((4294967296 : Nat) : Int) = w.toNat % ((4294967296 : Nat) : Int) :=
    Int.bmod_emod
  have whole : (w.signed % 4294967296).toNat = w.toNat := by omega
  rw [Word.ofSigned, whole, UInt32.ofNat_toNat]

/-- The fields of a header word stand side by side; of the count the low eight bits. -/
theorem Header.toNat_pack (code : UInt8) (count : Nat) (parameter : UInt16) :
    (Header.pack code count parameter).toNat =
      code.toNat + count % 2 ^ 8 * 2 ^ 8 + parameter.toNat * 2 ^ 16 := by
  have := code.toNat_lt
  have := parameter.toNat_lt
  have := Nat.mod_lt count (show 2 ^ 8 > 0 by decide)
  simp only [Header.pack, UInt32.toNat_or, UInt32.toNat_shiftLeft, UInt16.toNat_toUInt32,
    UInt8.toNat_toUInt32, UInt8.toNat_ofNat', UInt32.toNat_ofNat]
  rw [show 8 % 2 ^ 32 % 32 = 8 from rfl, show 16 % 2 ^ 32 % 32 = 16 from rfl,
    @Word.lor_shiftLeft code.toNat _ 8 (by omega) (by omega),
    Word.lor_shiftLeft (by omega) (by omega)]

theorem Header.pack_fields (w : Word) :
    Header.pack (Header.codeOf w) (Header.countOf w) (Header.parameterOf w) = w := by
  have := w.toNat_lt
  apply UInt32.toNat_inj.mp
  simp only [Header.toNat_pack, Header.codeOf, Header.countOf, Header.parameterOf,
    UInt32.toNat_toUInt8, UInt32.toNat_toUInt16, UInt32.toNat_shiftRight, UInt32.toNat_ofNat,
    Nat.shiftRight_eq_div_pow, Nat.reduceMod, Nat.reducePow]
  omega

theorem Header.decode_fields {w : Word} {header : Header} (h : Header.decode w = some header) :
    header.opcode.code = Header.codeOf w ∧ header.operandCount = Header.countOf w ∧
      header.parameter = Header.parameterOf w := by
  rw [Header.decode] at h
  obtain ⟨opcode, found, h⟩ := Option.bind_eq_some_iff.mp h
  have code := List.find?_some found
  simp only [Option.ite_none_right_eq_some, Option.some.injEq] at h
  obtain ⟨-, rfl⟩ := h
  exact ⟨by simpa using code, rfl, rfl⟩

/-! ## Words that are restored -/

/-- The word `w` at slot `m` is that of the image, or a zero in the place of a
pointer that was noted to lead outside. -/
def Restores (image : Image) (diagnostics : List Diagnostic) (m : Nat) (w : Word) : Prop :=
  w = image.wordAt (4 * m) ∨
    w = 0 ∧ ∃ destination, ⟨4 * m, .pointerOutOfRange destination⟩ ∈ diagnostics

/-- The words from slot `n` on are restored. -/
def Restored (image : Image) (diagnostics : List Diagnostic) (n : Nat) (words : List Word) :
    Prop :=
  ∀ k w, words[k]? = some w → Restores image diagnostics (n + k) w

namespace Restored

variable {image : Image} {diagnostics : List Diagnostic} {n : Nat}

theorem nil : Restored image diagnostics n [] := by
  simp [Restored]

theorem append {first rest : List Word} (h : Restored image diagnostics n first)
    (more : Restored image diagnostics (n + first.length) rest) :
    Restored image diagnostics n (first ++ rest) := by
  intro k w at_k
  by_cases inFirst : k < first.length
  · rw [List.getElem?_append_left inFirst] at at_k
    exact h k w at_k
  · rw [List.getElem?_append_right (by omega)] at at_k
    have := more (k - first.length) w at_k
    rwa [show n + first.length + (k - first.length) = n + k by omega] at this

/-- Words taken from the image. -/
theorem of_words {words : List Word}
    (h : ∀ k w, words[k]? = some w → w = image.wordAt (4 * (n + k))) :
    Restored image diagnostics n words :=
  fun k w at_k => .inl (h k w at_k)

theorem single {w : Word} (h : w = image.wordAt (4 * n)) :
    Restored image diagnostics n [w] := by
  refine of_words fun k other at_k => ?_
  cases k with
  | zero =>
    cases at_k
    exact h
  | succ k => cases at_k

end Restored

/-! ## Instructions -/

theorem operandWords_cons {operand : Operand} {rest : List Operand} {words more : List Word}
    (h : operand.words = .ok words) (k : operandWords rest = .ok more) :
    operandWords (operand :: rest) = .ok (words ++ more) := by
  rw [operandWords] at k ⊢
  rw [List.mapM_cons, h]
  cases others : rest.mapM Operand.words with
  | error fault =>
    rw [others] at k
    cases k
  | ok lists =>
    rw [others] at k
    cases k
    rfl

namespace Recovery

theorem getElem?_wordsOfOperand {image : Image} {cursor k : Nat} {first w : Word}
    (h : (wordsOfOperand image cursor first)[k]? = some w) :
    w = image.wordAt (4 * (cursor / 4 + k)) := by
  rw [wordsOfOperand, Array.getElem?_toList, Array.getElem?_extract] at h
  split at h
  · rw [Image.wordAt, show 4 * (cursor / 4 + k) / 4 = cursor / 4 + k by omega, h]
    rfl
  · cases h

/-- An operand restores the words it was read from. -/
theorem Read.restored {image : Image} {diagnostics : List Diagnostic} {header cursor : Nat}
    {operand : Operand} (h : Read image diagnostics header cursor operand)
    (aligned : cursor % 4 = 0) :
    operand.words = .ok operand.rawWords ∧
      Restored image diagnostics (cursor / 4) operand.rawWords := by
  cases h with
  | kept word supported =>
    exact ⟨if_pos supported, .of_words fun k w at_k => getElem?_wordsOfOperand at_k⟩
  | @zeroed first target word inside resolved astray noted =>
    refine ⟨rfl, fun k w at_k => ?_⟩
    simp only [Operand.zeroed] at at_k
    cases words : wordsOfOperand image cursor first with
    | nil =>
      rw [words] at at_k
      cases at_k
    | cons head tail =>
      rw [words] at at_k
      cases k with
      | zero =>
        cases at_k
        refine .inr ⟨rfl, target, ?_⟩
        rwa [Nat.add_zero, show 4 * (cursor / 4) = cursor by omega]
      | succ k =>
        have there : (wordsOfOperand image cursor first)[k + 1]? = some w := by
          rw [words]
          exact at_k
        exact .inl (getElem?_wordsOfOperand there)

theorem ReadAll.restored {image : Image} {diagnostics : List Diagnostic} {header cursor : Nat}
    {operands : List Operand} (h : ReadAll image diagnostics header cursor operands)
    (aligned : cursor % 4 = 0) :
    ∃ words, operandWords operands = .ok words ∧ words.length = Operand.widthOfAll operands ∧
      Restored image diagnostics (cursor / 4) words := by
  induction h with
  | nil => exact ⟨[], rfl, rfl, .nil⟩
  | @cons cursor operand rest first _ ih =>
    obtain ⟨words, restored⟩ := first.restored aligned
    obtain ⟨more, known, length, others⟩ := ih (by omega)
    refine ⟨operand.rawWords ++ more, operandWords_cons words known, ?_, restored.append ?_⟩
    · rw [List.length_append, length]
      rfl
    · rwa [show cursor / 4 + operand.rawWords.length = (cursor + 4 * operand.width) / 4 by
        simp only [Operand.width]; omega]

theorem Headed.word {image : Image} {decoded : Instruction} (h : Headed image decoded) :
    Header.pack decoded.opcode.code decoded.operands.length decoded.parameter =
      image.wordAt decoded.address := by
  obtain ⟨header, known, opcode, parameter, count⟩ := h
  obtain ⟨code, counted, param⟩ := Header.decode_fields known
  rw [opcode, code, count, counted, parameter, param, Header.pack_fields]

theorem instruction_words {image : Image} {diagnostics : List Diagnostic} {n : Nat}
    {decoded : Instruction} (home : decoded.address = 4 * n)
    (h : Faithful image diagnostics (.instruction decoded)) :
    ∃ words, decoded.words = .ok words ∧ words.length = decoded.width ∧
      Restored image diagnostics n words := by
  obtain ⟨headed, read⟩ := h
  obtain ⟨words, known, length, restored⟩ := read.restored (by omega)
  have header := headed.word
  rw [home] at header
  rw [show (decoded.address + 4) / 4 = n + 1 by omega] at restored
  refine ⟨_ :: words, by rw [Instruction.words, known]; rfl, ?_, ?_⟩
  · rw [List.length_cons, length, Instruction.width, Nat.add_comm]
  · exact (Restored.single header).append restored

/-! ## Texts and tables -/

theorem halfAt_even (image : Image) (address m : Nat) :
    image.halfAt address (2 * m) = (image.wordAt (address + 4 * m)).low := by
  simp only [Image.halfAt, show 2 * m / 2 = m by omega, show 2 * m % 2 = 0 by omega, if_true]

theorem halfAt_odd (image : Image) (address m : Nat) :
    image.halfAt address (2 * m + 1) = (image.wordAt (address + 4 * m)).high := by
  simp only [Image.halfAt, show (2 * m + 1) / 2 = m by omega,
    show ¬ (2 * m + 1) % 2 = 0 by omega, if_false]

/-- Packing the half-words of the image gives its words. -/
theorem packCodes_halves {image : Image} {address : Nat} (codes : List UInt16) (m : Nat)
    (halves : ∀ k code, codes[k]? = some code → image.halfAt address (2 * m + k) = code)
    (whole : codes.length % 2 = 1 →
      (image.wordAt (address + 4 * (m + codes.length / 2))).high = 0) :
    (packCodes codes).length = (codes.length + 1) / 2 ∧
      ∀ k w, (packCodes codes)[k]? = some w → w = image.wordAt (address + 4 * (m + k)) := by
  fun_induction packCodes codes generalizing m with
  | case1 => simp
  | case2 first =>
    have low := halves 0 first rfl
    rw [Nat.add_zero, halfAt_even] at low
    have high := whole rfl
    rw [show m + [first].length / 2 = m by simp] at high
    refine ⟨by simp, fun k w at_k => ?_⟩
    cases k with
    | zero =>
      cases at_k
      rw [← low, ← high, Word.ofHalves_low_high, Nat.add_zero]
    | succ k => cases at_k
  | case3 first second rest ih =>
    have low := halves 0 first rfl
    rw [Nat.add_zero, halfAt_even] at low
    have high := halves 1 second rfl
    rw [halfAt_odd] at high
    obtain ⟨length, words⟩ := ih (m + 1)
      (fun k code at_k => by
        rw [show 2 * (m + 1) + k = 2 * m + (k + 2) by omega]
        exact halves (k + 2) code at_k)
      (fun odd => by
        have last := whole (by simp only [List.length_cons]; omega)
        rwa [show m + (first :: second :: rest).length / 2 = m + 1 + rest.length / 2 by
          simp only [List.length_cons]; omega] at last)
    refine ⟨by simp only [List.length_cons, length]; omega, fun k w at_k => ?_⟩
    cases k with
    | zero =>
      cases at_k
      rw [← low, ← high, Word.ofHalves_low_high, Nat.add_zero]
    | succ k => rw [words k w at_k, show m + 1 + k = m + (k + 1) by omega]

theorem Spelled.restored {image : Image} {text : EncodedString} {n : Nat}
    (h : Spelled image text) (home : text.address = 4 * n) (diagnostics : List Diagnostic) :
    (packCodes text.stored).length = text.width ∧
      Restored image diagnostics n (packCodes text.stored) := by
  have stored := length_stored text
  obtain ⟨length, words⟩ := @packCodes_halves image text.address text.stored 0
    (fun k code at_k => by
      rw [Nat.mul_zero, Nat.zero_add]
      exact h.codes at_k)
    (fun odd => by
      have last := h.whole (stored ▸ odd)
      rwa [EncodedString.width, show (text.storedLength + 1) / 2 - 1 = 0 + text.stored.length / 2 by
        omega] at last)
  refine ⟨by rw [length, stored, EncodedString.width], .of_words fun k w at_k => ?_⟩
  rw [words k w at_k, home, Nat.zero_add, show 4 * n + 4 * k = 4 * (n + k) by omega]

end Recovery

theorem Script.labelAddress_eq {script : Script} {name : String} {address : Nat}
    (h : script.labels.addressOf? name = some address) :
    script.labelAddress name = .ok address := by
  rw [Script.labelAddress, h]

/-- A table whose labels stand where its words lead restores them. -/
theorem tableWords_restored {image : Image} {diagnostics : List Diagnostic} {script : Script}
    {table m : Nat} {labels : List String}
    (h : ∀ (k : Nat) (name : String), labels[k]? = some name → ∃ target : Nat,
      tableDestination table (image.wordAt (4 * (m + k))) = target ∧
        script.labels.addressOf? name = some target) :
    ∃ words, script.tableWords table labels = .ok words ∧ words.length = labels.length ∧
      Restored image diagnostics m words := by
  induction labels generalizing m with
  | nil => exact ⟨[], rfl, rfl, .nil⟩
  | cons name rest ih =>
    obtain ⟨target, named, stands⟩ := h 0 name rfl
    obtain ⟨words, known, length, restored⟩ := @ih (m + 1) fun k other at_k => by
      rw [show m + 1 + k = m + (k + 1) by omega]
      exact h (k + 1) other at_k
    have word : Word.ofSigned (Int.tdiv ((target : Int) - table) 4) =
        image.wordAt (4 * m) := by
      rw [Nat.add_zero, tableDestination] at named
      rw [show (target : Int) - table = (image.wordAt (4 * m)).signed * 4 by omega,
        Int.mul_tdiv_cancel _ (by decide), Word.ofSigned_signed]
    refine ⟨_ :: words, ?_, by rw [List.length_cons, List.length_cons, length],
      (Restored.single word).append restored⟩
    rw [Script.tableWords] at known ⊢
    rw [List.mapM_cons, Script.labelAddress_eq stands, known]
    rfl

/-! ## The whole script -/

theorem Script.entryWidth_eq {script : Script} {n w : Nat} {e : Entry}
    (width : e.width? = some w) (pos : 0 < w) (fits : n + w ≤ script.entries.size) :
    script.entryWidth n e = .ok w := by
  have inside : ¬ script.size < n + w := Nat.not_lt.mpr fits
  simp only [Script.entryWidth, width]
  rw [if_neg inside, if_neg (Nat.ne_of_gt pos)]

theorem Script.assembleFrom_step {script : Script} {n w : Nat} {e : Entry}
    {words more : List Word} (here : script.entries[n]? = some e) (width : e.width? = some w)
    (pos : 0 < w) (fits : n + w ≤ script.entries.size)
    (known : script.entryWords (4 * n) e = .ok words)
    (rest : script.assembleFrom (n + w) = .ok more) :
    script.assembleFrom n = .ok (words ++ more) := by
  rw [Script.assembleFrom_head here, Script.entryWidth_eq width pos fits, known]
  simp only [Except.bind, rest]
  rfl

namespace Recovery

/-- **Each kind of entry restores its words.** -/
theorem Recovered.entryWords {image : Image} {script : Script} (h : Recovered image script)
    (balanced : Balanced image script) {n w : Nat} {e : Entry}
    (here : script.entries[n]? = some e) (width : e.width? = some w) :
    ∃ words, script.entryWords (4 * n) e = .ok words ∧ words.length = w ∧
      Restored image script.diagnostics n words := by
  have faithful := h.explored.faithful here
  have home := @h.explored.laid.home n e
  have stands := balanced.accounted.found here
  cases e with
  | unset => exact absurd here (h.settled n)
  | operandSlot | continuation => cases width
  | entrypoint address name =>
    cases width
    have eq := home here rfl
    subst eq
    refine ⟨[image.wordAt (4 * n)], ?_, rfl, .single rfl⟩
    rw [Script.entryWords, Script.labelAddress_eq stands]
    exact congrArg (fun word => Except.ok [word]) UInt32.ofNat_toNat
  | instruction decoded =>
    cases width
    exact instruction_words (home here rfl) faithful
  | pointerTable address labels =>
    cases width
    have eq := home here rfl
    subst eq
    refine tableWords_restored fun k name label => ?_
    rw [show 4 * (n + k) = 4 * n + 4 * k by omega]
    exact stands k name label
  | encodedString text =>
    cases width
    obtain ⟨length, restored⟩ :=
      Spelled.restored faithful (home here rfl) script.diagnostics
    exact ⟨_, rfl, length, restored⟩
  | rawData address value =>
    cases width
    have eq := home here rfl
    subst eq
    exact ⟨[value], rfl, rfl, .single faithful⟩

theorem Recovered.assembleFrom {image : Image} {script : Script} (h : Recovered image script)
    (balanced : Balanced image script) {n : Nat} (le : n ≤ script.entries.size)
    (boundary : Boundary script.entries n) :
    ∃ words, script.assembleFrom n = .ok words ∧ n + words.length = script.entries.size ∧
      Restored image script.diagnostics n words := by
  by_cases inside : n < script.entries.size
  · obtain ⟨e, w, here, width, pos, fits⟩ := boundary.head h.explored.laid inside
    obtain ⟨words, known, length, restored⟩ := h.entryWords balanced here width
    obtain ⟨more, rest, total, others⟩ := h.assembleFrom balanced fits
      (boundary.next h.explored.laid h.sealed here width)
    refine ⟨words ++ more, Script.assembleFrom_step here width pos fits known rest, ?_,
      restored.append (length ▸ others)⟩
    rw [List.length_append]
    omega
  · refine ⟨[], ?_, by simp; omega, .nil⟩
    rw [Script.assembleFrom, dif_neg inside]
termination_by script.entries.size - n

/-- **The round trip**: a recovered script assembles to the image it came from,
but for zeros in the place of pointers that were noted to lead outside. -/
theorem disassemble_assembles {catalogue : Catalogue} {options : Options} {image : Image}
    {script : Script} (h : disassemble catalogue options image = .ok script) :
    ∃ out, script.assemble = .ok out ∧ out.size = image.size ∧
      (∀ i, i < image.size → out[i]? = image[i]? ∨
        out[i]? = some 0 ∧ ∃ destination,
          ⟨4 * i, .pointerOutOfRange destination⟩ ∈ script.diagnostics) ∧
      ((∀ d ∈ script.diagnostics, ∀ destination, d.problem ≠ .pointerOutOfRange destination) →
        out = image) := by
  have recovered := disassemble_recovered h
  have balanced := (disassemble_moves h).balanced (.blank image) (.blank image image.size)
  obtain ⟨words, assembled, total, restored⟩ :=
    recovered.assembleFrom balanced (Nat.zero_le _) (Boundary.zero _)
  have size : words.length = image.size := by
    rw [Nat.zero_add] at total
    rw [total, recovered.explored.size]
  have each : ∀ i, i < image.size → words.toArray[i]? = image[i]? ∨
      words.toArray[i]? = some 0 ∧ ∃ destination,
        ⟨4 * i, .pointerOutOfRange destination⟩ ∈ script.diagnostics := fun i inside => by
    have at_i := List.getElem?_eq_getElem (show i < words.length by omega)
    have word : image.wordAt (4 * i) = image[i] := by
      rw [Image.wordAt, show 4 * i / 4 = i by omega, Array.getElem?_eq_getElem inside]
      rfl
    rw [List.getElem?_toArray, at_i, Array.getElem?_eq_getElem inside, ← word]
    rcases restored i _ at_i with same | ⟨zero, noted⟩
    · rw [Nat.zero_add] at same
      exact .inl (congrArg some same)
    · rw [Nat.zero_add] at noted
      exact .inr ⟨congrArg some zero, noted⟩
  refine ⟨words.toArray, by rw [Script.assemble, assembled]; rfl, by simpa using size, each, ?_⟩
  intro none
  refine Array.ext_getElem? fun i => ?_
  by_cases inside : i < image.size
  · rcases each i inside with same | ⟨-, destination, noted⟩
    · exact same
    · exact absurd rfl (none _ noted destination)
  · rw [Array.getElem?_eq_none (by simp; omega), Array.getElem?_eq_none (by omega)]

/-- An entry point; a subroutine call of the return behind it. -/
def calledImage : Image := #[0x4, 0x148, 0x09000002, 0x49]

/-- The instruction of the sample whose pointer leads outside, a zero in its place. -/
def sampleCut : Instruction := ⟨32, .incr, 0, [⟨36, .immediate, [0], some 0, none⟩]⟩

/-- The sample comes back but for the pointer that leads outside; without such a pointer an
image comes back whole. -/
theorem disassemble_assembles_sample :
    (∃ script out, disassemble sampleCatalogue {} sampleImage = .ok script ∧
      script.entries[8]? = some (.instruction sampleCut) ∧
      script.diagnostics = [⟨36, .pointerOutOfRange 0x2001c⟩] ∧
      script.assemble = .ok out ∧ out.size = sampleImage.size ∧
      (∀ i, i < sampleImage.size → out[i]? = sampleImage[i]? ∨
        out[i]? = some 0 ∧ ∃ destination,
          ⟨4 * i, .pointerOutOfRange destination⟩ ∈ script.diagnostics) ∧
      (∀ i, i < sampleImage.size → i ≠ 9 → out[i]? = sampleImage[i]?) ∧ out[9]? = some 0) ∧
    ∃ script, disassemble {} {} calledImage = .ok script ∧
      script.entries[1]? = some (.instruction
        ⟨4, .gosub, 0, [⟨8, .inline1, [0x09000002], some 12, some "LABEL_1"⟩]⟩) ∧
      script.assemble = .ok calledImage := by
  constructor
  · obtain ⟨script, h, at_eight, diagnostics, zero⟩ :=
      disassemble_within_holds sampleCatalogue {} sampleImage 8
        (fun script => script.entries[8]? = some (.instruction sampleCut) ∧
          script.diagnostics = [⟨36, .pointerOutOfRange 0x2001c⟩] ∧
          script.assemble.toOption.bind (·[9]?) = some 0) (by decide +kernel)
    obtain ⟨out, assembled, size, each, -⟩ := disassemble_assembles h
    rw [assembled] at zero
    refine ⟨script, out, h, at_eight, diagnostics, assembled, size, each,
      fun i inside other => (each i inside).resolve_right ?_, zero⟩
    rintro ⟨-, destination, noted⟩
    rw [diagnostics, List.mem_singleton, Diagnostic.mk.injEq] at noted
    omega
  · obtain ⟨script, h, call, clean⟩ := disassemble_within_holds {} {} calledImage 4
      (fun script => script.entries[1]? = some (.instruction
        ⟨4, .gosub, 0, [⟨8, .inline1, [0x09000002], some 12, some "LABEL_1"⟩]⟩) ∧
        script.diagnostics = []) (by decide +kernel)
    obtain ⟨out, assembled, -, -, whole⟩ := disassemble_assembles h
    obtain rfl : out = calledImage := whole (by simp [clean])
    exact ⟨script, h, call, assembled⟩

end Recovery
end EventScript
