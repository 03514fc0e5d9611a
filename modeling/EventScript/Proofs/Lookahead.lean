/-
Looking ahead and reading. The score that tells whether words are code is found without
reading any operand: it counts, and goes on by the width that the first word of an operand
gives. Even so it goes over the instructions that are read. Where one can be read, the
score is one for its header, one for each operand whose first word is no immediate, and the
score of the words behind it (`certaintyFrom_of_read`).

Scores wrap. As long as fewer than `2 ^ 63` instructions are to come, none does. Where no
header decodes, each of them costs one; but a lookahead above `2 ^ 63` is taken for a
negative number, and words that are no code earn by it (`certainty_of_none_large`).
-/
import Mathlib.Algebra.Group.Int.Defs
import Mathlib.Algebra.Group.Nat.Defs
import Mathlib.Data.List.Basic
import EventScript.Proofs.Bounded
import EventScript.Proofs.Codecs
import EventScript.Proofs.InRange

namespace EventScript

theorem Image.headerAt?_eq_some_iff {image : Image} {address : Nat} {header : Header} :
    image.headerAt? address = some header ↔ address % 4 = 0 ∧
      ∃ word, image[address / 4]? = some word ∧ Header.decode word = some header := by
  rw [Image.headerAt?, Option.ite_none_right_eq_some, Option.bind_eq_some_iff]

namespace Likelihood

/-- How many operands speak for code: those whose first word in the image is no immediate. -/
def countSpeaking (image : Image) (operands : List Operand) : Nat :=
  operands.countP fun operand => Mode.ofWord (image.wordAt operand.address) ≠ .immediate

/-! ## The score so far -/

theorem scoreOperands_add (image : Image) (count cursor : Nat) (before score : Int64) :
    scoreOperands image count cursor (before + score) =
      (before + (scoreOperands image count cursor score).1,
        (scoreOperands image count cursor score).2) := by
  induction count generalizing cursor score with
  | zero => rfl
  | succ count ih =>
    rw [scoreOperands, scoreOperands]
    cases image[cursor]? with
    | none => rfl
    | some word =>
      have point : (if Mode.ofWord word = .immediate then before + score else before + score + 1) =
          before + if Mode.ofWord word = .immediate then score else score + 1 := by
        split
        · rfl
        · exact Int64.add_assoc ..
      simp only [point, ih]

/-- What was scored before is added to the score of what is to come. -/
theorem certaintyFrom_add (image : Image) (lookahead cursor : Nat) (before score : Int64) :
    certaintyFrom image lookahead cursor (before + score) =
      before + certaintyFrom image lookahead cursor score := by
  induction lookahead generalizing cursor score with
  | zero => rfl
  | succ lookahead ih =>
    rw [certaintyFrom, certaintyFrom]
    cases image[cursor]?.bind Header.decode with
    | none => simp only [Int64.sub_eq_add_neg, Int64.add_assoc]
    | some header => simp only [Int64.add_assoc before, scoreOperands_add, ih]

end Likelihood

namespace Recovery

open Likelihood

/-- An operand is as wide as the word says that the image holds in its place. -/
theorem Read.first {image : Image} {diagnostics : List Diagnostic} {header cursor : Nat}
    {operand : Operand} (h : Read image diagnostics header cursor operand) :
    ∃ first, image[cursor / 4]? = some first ∧ (Mode.ofWord first).width first = operand.width := by
  cases h with
  | kept word _ inside _ => exact ⟨_, word, (length_wordsOfOperand inside).symm⟩
  | zeroed word inside _ _ _ =>
    refine ⟨_, word, ?_⟩
    rw [Operand.width, Operand.zeroed, List.length_modifyHead, length_wordsOfOperand inside]

/-- **Operands are counted where they are read.** -/
theorem ReadAll.scoreOperands {image : Image} {diagnostics : List Diagnostic}
    {header cursor n : Nat} {operands : List Operand}
    (h : ReadAll image diagnostics header cursor operands) (slot : cursor = 4 * n)
    (score : Int64) :
    Likelihood.scoreOperands image operands.length n score =
      (score + Int64.ofNat (countSpeaking image operands), n + Operand.widthOfAll operands) := by
  induction h generalizing n score with
  | nil => exact Prod.ext (Int64.add_zero score).symm rfl
  | @cons cursor operand rest read _ ih =>
    obtain ⟨first, word, width⟩ := read.first
    have at_n : image[n]? = some first := by rwa [slot, show 4 * n / 4 = n by omega] at word
    have here : image.wordAt operand.address = first := by
      rw [read.address, Image.wordAt, word, Option.getD_some]
    rw [List.length_cons, Likelihood.scoreOperands, at_n]
    simp only [width, ih (n := n + operand.width) (by omega)]
    rw [countSpeaking, countSpeaking, List.countP_cons, here, Operand.widthOfAll]
    refine Prod.ext ?_ (Nat.add_assoc ..)
    by_cases immediate : Mode.ofWord first = .immediate
    · simp [immediate]
    · simp [immediate, Int64.add_assoc, Int64.add_comm (Int64.ofNat _)]

end Recovery

namespace Likelihood

open Recovery

variable {image : Image} {address : Nat}

/-! ## Where an instruction can be read -/

section

variable {header : Header} {entries : Array Entry} {diagnostics : List Diagnostic}
  {operands : List Operand}
  (decodes : image.headerAt? address = some header)
  (read : readOperands image entries address header.operandCount (address + 4) =
    (diagnostics, .ok operands))

include decodes read

/-- The score goes over the operands to the word behind the instruction. -/
theorem scoreOperands_of_read (score : Int64) :
    scoreOperands image header.operandCount (address / 4 + 1) score =
      (score + Int64.ofNat (countSpeaking image operands),
        (address + 4 * (1 + Operand.widthOfAll operands)) / 4) := by
  obtain ⟨aligned, -⟩ := Image.headerAt?_eq_some_iff.mp decodes
  obtain ⟨count, all, -, -⟩ := readOperands_ok read
  rw [← count, all.scoreOperands (by omega)]
  exact Prod.ext rfl (by simp only; omega)

theorem countSpeaking_lt : countSpeaking image operands < 2 ^ 8 := by
  obtain ⟨-, word, -, decoded⟩ := Image.headerAt?_eq_some_iff.mp decodes
  calc
    _ ≤ operands.length := List.countP_le_length
    _ = header.operandCount := (readOperands_ok read).1
    _ < 2 ^ 8 := (Header.decode_eq_some_iff.mp decoded).2.1

/-- **The score of an instruction that can be read**, and where the search goes on. -/
theorem certaintyFrom_of_read (lookahead : Nat) :
    certaintyFrom image (lookahead + 1) (address / 4) 0 =
      1 + Int64.ofNat (countSpeaking image operands) + certaintyFrom image lookahead
        ((address + 4 * (1 + Operand.widthOfAll operands)) / 4) 0 := by
  obtain ⟨-, word, here, decoded⟩ := Image.headerAt?_eq_some_iff.mp decodes
  rw [certaintyFrom, here, Option.bind_some, decoded]
  simp only [scoreOperands_of_read decodes read]
  rw [← certaintyFrom_add, Int64.zero_add, Int64.add_zero]

/-- As a number, the score wraps. -/
theorem certainty_of_read (lookahead : Nat) :
    certainty image address (lookahead + 1) =
      Int.bmod (1 + countSpeaking image operands +
        certainty image (address + 4 * (1 + Operand.widthOfAll operands)) lookahead) (2 ^ 64) := by
  have speaking := countSpeaking_lt decodes read
  have counted : (Int64.ofNat (countSpeaking image operands)).toInt = countSpeaking image operands :=
    Int64.toInt_ofNat_of_lt (by omega)
  have first : (1 + Int64.ofNat (countSpeaking image operands)).toInt =
      1 + countSpeaking image operands := by
    rw [toInt_add_of_fits (by rw [Int64.toInt_one]; omega) (by rw [Int64.toInt_one]; omega),
      Int64.toInt_one, counted]
  rw [certainty, certaintyFrom_of_read decodes read, Int64.toInt_add, first, certainty]

/-- With fewer than `2 ^ 63` instructions to come no score wraps: what is gained is paid for
with words, and what is lost with instructions. -/
theorem certainty_of_read_small (small : image.size < 2 ^ 30) {lookahead : Nat}
    (bound : lookahead < 2 ^ 63) :
    certainty image address (lookahead + 1) =
      1 + countSpeaking image operands +
        certainty image (address + 4 * (1 + Operand.widthOfAll operands)) lookahead := by
  have speaking := countSpeaking_lt decodes read
  obtain ⟨-, word, here, -⟩ := Image.headerAt?_eq_some_iff.mp decodes
  have inside := (Array.getElem?_eq_some_iff.mp here).1
  -- The operands end near the end of the image at the latest, which bounds what can be gained.
  obtain ⟨-, -, -, near⟩ := @scoreOperands_checked _ small _ (address / 4 + 1) 0 (by decide)
    (Int.natCast_nonneg _) (by omega) _ (scoreOperands_of_read decodes read 0)
  obtain ⟨-, low, high⟩ := @certaintyFrom_checked _ small _ bound lookahead 0
    ((address + 4 * (1 + Operand.widthOfAll operands)) / 4) 0 _ (by decide)
    (Int.natCast_nonneg _) near (Nat.zero_add _) rfl
  rw [certainty_of_read decodes read, certainty]
  exact Int.bmod_eq_of_le_mul_two (by omega) (by omega)

end

/-! ## Where no header decodes -/

/-- The score of words that begin with no header: all of the lookahead is lost. -/
theorem certainty_of_none (aligned : address % 4 = 0) (none : image.headerAt? address = none)
    (lookahead : Nat) : certainty image address lookahead = Int.bmod (-lookahead) (2 ^ 64) := by
  rw [Image.headerAt?, if_pos aligned] at none
  cases lookahead with
  | zero => rfl
  | succ lookahead =>
    calc
      _ = (0 - Int64.ofNat (lookahead + 1)).toInt := by rw [certainty, certaintyFrom, none]
      _ = Int.bmod (0 - Int.bmod (lookahead + 1 : Nat) (2 ^ 64)) (2 ^ 64) := by
        rw [Int64.toInt_sub, Int64.toInt_ofNat']
        rfl
      _ = _ := by rw [Int.sub_bmod_bmod, Int.zero_sub]

theorem certainty_of_none_small (aligned : address % 4 = 0) (none : image.headerAt? address = none)
    {lookahead : Nat} (small : lookahead < 2 ^ 63) :
    certainty image address lookahead = -lookahead := by
  rw [certainty_of_none aligned none]
  exact Int.bmod_eq_of_le_mul_two (by omega) (by omega)

/-- A lookahead above `2 ^ 63` is taken for a negative number, and what is lost is earned. -/
theorem certainty_of_none_large (aligned : address % 4 = 0) (none : image.headerAt? address = none)
    {lookahead : Nat} (large : 2 ^ 63 < lookahead) (word : lookahead < 2 ^ 64) :
    certainty image address lookahead = 2 ^ 64 - lookahead := by
  rw [certainty_of_none aligned none, ← Int.add_bmod_right,
    Int.bmod_eq_of_le_mul_two (by omega) (by omega)]
  omega

/-! ## Both -/

/-- **Looking ahead goes over the instructions that are read.** Where one can be read, the
score is that of the instruction and of the words behind it; where no header decodes, all of
the lookahead is lost. Both are told as 64-bit numbers have it, which is as it is with fewer
than `2 ^ 63` instructions to come; with more, what is lost is earned. -/
theorem certainty_follows (aligned : address % 4 = 0) :
    (∀ {header : Header} {entries : Array Entry} {diagnostics : List Diagnostic}
        {operands : List Operand}, image.headerAt? address = some header →
        readOperands image entries address header.operandCount (address + 4) =
          (diagnostics, .ok operands) →
        ∀ lookahead : Nat,
          let score : Int := 1 + countSpeaking image operands + certainty image (address +
            4 * (Instruction.mk address header.opcode header.parameter operands).width) lookahead
          certainty image address (lookahead + 1) = score.bmod (2 ^ 64) ∧
            (image.size < 2 ^ 30 → lookahead < 2 ^ 63 →
              certainty image address (lookahead + 1) = score)) ∧
      (image.headerAt? address = none → ∀ lookahead : Nat,
        certainty image address lookahead = Int.bmod (-lookahead) (2 ^ 64) ∧
        (lookahead < 2 ^ 63 → certainty image address lookahead = -lookahead) ∧
        (2 ^ 63 < lookahead → lookahead < 2 ^ 64 →
          certainty image address lookahead = 2 ^ 64 - lookahead)) := by
  refine ⟨?_, fun none lookahead => ⟨certainty_of_none aligned none lookahead,
    certainty_of_none_small aligned none, certainty_of_none_large aligned none⟩⟩
  intro header entries diagnostics operands decodes read lookahead
  exact ⟨certainty_of_read decodes read lookahead,
    fun small bound => certainty_of_read_small decodes read small bound⟩

/-- A move of a name of five characters, three words wide, to an immediate; a return; a
word that is no header. -/
def namingImage : Image :=
  #[0x4, 0x208, 0x19050000, 0x6c6c6568, 0x6f, 0x7, 0x49, 0xdeadbeef]

/-- The operands of the move. -/
def namingOperands : List Operand :=
  [⟨8, .identifier, [0x19050000, 0x6c6c6568, 0x6f], none, none⟩,
    ⟨20, .immediate, [0x7], some 7, none⟩]

theorem certainty_follows_naming :
    namingImage.headerAt? 4 = some ⟨.mov, 2, 0⟩ ∧
      readOperands namingImage (Script.blank 8).entries 4 2 8 = ([], .ok namingOperands) ∧
      certainty namingImage 4 3 = 1 + 1 + certainty namingImage 24 2 ∧
      namingImage.headerAt? 28 = none ∧ certainty namingImage 28 3 = -3 ∧
      certainty namingImage 28 (2 ^ 64 - 5) = 5 := by
  have decodes : namingImage.headerAt? 4 = some ⟨.mov, 2, 0⟩ := by decide
  have read : readOperands namingImage (Script.blank 8).entries 4 2 8 =
      ([], .ok namingOperands) := by decide +kernel
  have none : namingImage.headerAt? 28 = none := by decide
  have followed := ((certainty_follows (by decide)).1 decodes read 2).2
  have lost := (@certainty_follows namingImage 28 (by decide)).2 none
  exact ⟨decodes, read, followed (by decide) (by decide), none,
    (lost 3).2.1 (by decide), (lost (2 ^ 64 - 5)).2.2 (by decide) (by decide)⟩

/-- A move from a table of data, a return, and the table; what follows is no table. -/
def strayImage : Image :=
  #[0x4, 0x208, 0x0b000004, 0x02000001, 0x49, 0x2, 0x3, 0x11111111, 0x22222222, 0x33333333, 0x7]

/-- With a lookahead that is taken for a negative number, a word that is no header earns. It
passes for code, and the table it begins is cut to nothing. -/
theorem stray_word_earns :
    strayImage.headerAt? 20 = none ∧
      certainty strayImage 20 (2 ^ 64 - 2) ≠ -((2 ^ 64 - 2 : Nat) : Int) ∧
      ∃ script, disassemble {} { lookahead := 2 ^ 64 - 2 } strayImage = .ok script ∧
        (⟨20, .emptyDataTable⟩ : Diagnostic) ∈ script.diagnostics := by
  have none : strayImage.headerAt? 20 = none := by decide
  have earned : certainty strayImage 20 (2 ^ 64 - 2) = 2 := by
    rw [certainty_of_none_large (by decide) none (by decide) (by decide)]
    decide
  refine ⟨none, by rw [earned]; decide, ?_⟩
  exact disassemble_within_holds {} { lookahead := 2 ^ 64 - 2 } strayImage 8
    (fun script => ⟨20, .emptyDataTable⟩ ∈ script.diagnostics) (by decide +kernel)

end Likelihood
end EventScript
