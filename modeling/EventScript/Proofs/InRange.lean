/-
No recovery leaves the numbers of a machine. On an image of fewer than `2 ^ 30`
words no check of the recovery in machine numbers fails, so it gives the very
answer of the recovery in exact ones.

Addresses come from anywhere: words of the image, displacements, the caller.
What keeps the arithmetic in range is that it is done at slots of the image only.
* An instruction is read at a free slot and its operands lie in the image, so the
  address behind it is one of the image or the end of it (`Readable.next_le`).
* The entries of a table have to be free, so a scan that begins anywhere stays in
  the image; and a table that was placed has room for all its labels (`Laid`).
* Each point of a score is paid for with a word (`scoreOperands_checked`).
* The slots of a text are free (`collectCodes_free`).
-/
import EventScript.Proofs.Checked
import EventScript.Proofs.Exploration
import EventScript.Proofs.Grounds

namespace EventScript

theorem Word.displacement_bounds (w : Word) :
    -2 ^ 15 ≤ w.displacement ∧ w.displacement < 2 ^ 15 := by
  have low := Int.le_bmod (x := (w.toNat % 0x10000 : Nat)) (m := 0x10000) (by decide)
  have high := Int.bmod_lt (x := (w.toNat % 0x10000 : Nat)) (m := 0x10000) (by decide)
  exact ⟨low, high⟩

theorem Word.signed_bounds (w : Word) : -2 ^ 31 ≤ w.signed ∧ w.signed < 2 ^ 31 := by
  have low := Int.le_bmod (x := w.toNat) (m := 0x100000000) (by decide)
  have high := Int.bmod_lt (x := w.toNat) (m := 0x100000000) (by decide)
  exact ⟨low, high⟩

namespace Mode

theorem width_le (mode : Mode) (first : Word) : mode.width first ≤ 65 := by
  have byte := first.p2.toNat_lt
  cases mode <;> simp only [width, fixedWidth, identifierWidth, Option.getD] <;> omega

/-- What is no pointer resolves to the value of a word, if to anything. -/
theorem resolve_lt {mode : Mode} (plain : mode.isInline = false) {header : Nat}
    {words : List Word} {value : Int} (h : mode.resolve header words = some value) :
    value < 2 ^ 32 := by
  obtain ⟨first, -, h⟩ := Option.bind_eq_some_iff.mp h
  cases mode with
  | immediate =>
    cases h
    exact Int.ofNat_lt.mpr first.toNat_lt
  | nextImmediate =>
    obtain ⟨second, -, rfl⟩ := Option.map_eq_some_iff.mp h
    exact Int.ofNat_lt.mpr second.toNat_lt
  | inline1 | inline2 | inline3 | inlineTable1 | inlineTable2 | inlineTable3 | inlineTable4 =>
    cases plain
  | _ => cases h

end Mode

namespace Recovery

/-! ## Numbers -/

namespace Checked

theorem nat32_eq {n : Nat} (h : n < 2 ^ 32) : nat32 n = some n := if_pos h

theorem nat64_eq {n : Nat} (h : n < 2 ^ 64) : nat64 n = some n := if_pos h

theorem int64_eq {n : Int} (low : -2 ^ 63 ≤ n) (high : n < 2 ^ 63) : int64 n = some n :=
  if_pos ⟨low, high⟩

theorem sub_eq {a b : Nat} (h : b ≤ a) : sub a b = some (a - b) := if_pos h

theorem narrow_eq {n : Int} (low : 0 ≤ n) (high : n < 2 ^ 32) : narrow n = some n.toNat :=
  if_pos ⟨low, high⟩

theorem slice_eq {α : Type} {items : Array α} {start stop : Nat} (order : start ≤ stop)
    (inside : stop ≤ items.size) : slice items start stop = some (items.extract start stop) :=
  if_pos ⟨order, inside⟩

theorem slotAddress_eq {n : Nat} (h : n < 2 ^ 30) : slotAddress n = some (4 * n) := by
  rw [slotAddress, nat32_eq (by omega), Option.bind_eq_bind, Option.bind_some, nat32_eq (by omega)]

-- A larger image would have slots without an address.
example : slotAddress (2 ^ 30) = none := by decide

theorem behind_eq {address n : Nat} (h : address + 4 * n < 2 ^ 32) :
    behind address n = some (address + 4 * n) := by
  rw [behind, slotAddress_eq (by omega), Option.bind_eq_bind, Option.bind_some, nat32_eq h]

theorem byteLength_eq {image : Image} (small : image.size < 2 ^ 30) :
    byteLength image = some image.byteLength := slotAddress_eq small

theorem lastAddress_eq {image : Image} (small : image.size < 2 ^ 30) :
    lastAddress image = some ((image.byteLength : Int) - 4) := by
  have length : image.byteLength = 4 * image.size := rfl
  rw [lastAddress, byteLength_eq small, Option.bind_eq_bind, Option.bind_some,
    int64_eq (by omega) (by omega)]

end Checked

open Checked (nat32_eq nat64_eq int64_eq sub_eq narrow_eq slice_eq slotAddress_eq behind_eq
  byteLength_eq lastAddress_eq)

/-! ## How much words look like code -/

theorem toInt_add_of_fits {a b : Int64} (low : -2 ^ 63 ≤ a.toInt + b.toInt)
    (high : a.toInt + b.toInt < 2 ^ 63) : (a + b).toInt = a.toInt + b.toInt := by
  rw [Int64.toInt_add]
  exact Int.bmod_eq_of_le_mul_two (by omega) (by omega)

theorem toInt_sub_of_fits {a b : Int64} (low : -2 ^ 63 ≤ a.toInt - b.toInt)
    (high : a.toInt - b.toInt < 2 ^ 63) : (a - b).toInt = a.toInt - b.toInt := by
  rw [Int64.toInt_sub]
  exact Int.bmod_eq_of_le_mul_two (by omega) (by omega)

theorem toInt_succ {score : Int64} (low : 0 ≤ score.toInt) (high : score.toInt < 2 ^ 62) :
    (score + 1).toInt = score.toInt + 1 :=
  toInt_add_of_fits (by rw [Int64.toInt_one]; omega) (by rw [Int64.toInt_one]; omega)

/-- A score never passes the words it was given for. -/
theorem scoreOperands_checked {image : Image} (small : image.size < 2 ^ 30) {count cursor : Nat}
    {score : Int64} (low : 0 ≤ score.toInt) (high : score.toInt ≤ cursor)
    (near : cursor ≤ image.size + 65) {found : Int64 × Nat}
    (scored : Likelihood.scoreOperands image count cursor score = found) :
    Checked.scoreOperands image count cursor score.toInt = some (found.1.toInt, found.2) ∧
      0 ≤ found.1.toInt ∧ found.1.toInt ≤ found.2 ∧ found.2 ≤ image.size + 65 := by
  induction count generalizing cursor score with
  | zero =>
    subst scored
    exact ⟨rfl, low, high, near⟩
  | succ count ih =>
    rw [Likelihood.scoreOperands] at scored
    rw [Checked.scoreOperands]
    cases there : image[cursor]? with
    | none =>
      rw [there] at scored
      subst scored
      exact ⟨rfl, low, high, near⟩
    | some word =>
      have inside := (Array.getElem?_eq_some_iff.mp there).1
      have wide := Mode.width_pos (Mode.ofWord word) word
      have narrow := Mode.width_le (Mode.ofWord word) word
      obtain ⟨next, added, exact_sum, more, less⟩ : ∃ next : Int64,
          (if Mode.ofWord word = .immediate then score else score + 1) = next ∧
          score.toInt + (if Mode.ofWord word = .immediate then 0 else 1) = next.toInt ∧
          0 ≤ next.toInt ∧ next.toInt ≤ cursor + 1 := by
        split
        · exact ⟨score, rfl, Int.add_zero _, low, by omega⟩
        · have succ := toInt_succ low (by omega)
          exact ⟨score + 1, rfl, succ.symm, by omega, by omega⟩
      rw [there] at scored
      simp only [added] at scored
      simp only [exact_sum, Option.bind_eq_bind]
      rw [int64_eq (by omega) (by omega), Option.bind_some, nat64_eq (by omega), Option.bind_some]
      exact ih more (by omega) (by omega) scored

/-- A score lies between the instructions that were to come, as a loss, and the words. -/
theorem certaintyFrom_checked {image : Image} (small : image.size < 2 ^ 30) {lookahead : Nat}
    (bound : lookahead < 2 ^ 63) {room index cursor : Nat} {score found : Int64}
    (low : 0 ≤ score.toInt) (high : score.toInt ≤ cursor) (near : cursor ≤ image.size + 65)
    (left : index + room = lookahead)
    (scored : Likelihood.certaintyFrom image room cursor score = found) :
    Checked.certaintyFrom image lookahead room index cursor score.toInt = some found.toInt ∧
      -room ≤ found.toInt ∧ found.toInt ≤ image.size + 65 := by
  induction room generalizing index cursor score with
  | zero =>
    cases scored
    exact ⟨rfl, Int.le_trans (by omega) low, Int.le_trans high (Int.ofNat_le.mpr near)⟩
  | succ room ih =>
    rw [Likelihood.certaintyFrom] at scored
    rw [Checked.certaintyFrom]
    cases there : image[cursor]?.bind Header.decode with
    | none =>
      rw [there] at scored
      have cost : (Int64.ofNat (room + 1)).toInt = (room + 1 : Nat) :=
        Int64.toInt_ofNat_of_lt (by omega)
      have lost := @toInt_sub_of_fits score (Int64.ofNat (room + 1)) (by omega) (by omega)
      subst scored
      simp only [Option.bind_eq_bind]
      rw [sub_eq (by omega), Option.bind_some, int64_eq (by omega) (by omega),
        Option.bind_some, int64_eq (by omega) (by omega), lost]
      exact ⟨congrArg some (by omega), by omega, by omega⟩
    | some header =>
      obtain ⟨word, at_cursor, -⟩ := Option.bind_eq_some_iff.mp there
      have inside := (Array.getElem?_eq_some_iff.mp at_cursor).1
      have succ := toInt_succ low (by omega)
      rw [there] at scored
      obtain ⟨checked, low, high, near⟩ := @scoreOperands_checked image small header.operandCount
        (cursor + 1) (score + 1) (by omega) (by omega) (by omega) _ rfl
      obtain ⟨all, most, least⟩ := @ih (index + 1) _ _ low high near (by omega) scored
      simp only [Option.bind_eq_bind]
      rw [int64_eq (by omega) (by omega), Option.bind_some, nat64_eq (by omega),
        Option.bind_some, ← succ, checked, Option.bind_some, all]
      exact ⟨rfl, by omega, least⟩

theorem isProbablyOp_checked {setting : Setting} (small : setting.image.size < 2 ^ 30)
    (bound : setting.options.lookahead < 2 ^ 63) (script : Script) (address : Nat) :
    Checked.isProbablyOp setting script address =
      some (setting.isProbablyOp script address) := by
  rw [Checked.isProbablyOp, Setting.isProbablyOp, Likelihood.isProbablyOp]
  split
  · rfl
  · have scored := (@certaintyFrom_checked _ small _ bound _ 0 (address / 4) 0 _ (by decide)
      (Int.natCast_nonneg _) (by omega) (Nat.zero_add setting.options.lookahead) rfl).1
    rw [show (0 : Int64).toInt = 0 from rfl] at scored
    simp only [scored]
    rcases script.entryAt? address with _ | entry
    · rfl
    · cases entry <;> rfl

theorem firstClaimed_bounds (script : Script) (room cursor : Nat) :
    cursor ≤ Checked.firstClaimed script room cursor ∧
      Checked.firstClaimed script room cursor ≤ cursor + room := by
  induction room generalizing cursor with
  | zero => simp [Checked.firstClaimed]
  | succ room ih =>
    rw [Checked.firstClaimed]
    split
    · have := ih (cursor + 1)
      omega
    · omega

theorem terminatorOffset_lt {words : List Word} {offset : Nat}
    (h : Checked.terminatorOffset words = some offset) : offset < 4 * words.length := by
  induction words generalizing offset with
  | nil => cases h
  | cons word rest ih =>
    rw [Checked.terminatorOffset] at h
    rw [List.length_cons]
    split at h
    · cases h
      omega
    split at h
    · cases h
      omega
    obtain ⟨later, found, rfl⟩ := Option.map_eq_some_iff.mp h
    have := ih found
    omega

/-- The search for a terminator goes over the words up to the first claimed slot. -/
theorem terminatorFrom_eq (script : Script) (image : Image) (room start : Nat) :
    Likelihood.terminatorFrom script image room start =
      (Checked.terminatorOffset (image.extract start
        (Checked.firstClaimed script (min (start + room) image.size - start) start)).toList).map
          (4 * start + ·) := by
  induction room generalizing start with
  | zero =>
    rw [show min (start + 0) image.size - start = 0 by omega, Checked.firstClaimed]
    simp [Likelihood.terminatorFrom, Checked.terminatorOffset]
  | succ room ih =>
    rw [Likelihood.terminatorFrom]
    by_cases inside : start < image.size
    · have more : min (start + (room + 1)) image.size - start =
          min (start + 1 + room) image.size - (start + 1) + 1 := by omega
      have bounds := firstClaimed_bounds script
        (min (start + 1 + room) image.size - (start + 1)) (start + 1)
      rw [more, Checked.firstClaimed, Array.getElem?_eq_getElem inside, ih (start + 1)]
      generalize Checked.firstClaimed script (min (start + 1 + room) image.size - (start + 1))
        (start + 1) = claimed at bounds ⊢
      rcases script.entries[start]? with _ | entry
      · simp [Checked.terminatorOffset]
      cases entry with
      | unset =>
        have first : (image.extract start claimed).toList =
            image[start] :: (image.extract (start + 1) claimed).toList := by
          simp only [Array.toList_extract, List.extract_eq_take_drop]
          rw [List.drop_eq_getElem_cons (by simpa using inside),
            show claimed - start = claimed - (start + 1) + 1 by omega, List.take_succ_cons,
            Array.getElem_toList]
        simp only [first, Checked.terminatorOffset]
        split
        · rfl
        split
        · rfl
        rw [Option.map_map]
        congr 1
        funext offset
        simp only [Function.comp_apply]
        omega
      | _ => simp [Checked.terminatorOffset]
    · rw [Array.getElem?_eq_none (by omega),
        show min (start + (room + 1)) image.size - start = 0 by omega, Checked.firstClaimed]
      simp [Checked.terminatorOffset]

theorem findTerminator_checked {image : Image} (small : image.size < 2 ^ 30) {room : Nat}
    (bound : room + image.size < 2 ^ 64) (script : Script) {address : Nat}
    (inside : address < image.byteLength) :
    Checked.findTerminator script image address room =
      some (Likelihood.findTerminator script image address room) := by
  rw [Image.byteLength] at inside
  have bounds := firstClaimed_bounds script (min (address / 4 + room) image.size - address / 4)
    (address / 4)
  rw [Likelihood.findTerminator, terminatorFrom_eq]
  simp only [Checked.findTerminator, Option.bind_eq_bind]
  rw [nat64_eq (by omega), Option.bind_some]
  generalize Checked.firstClaimed script (min (address / 4 + room) image.size - address / 4)
    (address / 4) = claimed at bounds ⊢
  split
  · rw [show claimed = address / 4 by omega]
    simp [Checked.terminatorOffset]
  · rw [slice_eq (by omega) (by omega), Option.bind_some]
    cases found : Checked.terminatorOffset (image.extract (address / 4) claimed).toList with
    | none => rfl
    | some offset =>
      have low := terminatorOffset_lt found
      rw [Array.length_toList, Array.size_extract] at low
      simp only
      rw [slotAddress_eq (by omega), Option.bind_some, nat32_eq (by omega),
        Option.bind_some, nat32_eq (by omega)]
      rfl

/-! ## Operands -/

theorem resolve_checked (mode : Mode) {header : Nat} (near : header < 2 ^ 32)
    (words : List Word) : Checked.resolve mode header words = some (mode.resolve header words) := by
  cases words with
  | nil => cases mode <;> rfl
  | cons first rest =>
    have bounds := first.displacement_bounds
    have byte := first.p2.toNat_lt
    cases mode with
    | inline1 | inline2 | inlineTable1 | inlineTable2 | inlineTable3 | inlineTable4 =>
      simp only [Checked.resolve, Mode.resolve, List.head?_cons, Option.bind_eq_bind,
        Option.bind_some]
      rw [int64_eq (by omega) (by omega), Option.bind_some, int64_eq (by omega) (by omega),
        Option.bind_some]
    | inline3 =>
      simp only [Checked.resolve, Mode.resolve, List.head?_cons, Option.bind_eq_bind,
        Option.bind_some]
      rw [int64_eq (by omega) (by omega), Option.bind_some, int64_eq (by omega) (by omega),
        Option.bind_some, int64_eq (by omega) (by omega), Option.bind_some]
    | _ => rfl

theorem tableDestination_checked {table : Nat} (near : table < 2 ^ 32) (entry : Word) :
    Checked.tableDestination table entry = some (tableDestination table entry) := by
  have bounds := entry.signed_bounds
  rw [Checked.tableDestination, int64_eq (by omega) (by omega), Option.bind_eq_bind,
    Option.bind_some, int64_eq (by omega) (by omega)]
  rfl

theorem readOperand_checked {image : Image} (small : image.size < 2 ^ 30) {entries : Array Entry}
    (size : entries.size = image.size) {header : Nat} (near : header < 2 ^ 32) (cursor : Nat) :
    Checked.readOperand image entries header cursor =
      some (readOperand image entries header cursor) := by
  simp only [Checked.readOperand, readOperand, byteLength_eq small, Option.bind_eq_bind,
    Option.bind_some]
  cases there : image[cursor / 4]? with
  | none => rfl
  | some first =>
    have inside := (Array.getElem?_eq_some_iff.mp there).1
    have width := (Mode.ofWord first).width_le first
    simp only
    split
    · rfl
    rw [nat64_eq (by omega), Option.bind_some]
    split
    · rfl
    rw [slice_eq (by omega) (by omega), Option.bind_some]
    split
    · rfl
    rw [slice_eq (by omega) (by omega), Option.bind_some, resolve_checked _ near, Option.bind_some]
    cases known : (Mode.ofWord first).resolve header
      (image.extract (cursor / 4) (cursor / 4 + (Mode.ofWord first).width first)).toList with
    | none => rfl
    | some value =>
      generalize astray : (some value).filter (fun target => (Mode.ofWord first).isInline &&
        (target < 0 || (image.byteLength : Int) ≤ target)) = answer
      cases answer with
      | some target => rfl
      | none =>
        -- A pointer that is kept leads into the image; all else is the value of a word.
        have fits : 0 ≤ value ∧ value < 2 ^ 32 := by
          cases inline : (Mode.ofWord first).isInline with
          | false => exact ⟨Mode.resolve_nonneg inline known, Mode.resolve_lt inline known⟩
          | true =>
            have near := Option.filter_eq_none_iff.mp astray value rfl
            simp only [inline, Bool.true_and, Bool.or_eq_true, decide_eq_true_eq, not_or] at near
            rw [Image.byteLength] at near
            omega
        simp only
        rw [narrow_eq fits.1 fits.2]
        rfl

theorem readOperands_checked {image : Image} (small : image.size < 2 ^ 30) {entries : Array Entry}
    (size : entries.size = image.size) {header : Nat} (near : header < 2 ^ 32)
    (count cursor : Nat) :
    Checked.readOperands image entries header count cursor =
      some (readOperands image entries header count cursor) := by
  induction count generalizing cursor with
  | zero => rfl
  | succ count ih =>
    rw [Checked.readOperands, readOperands, readOperand_checked small size near,
      Option.bind_eq_bind, Option.bind_some]
    cases read : readOperand image entries header cursor with
    | error problem => rfl
    | ok found =>
      obtain ⟨operand, problem⟩ := found
      have inside := (readOperand_ok read).1.width_le
      simp only [Option.bind_eq_bind]
      rw [behind_eq (by omega), Option.bind_some, ih, Option.bind_some]

theorem readInstruction_checked {setting : Setting} (small : setting.image.size < 2 ^ 30)
    {cursor : Nat} (inside : cursor / 4 < setting.image.size) {s : Session}
    (size : s.script.entries.size = setting.image.size) :
    Checked.readInstruction setting cursor s = some (readInstruction setting cursor s) := by
  simp only [Checked.readInstruction, readInstruction]
  cases Header.decode (setting.image.wordAt cursor) with
  | none => rfl
  | some header =>
    simp only [Option.bind_eq_bind]
    split
    · rfl
    rw [nat32_eq (by omega), Option.bind_some, readOperands_checked small size (by omega),
      Option.bind_some]
    rcases readOperands setting.image s.script.entries cursor header.operandCount (cursor + 4) with
      ⟨diagnostics, problem | operands⟩ <;> rfl

theorem fill_checked (script : Script) (base : Nat) (entry : Entry) {count n : Nat}
    (fits : base + 4 * (n + count) ≤ 2 ^ 32) :
    Checked.fill script base entry count n = some (script.fill (base + 4 * n) entry count) := by
  induction count generalizing script n with
  | zero => rfl
  | succ count ih =>
    rw [Checked.fill, behind_eq (by omega), Option.bind_eq_bind, Option.bind_some, ih _ (by omega),
      Script.fill, show base + 4 * (n + 1) = base + 4 * n + 4 by omega]

theorem claimOperands_checked {image : Image} (small : image.size < 2 ^ 30)
    {diagnostics : List Diagnostic} {header cursor : Nat} {operands : List Operand}
    (h : ReadAll image diagnostics header cursor operands) (script : Script) (index : Nat) :
    Checked.claimOperands script header index operands =
      some (claimOperands script header index operands) := by
  induction h generalizing script index with
  | nil => rfl
  | @cons cursor operand rest first _ ih =>
    have inside := first.width_le
    have address := first.address
    rw [Checked.claimOperands, fill_checked _ _ _ (by omega), Option.bind_eq_bind,
      Option.bind_some, ih]
    rfl

theorem placeInstruction_checked {image : Image} (small : image.size < 2 ^ 30) {script : Script}
    {read : Instruction} (readable : Readable image script read) :
    Checked.placeInstruction script read = some (placeInstruction script read) := by
  have operands := readable.operands.labelled script.labels
  simp only [Checked.placeInstruction, Option.bind_eq_bind]
  rw [claimOperands_checked small operands, Option.bind_some]
  rfl

/-- The address behind an instruction that was read is no further than the image. -/
theorem Readable.next_le {image : Image} {script : Script} {read : Instruction}
    (readable : Readable image script read) (size : script.entries.size = image.size) :
    read.address + 4 * read.width ≤ image.byteLength := by
  obtain ⟨aligned, free⟩ := Script.entryAt?_eq_some readable.free
  have inside := (Array.getElem?_eq_some_iff.mp free).1
  have operands := readable.operands.width_le (by omega)
  rw [Instruction.width, Image.byteLength]
  omega

/-! ## Tables -/

/-- What is asked of the image and the options. -/
structure Moderate (setting : Setting) : Prop where
  small : setting.image.size < 2 ^ 30
  lookahead : setting.options.lookahead < 2 ^ 63
  search : setting.options.searchWords + setting.image.size < 2 ^ 64

section

variable {setting : Setting} (moderate : Moderate setting)

include moderate

theorem Moderate.isProbablyOp (script : Script) (address : Nat) :
    Checked.isProbablyOp setting script address = some (setting.isProbablyOp script address) :=
  isProbablyOp_checked moderate.small moderate.lookahead script address

theorem branchDestination_checked (script : Script) (kind : TableKind) {table : Nat}
    (near : table < 2 ^ 32) (entry : Nat) (window : Window) :
    Checked.branchDestination setting script kind table entry window =
      some ( branchEntry? setting script kind table entry window) := by
  have small := moderate.small
  have length : setting.image.byteLength = 4 * setting.image.size := rfl
  rw [Checked.branchDestination, branchEntry?]
  simp only [Option.bind_eq_bind]
  rw [tableDestination_checked near, Option.bind_some, lastAddress_eq small, Option.bind_some]
  cases script.isUnset entry && (entry == table || !script.labels.contains entry) &&
      window.admits entry (setting.image.wordAt entry)
  · rfl
  generalize tableDestination table (setting.image.wordAt entry) = destination
  have upper : decide (destination ≤ (setting.image.byteLength : Int) - 4) =
      decide (destination + 4 ≤ setting.image.byteLength) := decide_eq_decide.mpr (by omega)
  rw [upper, Bool.true_and, if_pos rfl]
  split
  · rename_i inside
    simp only [Bool.and_eq_true, decide_eq_true_eq] at inside
    rw [narrow_eq (by omega) (by omega), Option.bind_some, moderate.isProbablyOp,
      moderate.isProbablyOp]
    cases kind <;> cases Likelihood.isValidOp setting.image destination.toNat <;>
      cases setting.isProbablyOp script entry <;>
      cases setting.isProbablyOp script destination.toNat <;> rfl
  · rfl

theorem scanBranches_checked (kind : TableKind) (role : Role) {table entry : Nat}
    (order : table ≤ entry) (window : Window) (script : Script) :
    Checked.scanBranches setting kind role table entry window script =
      some (scanBranches setting kind role table (slotsFrom setting.image entry) entry window
        script) := by
  have small := moderate.small
  have length : setting.image.byteLength = 4 * setting.image.size := rfl
  generalize room_eq : slotsFrom setting.image entry = room
  rw [slotsFrom] at room_eq
  induction room generalizing entry window script with
  | zero =>
    rw [Checked.scanBranches, lastAddress_eq small, Option.bind_eq_bind, Option.bind_some,
      if_neg (by omega)]
    rfl
  | succ room ih =>
    rw [Checked.scanBranches, scanBranches, lastAddress_eq small]
    simp only [Option.bind_eq_bind, Option.bind_some]
    by_cases inside : entry + 4 ≤ setting.image.byteLength
    · rw [if_pos (by omega), branchDestination_checked moderate script kind (by omega),
        Option.bind_some]
      cases branchEntry? setting script kind table entry window with
      | none => rfl
      | some destination =>
        simp only
        rw [if_pos (by omega), ih (by omega) _ _ (by omega)]
        rfl
    · -- Only the bytes of the last slot are left, and none of them begins a slot.
      rw [if_neg (by omega)]
      cases found : branchEntry? setting script kind table entry window with
      | none => rfl
      | some destination =>
        have aligned := (Script.slot_of_isUnset (branchEntry?_found found).1).1
        omega

theorem probeTable_checked (address : Nat) (kind : TableKind) (role : Role) (s : Session) :
    Checked.probeTable setting address kind role s =
      some (probeTable setting address kind role s) := by
  rw [Checked.probeTable, probeTable]
  split
  · rfl
  rw [byteLength_eq moderate.small]
  simp only [Option.bind_eq_bind, Option.bind_some]
  rw [scanBranches_checked moderate kind role (Nat.le_refl address), Option.bind_some]
  exact (apply_ite some _ _ _).symm

theorem dataDestination_checked (script : Script) (texts : Bool) {table : Nat}
    (near : table < 2 ^ 32) (entry : Nat) (window : Window) :
    Checked.dataDestination setting script texts table entry window =
      some ( dataEntry? setting script texts table entry window) := by
  have small := moderate.small
  have length : setting.image.byteLength = 4 * setting.image.size := rfl
  rw [Checked.dataDestination, dataEntry?]
  simp only [Option.bind_eq_bind]
  rw [tableDestination_checked near, Option.bind_some, lastAddress_eq small, Option.bind_some]
  cases script.isUnset entry && window.admits entry (setting.image.wordAt entry)
  · rfl
  generalize tableDestination table (setting.image.wordAt entry) = destination
  have upper : decide (destination < (setting.image.byteLength : Int) - 4) =
      decide (destination + 4 < setting.image.byteLength) := decide_eq_decide.mpr (by omega)
  rw [upper, Bool.true_and, if_pos rfl]
  split
  · rename_i inside
    simp only [Bool.and_eq_true, decide_eq_true_eq] at inside
    rw [narrow_eq (by omega) (by omega), Option.bind_some, moderate.isProbablyOp,
      findTerminator_checked small moderate.search script (by omega)]
    cases texts <;> cases setting.isProbablyOp script entry <;>
      cases Likelihood.findTerminator script setting.image destination.toNat
        setting.options.searchWords <;> rfl
  · rfl

theorem scanData_checked (script : Script) (texts : Bool) {table entry : Nat}
    (order : table ≤ entry) (window : Window) :
    Checked.scanData setting script texts table entry window =
      some (scanData setting script texts table (slotsFrom setting.image entry) entry window) := by
  have small := moderate.small
  have length : setting.image.byteLength = 4 * setting.image.size := rfl
  generalize room_eq : slotsFrom setting.image entry = room
  rw [slotsFrom] at room_eq
  induction room generalizing entry window with
  | zero =>
    rw [Checked.scanData, lastAddress_eq small, Option.bind_eq_bind, Option.bind_some,
      if_neg (by omega)]
    rfl
  | succ room ih =>
    rw [Checked.scanData, scanData, lastAddress_eq small]
    simp only [Option.bind_eq_bind, Option.bind_some]
    by_cases inside : entry + 4 ≤ setting.image.byteLength
    · rw [if_pos (by omega), dataDestination_checked moderate script texts (by omega),
        Option.bind_some]
      cases dataEntry? setting script texts table entry window with
      | none => rfl
      | some destination =>
        simp only
        rw [if_pos (by omega), ih (by omega) _ (by omega)]
        rfl
    · -- As for branch tables, no slot begins in what is left.
      rw [if_neg (by omega)]
      cases found : dataEntry? setting script texts table entry window with
      | none => rfl
      | some destination =>
        have aligned := (Script.slot_of_isUnset (dataEntry?_found found).1).1
        omega

theorem probeData_checked (address : Nat) (texts : Bool) (s : Session) :
    Checked.probeData setting address texts s = some (probeData setting address texts s) := by
  rw [Checked.probeData, probeData]
  split
  · rw [byteLength_eq moderate.small]
    simp only [Option.bind_eq_bind, Option.bind_some]
    rw [scanData_checked moderate s.script texts (Nat.le_refl address), Option.bind_some]
    exact (apply_ite some _ _ _).symm
  · rfl

/-! ## Transfers -/

theorem followOperand_checked (opcode : Opcode) (operand : Operand) (parameter : Option Parameter)
    (s : Session) :
    Checked.followOperand setting opcode operand parameter s =
      some (followOperand setting opcode operand parameter s) := by
  rw [Checked.followOperand, followOperand]
  cases operand.resolved with
  | none => rfl
  | some target =>
    simp only
    split
    · rfl
    split
    · cases parameter.bind fun p => Role.ofBranch? p.branch with
      | none => rw [probeData_checked moderate]; rfl
      | some role => exact probeTable_checked moderate target .branches role s
    · split <;> rfl

theorem followOperands_checked (opcode : Opcode) (operands : List Operand)
    (parameters : List Parameter) (s : Session) :
    Checked.followOperands setting opcode operands parameters s =
      some (followOperands setting opcode operands parameters s) := by
  induction operands generalizing parameters s with
  | nil => rfl
  | cons operand rest ih =>
    rw [Checked.followOperands, followOperands, followOperand_checked moderate,
      Option.bind_eq_bind, Option.bind_some]
    cases followOperand setting opcode operand parameters.head? s with
    | error halt => rfl
    | ok t => exact ih parameters.tail t

theorem transferTable_checked (instruction : Instruction) (role : Role) (s : Session) :
    Checked.transferTable setting instruction role s =
      some (transferTable setting instruction role s) := by
  rw [Checked.transferTable, transferTable]
  cases instruction.operands[1]? with
  | none => rfl
  | some operand =>
    simp only
    cases operand.resolved with
    | none => rfl
    | some table =>
      simp only
      split
      · rfl
      · exact probeTable_checked moderate table _ role s

theorem transfer_checked (instruction : Instruction) (next : Nat) (s : Session) :
    Checked.transfer setting instruction next s = some (transfer setting instruction next s) := by
  rw [Checked.transfer]
  split
  · rename_i isJump
    rw [transferTable_checked moderate, transfer, isJump]
    rfl
  · rename_i isGosub
    rw [transferTable_checked moderate, transfer, isGosub]
    rfl
  · rfl

theorem takeInstruction_checked {read : Instruction} (next : Nat) {s : Session}
    (readable : Readable setting.image s.script read) :
    Checked.takeInstruction setting read next s =
      some (takeInstruction setting read next s) := by
  rw [Checked.takeInstruction, takeInstruction, placeInstruction_checked moderate.small readable]
  simp only [Option.bind_eq_bind, Option.bind_some]
  generalize placeInstruction s.script read = placed
  rw [followOperands_checked moderate]
  cases followOperands setting placed.1.opcode placed.1.operands
      (((setting.methodOf? placed.1.opcode placed.1.parameter).map Method.parameters).getD [])
      { s with script := placed.2 } with
  | error halt => rfl
  | ok t => exact transfer_checked moderate placed.1 next t

/-! ## Branches and the worklist -/

/-- Decoding at a free slot reads there and takes what was read; the address
behind it is in range. -/
theorem decodeFrom_free {start cursor : Nat} {s : Session}
    (explored : Explored setting.image s.script) (inside : cursor / 4 < setting.image.size)
    (unknown : ¬ (cursor ≠ start ∧ s.script.branches.contains cursor))
    (free : s.script.entryAt? cursor = some .unset) :
    Checked.decodeFrom setting start cursor s =
      match readInstruction setting cursor s with
      | .error halt => some (.error halt)
      | .ok (none, t) => some (.ok t)
      | .ok (some read, t) =>
        match takeInstruction setting read (cursor + 4 * read.width) t with
        | .error halt => some (.error halt)
        | .ok (.stop, u) => some (.ok u)
        | .ok (.goOn, u) => Checked.decodeFrom setting start (cursor + 4 * read.width) u := by
  have small := moderate.small
  rw [Checked.decodeFrom, if_pos inside, if_neg unknown, free]
  simp only [Option.bind_eq_bind]
  rw [readInstruction_checked small inside explored.size, Option.bind_some]
  rcases found : readInstruction setting cursor s with halt | ⟨_ | read, t⟩
  · rfl
  · rfl
  · obtain ⟨rfl, readable⟩ := readInstruction_readable found free
    have next := readable.next_le ((readInstruction_adds found).script.moves.explored explored).size
    rw [Image.byteLength] at next
    simp only
    split
    · rename_i out
      rw [behind_eq (by omega)] at out
      cases out
    · rename_i next further
      rw [behind_eq (by omega)] at further
      cases further
      rw [takeInstruction_checked moderate _ readable]
      rcases takeInstruction setting read (read.address + 4 * read.width) t with
        halt | ⟨_ | _, u⟩ <;> rfl

theorem decodeFrom_checked {start cursor : Nat} {s : Session}
    (explored : Explored setting.image s.script) :
    Checked.decodeFrom setting start cursor s = some (decodeFrom setting start cursor s) := by
  fun_induction decodeFrom setting start cursor s with
  | case1 cursor s inside known => rw [Checked.decodeFrom, if_pos inside, if_pos known]
  | case2 cursor s inside unknown decoded there =>
    rw [Checked.decodeFrom, if_pos inside, if_neg unknown, there]
  | case3 cursor s inside unknown free halt halted =>
    rw [decodeFrom_free moderate explored inside unknown free, halted]
  | case4 cursor s inside unknown free t read =>
    rw [decodeFrom_free moderate explored inside unknown free, read]
  | case5 cursor s inside unknown free read t found next halt halted =>
    rw [decodeFrom_free moderate explored inside unknown free, found]
    simp only
    rw [halted]
  | case6 cursor s inside unknown free read t found next u taken =>
    rw [decodeFrom_free moderate explored inside unknown free, found]
    simp only
    rw [taken]
  | case7 cursor s inside unknown free read t found next u taken ih =>
    obtain ⟨-, readable⟩ := readInstruction_readable found free
    have before := (readInstruction_adds found).script.moves.explored explored
    rw [decodeFrom_free moderate explored inside unknown free, found]
    simp only
    rw [taken]
    exact ih ((takeInstruction_moves readable taken).explored before)
  | case8 cursor s inside unknown notCode notFree =>
    rw [Checked.decodeFrom, if_pos inside, if_neg unknown]
    split
    · rename_i there
      exact (notCode _ there).elim
    · rename_i there
      exact (notFree there).elim
    · rfl
  | case9 cursor s out => rw [Checked.decodeFrom, if_neg out]

theorem runProbe_checked (probe : Probe) {s : Session}
    (explored : Explored setting.image s.script) :
    Checked.runProbe setting probe s = some (runProbe setting probe s) := by
  cases probe with
  | table address role => exact probeTable_checked moderate address .branches role s
  | branch address =>
    rw [Checked.runProbe, runProbe, Checked.probeBranch, probeBranch]
    split
    · rfl
    · exact decodeFrom_checked moderate (explored.move (.aside (insertBranch_aside ..)))

theorem drain_checked {s : Session} (explored : Explored setting.image s.script) :
    Checked.drain setting s = some (drain setting s) := by
  fun_induction drain setting s with
  | case1 s empty => rw [Checked.drain_nil empty]
  | case2 s probe rest pending halt halted =>
    rw [Checked.drain_cons pending,
      runProbe_checked moderate probe (s := { s with worklist := rest }) explored, halted]
    rfl
  | case3 s probe rest pending t ran ih =>
    rw [Checked.drain_cons pending,
      runProbe_checked moderate probe (s := { s with worklist := rest }) explored, ran,
      Option.bind_some]
    simp only
    rw [if_pos (runProbe_nearer ran)]
    exact ih ((runProbe_moves ran).explored explored)

end

/-! ## Tables that ran too far -/

theorem headsFrom_checked {n : Nat} {entries : List Entry} (fits : n + entries.length ≤ 2 ^ 30) :
    Checked.headsFrom n entries = some (Script.headsFrom n entries) := by
  induction entries generalizing n with
  | nil => rfl
  | cons entry rest ih =>
    rw [List.length_cons] at fits
    rw [Checked.headsFrom, Script.headsFrom, ih (by omega), slotAddress_eq (by omega)]
    exact (apply_ite some _ _ _).symm

theorem tableHeads_checked {script : Script} (small : script.entries.size < 2 ^ 30) :
    Checked.tableHeads script = some script.tableHeads := by
  rw [Checked.tableHeads, headsFrom_checked (by simpa using Nat.le_of_lt small)]
  rfl

theorem ownSlots_checked (script : Script) {head room n : Nat}
    (fits : head + 4 * (n + room) ≤ 2 ^ 32) :
    Checked.ownSlots script head room n = some (script.ownSlots head room n) := by
  induction room generalizing n with
  | zero => rfl
  | succ room ih =>
    rw [Checked.ownSlots, Script.ownSlots, behind_eq (by omega), Option.bind_eq_bind,
      Option.bind_some, ih (by omega)]
    exact (apply_ite some _ _ _).symm

theorem freeTail_checked (script : Script) {head count n : Nat}
    (fits : head + 4 * (n + count) ≤ 2 ^ 32) :
    Checked.freeTail script head count n = some (script.freeTail head count n) := by
  induction count generalizing script n with
  | zero => rfl
  | succ count ih =>
    rw [Checked.freeTail, Script.freeTail, behind_eq (by omega), Option.bind_eq_bind,
      Option.bind_some]
    exact ih _ (by omega)

theorem cutTable_checked (script : Script) {head keep : Nat} {labels : List String}
    (shorter : keep ≤ labels.length) (fits : head + 4 * labels.length ≤ 2 ^ 32) :
    Checked.cutTable script head keep labels = some (script.cutTable head keep labels) := by
  rw [Checked.cutTable, sub_eq shorter]
  simp only [Option.bind_eq_bind, Option.bind_some]
  rw [freeTail_checked _ (by omega), Option.bind_some]
  rfl

theorem correctTable_checked {image : Image} (small : image.size < 2 ^ 30) {script : Script}
    (explored : Explored image script) (head : Nat) :
    Checked.correctTable script head = some (script.correctTable head) := by
  rw [Checked.correctTable, Script.correctTable]
  rcases there : script.entryAt? head with _ | entry
  · rfl
  cases entry with
  | pointerTable address labels =>
    obtain ⟨aligned, at_head⟩ := Script.entryAt?_eq_some there
    have room := explored.laid.room at_head rfl
    have bounds := script.ownSlots_bounds head (labels.length - 1) 1
    have size := explored.size
    simp only [Option.bind_eq_bind]
    rw [ownSlots_checked _ (by omega), Option.bind_some]
    split
    · rw [cutTable_checked _ (by omega) (by omega), Option.bind_some, fill_checked _ _ _ (by omega)]
    · rw [Option.bind_some, fill_checked _ _ _ (by omega)]
  | _ => rfl

theorem correctOverruns_checked {image : Image} (small : image.size < 2 ^ 30) {script : Script}
    (explored : Explored image script) :
    Checked.correctOverruns script = some script.correctOverruns := by
  have size := explored.size
  rw [Checked.correctOverruns, Script.correctOverruns, tableHeads_checked (by omega),
    Option.bind_eq_bind, Option.bind_some]
  generalize script.tableHeads = heads
  clear size
  induction heads generalizing script with
  | nil => rfl
  | cons head rest ih =>
    rw [List.foldlM_cons, correctTable_checked small explored, Option.bind_eq_bind,
      Option.bind_some, ih (explored.move (.correct rfl))]
    rfl

/-! ## Texts and data -/

/-- A text ends with the image, so a count of half-words that reaches there is
as good as any larger one. -/
theorem collectCodes_checked {image : Image} (small : image.size < 2 ^ 30) (script : Script)
    {address : Nat} (inside : address / 4 ≤ image.size) {room half limit : Nat}
    (near : half ≤ 2 * slotsFrom image address)
    (left : half + room = limit ∨
      half + room = 2 * slotsFrom image address ∧ half + room ≤ limit) :
    Checked.collectCodes image script address limit half =
      some (collectCodes image script address room half) := by
  have slots : slotsFrom image address = image.size - address / 4 := rfl
  induction room generalizing half with
  | zero =>
    rw [Checked.collectCodes, collectCodes]
    split
    · rw [behind_eq (by omega), Option.bind_eq_bind, Option.bind_some, if_pos (by omega)]
    · rfl
  | succ room ih =>
    rw [Checked.collectCodes, collectCodes, if_pos (by omega), behind_eq (by omega),
      Option.bind_eq_bind, Option.bind_some]
    simp only
    split
    · rfl
    split
    · rfl
    have more : half + 1 < 2 ^ 64 := by omega
    rw [if_pos more, Option.bind_eq_bind, ih (by omega) (by omega), Option.bind_some]
    exact (apply_ite some _ _ _).symm

theorem layText_checked {image : Image} (small : image.size < 2 ^ 30) {script : Script}
    (explored : Explored image script) (address : Nat) (bound : Option Nat) :
    Checked.layText image script address bound = some (layText image script address bound) := by
  rw [Checked.layText, layText]
  split
  · rename_i free
    have inside : ∀ {slot}, script.isUnset slot = true → slot / 4 < image.size := fun free => by
      rw [← explored.size]
      exact (Array.getElem?_eq_some_iff.mp (Script.slot_of_isUnset free).2).1
    have start := inside free
    have slots : slotsFrom image address = image.size - address / 4 := rfl
    have collected : Checked.collectCodes image script address (bound.getD (2 ^ 64 - 1)) 0 =
        some (collectCodes image script address (bound.getD (2 * slotsFrom image address)) 0) := by
      refine collectCodes_checked small script (by omega) (Nat.zero_le _) ?_
      cases bound with
      | none => exact .inr ⟨Nat.zero_add _, by simp only [Option.getD_none]; omega⟩
      | some bound => exact .inl (Nat.zero_add _)
    rw [collected]
    simp only [Option.bind_eq_bind, Option.bind_some]
    generalize found : collectCodes image script address
      (bound.getD (2 * slotsFrom image address)) 0 = answer
    obtain ⟨codes, terminated⟩ := answer
    simp only
    split
    · rfl
    rename_i nonempty
    have wide : 0 < EncodedString.width ⟨address, codes, terminated⟩ := by
      simp only [EncodedString.width]
      omega
    have last := inside (collectCodes_free found (Nat.sub_lt wide Nat.one_pos))
    rw [sub_eq wide, Option.bind_some, behind_eq (by omega), Option.bind_some,
      fill_checked _ _ _ (by omega)]
    exact (apply_ite some _ _ _).symm
  · rfl

theorem layTexts_checked {image : Image} (small : image.size < 2 ^ 30) {script : Script}
    (explored : Explored image script) {addresses : List Nat}
    (order : addresses.Pairwise (· < ·)) :
    Checked.layTexts image script addresses = some (layTexts image script addresses) := by
  fun_induction layTexts image script addresses with
  | case1 => rfl
  | case2 script address => exact layText_checked small explored address none
  | case3 script address next rest ih =>
    obtain ⟨first, later⟩ := List.pairwise_cons.mp order
    have less := first next (List.mem_cons_self ..)
    rw [Checked.layTexts, sub_eq (Nat.le_of_lt less), Option.bind_eq_bind, Option.bind_some,
      layText_checked small explored, Option.bind_eq_bind, Option.bind_some]
    exact ih ((layText_moves ..).explored explored) later

theorem answer_checked {image : Image} (small : image.size < 2 ^ 30) {script : Script}
    (explored : Explored image script) (request : TextRequest) :
    Checked.answer image script request = some (answer image script request) := by
  cases request with
  | single address => exact layText_checked small explored address none
  | table head destinations =>
    exact layTexts_checked small explored (pairwise_ascending _)

/-- Going over the slots from the `n`th on makes raw words of those that are free. -/
theorem fillData_from {image : Image} (small : image.size < 2 ^ 30) {script : Script}
    (size : script.entries.size = image.size) {room n : Nat} (left : n + room = image.size) :
    Checked.fillData image script room n =
      some { script with
        entries := script.entries.mapIdx fun m entry =>
          if n ≤ m ∧ entry.isUnset = true then .rawData (4 * m) (image.wordAt (4 * m))
          else entry } := by
  induction room generalizing script n with
  | zero =>
    have same : (script.entries.mapIdx fun m entry =>
        if n ≤ m ∧ entry.isUnset = true then Entry.rawData (4 * m) (image.wordAt (4 * m))
        else entry) = script.entries := by
      refine Array.ext (by simp) fun m _ inside => ?_
      rw [Array.getElem_mapIdx, if_neg (by omega)]
    rw [same]
    rfl
  | succ room ih =>
    have inside : n < image.size := by omega
    have word : image.wordAt (4 * n) = image[n] := by
      rw [Image.wordAt, show 4 * n / 4 = n by omega, Array.getElem?_eq_getElem inside]
      rfl
    have unset : script.isUnset (4 * n) = script.entries[n].isUnset := by
      rw [Script.isUnset, Script.entryAt?_slot, Array.getElem?_eq_getElem (by omega)]
      rfl
    rw [Checked.fillData, slotAddress_eq (by omega), Option.bind_eq_bind, Option.bind_some, unset]
    split
    · rename_i free
      rw [Array.getElem?_eq_getElem inside]
      refine (ih (by simpa using size) (by omega)).trans
        (congrArg (fun entries => some { script with entries }) ?_)
      refine Array.ext (by simp) fun m _ bound => ?_
      rw [Array.size_mapIdx] at bound
      simp only [Script.setEntry, Array.getElem_mapIdx, show 4 * n / 4 = n by omega]
      by_cases here : m = n
      · subst here
        simp [free, word]
      · rw [Array.getElem_setIfInBounds_ne bound (Ne.symm here)]
        simp [show n + 1 ≤ m ↔ n ≤ m by omega]
    · rename_i taken
      refine (ih size (by omega)).trans (congrArg (fun entries => some { script with entries }) ?_)
      refine Array.ext (by simp) fun m _ _ => ?_
      simp only [Array.getElem_mapIdx]
      by_cases here : m = n
      · subst here
        simp [taken]
      · simp [show n + 1 ≤ m ↔ n ≤ m by omega]

theorem settle_checked {image : Image} (small : image.size < 2 ^ 30) {s : Session}
    (explored : Explored image s.script) :
    Checked.settle image s = some (settle image s) := by
  have answered : s.requests.foldlM (Checked.answer image) s.script =
      some (s.requests.foldl (answer image) s.script) := by
    generalize s.requests = requests
    generalize s.script = script at explored
    induction requests generalizing script with
    | nil => rfl
    | cons request rest ih =>
      rw [List.foldlM_cons, answer_checked small explored, Option.bind_eq_bind, Option.bind_some]
      exact ih _ ((answers_moves image script [request]).explored explored)
  have size := ((answers_moves image s.script s.requests).explored explored).size
  rw [Checked.settle, answered, Option.bind_eq_bind, Option.bind_some,
    fillData_from small size (Nat.zero_add _)]
  simp only [Nat.zero_le, true_and]
  rfl

/-! ## Whole recoveries -/

theorem findEntrypoints_checked {image : Image} (small : image.size < 2 ^ 30) (room n : Nat)
    (script : Script) :
    Checked.findEntrypoints image (min room (image.size - n)) n script =
      some (findEntrypoints image room n script) := by
  induction room generalizing n script with
  | zero => rw [Nat.zero_min]; rfl
  | succ room ih =>
    rw [findEntrypoints]
    by_cases inside : n < image.size
    · rw [show min (room + 1) (image.size - n) = min room (image.size - (n + 1)) + 1 by omega,
        Checked.findEntrypoints, Array.getElem?_eq_getElem inside, slotAddress_eq (by omega)]
      simp only [Option.bind_eq_bind, Option.bind_some]
      rw [ih]
      exact (apply_ite some _ _ _).symm
    · rw [show min (room + 1) (image.size - n) = 0 by omega, Array.getElem?_eq_none (by omega)]
      rfl

section

variable {setting : Setting} (moderate : Moderate setting)

include moderate

theorem exploreBranches_checked (addresses : List Nat) {s : Session}
    (explored : Explored setting.image s.script) :
    Checked.exploreBranches setting addresses s =
      some (exploreBranches setting addresses s) := by
  have asked : Explored setting.image (s.pushAll (addresses.reverse.map Probe.branch)).script :=
    explored
  rw [Checked.exploreBranches, exploreBranches, drain_checked moderate asked, Option.bind_eq_bind,
    Option.bind_some]
  cases drained : drain setting (s.pushAll (addresses.reverse.map Probe.branch)) with
  | error halt => rfl
  | ok t =>
    simp only
    rw [correctOverruns_checked moderate.small ((drain_moves drained).1.explored asked)]
    rfl

theorem explore_checked (stats : Stats) :
    Checked.explore setting stats = some (explore setting stats) := by
  have named : Explored setting.image (findEntrypoints setting.image
      setting.options.maxEntrypoints 0 (.blank setting.image.size)) :=
    Exploring.named_explored setting stats
  have first := findEntrypoints_checked moderate.small setting.options.maxEntrypoints 0
    (.blank setting.image.size)
  rw [Nat.sub_zero] at first
  rw [Checked.explore, explore, first]
  simp only [Option.bind_eq_bind, Option.bind_some]
  generalize findEntrypoints setting.image setting.options.maxEntrypoints 0
    (.blank setting.image.size) = script at named
  rw [@exploreBranches_checked setting moderate _ { script, stats } named, Option.bind_some]
  cases answer : exploreBranches setting script.entrypoints { script, stats } with
  | error halt => rfl
  | ok s =>
    simp only
    rw [exploreBranches_checked moderate _ ((exploreBranches_moves answer).1.explored named)]
    exact (apply_ite some _ _ _).symm

end

/-- **A recovery in machine numbers** gives the answer of the recovery in exact ones. -/
theorem disassemble_checked {catalogue : Catalogue} {options : Options} {image : Image}
    (moderate : Moderate ⟨image, catalogue, options⟩) :
    Checked.disassemble catalogue options image = some (disassemble catalogue options image) := by
  rw [Checked.disassemble, disassemble, recover, explore_checked moderate, Option.bind_eq_bind,
    Option.bind_some]
  cases answer : explore ⟨image, catalogue, options⟩ {} with
  | error halt => rfl
  | ok s =>
    have moves : Moves image (.blank image.size) s.script := (explore_moves answer).1
    simp only
    rw [settle_checked moderate.small (moves.explored (.blank image))]
    rfl

end Recovery
end EventScript
