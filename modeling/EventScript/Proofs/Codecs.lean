/-
Words and what is packed into them. A header word holds the number of an opcode, the low
eight bits of an operand count, and a parameter, one beside the other. A stored word is
four bytes, the least significant first. Neither loses anything that fits, and what does
not fit is refused.

* A header decodes from the word that encodes it and from no other, exactly if its count
  has room and it is one of the instruction set (`Header.decode_eq_some_iff`).
* An image is read from the bytes it is stored as and from no others, and bytes are read
  exactly if they are whole words (`Image.ofBytes_inverts`).
-/
import EventScript.Image
import EventScript.Proofs.RoundTrip

namespace EventScript

/-! ## Header words -/

/-- No two opcodes share a number. -/
theorem Opcode.ofCode?_code (opcode : Opcode) : ofCode? opcode.code = some opcode := by
  cases opcode <;> rfl

namespace Header

section Pack

variable (code : UInt8) (count : Nat) (parameter : UInt16)

theorem codeOf_pack : codeOf (pack code count parameter) = code := by
  have := code.toNat_lt
  apply UInt8.toNat_inj.mp
  rw [codeOf, UInt32.toNat_toUInt8, toNat_pack]
  omega

/-- A count from 256 on comes back without its upper bits. -/
theorem countOf_pack : countOf (pack code count parameter) = count % 2 ^ 8 := by
  have := code.toNat_lt
  simp only [countOf, UInt32.toNat_toUInt8, UInt32.toNat_shiftRight, UInt32.toNat_ofNat,
    Nat.shiftRight_eq_div_pow, toNat_pack, Nat.reduceMod, Nat.reducePow]
  omega

theorem parameterOf_pack : parameterOf (pack code count parameter) = parameter := by
  have := code.toNat_lt
  have := parameter.toNat_lt
  apply UInt16.toNat_inj.mp
  simp only [parameterOf, UInt32.toNat_toUInt16, UInt32.toNat_shiftRight, UInt32.toNat_ofNat,
    Nat.shiftRight_eq_div_pow, toNat_pack, Nat.reduceMod, Nat.reducePow]
  omega

end Pack

/-- A header of the instruction set: its count is the opcode's own where that has one, and
its parameter is zero where the opcode has none. -/
structure Regular (header : Header) : Prop where
  arity : ∀ arity, header.opcode.arity = some arity → header.operandCount = arity
  parameter : header.opcode.parameter = none → header.parameter = 0

/-- What decoding checks of a header. -/
theorem regular_iff {header : Header} :
    header.Regular ↔ (header.opcode.arity.all (· == header.operandCount) &&
      (header.opcode.parameter.isSome || header.parameter == 0)) = true := by
  have named : (header.opcode.parameter.isSome || header.parameter == 0) = true ↔
      (header.opcode.parameter = none → header.parameter = 0) := by
    cases header.opcode.parameter <;> simp
  rw [Bool.and_eq_true, Option.all_eq_true, named]
  simp only [beq_iff_eq]
  exact ⟨fun h => ⟨fun n own => (h.arity n own).symm, h.parameter⟩,
    fun h => ⟨fun n own => (h.1 n own).symm, h.2⟩⟩

/-- **A header decodes from its own word only**, and from that if the count has room in it
and the header is one of the instruction set. -/
theorem decode_eq_some_iff {word : Word} {header : Header} :
    decode word = some header ↔
      header.encode = word ∧ header.operandCount < 2 ^ 8 ∧ header.Regular := by
  constructor
  · intro h
    obtain ⟨code, count, parameter⟩ := decode_fields h
    refine ⟨?_, ?_, ?_⟩
    · rw [encode, code, count, parameter, pack_fields]
    · rw [count]
      exact UInt8.toNat_lt _
    · obtain ⟨opcode, -, h⟩ := Option.bind_eq_some_iff.mp h
      obtain ⟨checked, same⟩ := Option.ite_none_right_eq_some.mp h
      cases same
      exact regular_iff.mpr checked
  · rintro ⟨rfl, room, regular⟩
    rw [decode, encode, codeOf_pack, countOf_pack, parameterOf_pack, Opcode.ofCode?_code,
      Nat.mod_eq_of_lt room]
    exact if_pos (regular_iff.mp regular)

/-- **Headers and their words.** A word that decodes is the one its header encodes; and a
header, encoded, decodes to itself exactly if its count has room, is the opcode's own where
that has one, and its parameter is zero where the opcode has none. -/
theorem decode_inverts :
    (∀ word header, decode word = some header → header.encode = word) ∧
      ∀ opcode count parameter,
        decode (pack opcode.code count parameter) = some ⟨opcode, count, parameter⟩ ↔
          count ≤ 255 ∧ (∀ arity, opcode.arity = some arity → count = arity) ∧
            (opcode.parameter = none → parameter = 0) := by
  refine ⟨fun word header h => (decode_eq_some_iff.mp h).1, fun opcode count parameter => ?_⟩
  rw [decode_eq_some_iff]
  constructor
  · rintro ⟨-, room, regular⟩
    exact ⟨Nat.le_of_lt_succ room, regular.arity, regular.parameter⟩
  · rintro ⟨room, arity, parameter⟩
    exact ⟨rfl, Nat.lt_succ_of_le room, arity, parameter⟩

theorem decode_inverts_compare :
    decode 0x20341 = some ⟨.jmpCmp, 3, 2⟩ ∧ encode ⟨.jmpCmp, 3, 2⟩ = 0x20341 ∧
      decode (pack Opcode.mov.code 258 0) ≠ some ⟨.mov, 258, 0⟩ := by
  have decodes : decode 0x20341 = some ⟨.jmpCmp, 3, 2⟩ := by decide
  refine ⟨decodes, decode_inverts.1 _ _ decodes, fun wrapped => ?_⟩
  exact absurd ((decode_inverts.2 _ _ _).mp wrapped).1 (by decide)

end Header

/-! ## Stored words -/

namespace Word

theorem toNat_ofBytes (a b c d : UInt8) :
    (ofBytes a b c d).toNat =
      a.toNat + b.toNat * 2 ^ 8 + c.toNat * 2 ^ 16 + d.toNat * 2 ^ 24 := by
  have := a.toNat_lt
  have := b.toNat_lt
  have := c.toNat_lt
  have := d.toNat_lt
  simp only [ofBytes, UInt32.toNat_or, UInt32.toNat_shiftLeft, UInt8.toNat_toUInt32,
    UInt32.toNat_ofNat]
  rw [show 8 % 2 ^ 32 % 32 = 8 from rfl, show 16 % 2 ^ 32 % 32 = 16 from rfl,
    show 24 % 2 ^ 32 % 32 = 24 from rfl, @lor_shiftLeft a.toNat b.toNat 8 (by omega) (by omega),
    @lor_shiftLeft _ c.toNat 16 (by omega) (by omega), lor_shiftLeft (by omega) (by omega)]

/-- The bytes of a word are its digits to the base 256, the last one first. -/
theorem map_toNat_toBytes (word : Word) :
    word.toBytes.map UInt8.toNat =
      [word.toNat % 2 ^ 8, word.toNat / 2 ^ 8 % 2 ^ 8, word.toNat / 2 ^ 16 % 2 ^ 8,
        word.toNat / 2 ^ 24 % 2 ^ 8] := by
  simp only [toBytes, List.map, p0, p1, p2, tag, UInt32.toNat_toUInt8, UInt32.toNat_shiftRight,
    UInt32.toNat_ofNat, Nat.shiftRight_eq_div_pow]

theorem toBytes_ofBytes (a b c d : UInt8) : (ofBytes a b c d).toBytes = [a, b, c, d] := by
  have := a.toNat_lt
  have := b.toNat_lt
  have := c.toNat_lt
  have := d.toNat_lt
  apply List.map_injective_iff.mpr fun _ _ => UInt8.toNat_inj.mp
  simp only [map_toNat_toBytes, toNat_ofBytes, List.map, List.cons.injEq, and_true]
  omega

theorem ofBytes_toBytes (word : Word) : ofBytes word.p0 word.p1 word.p2 word.tag = word := by
  have digits := word.map_toNat_toBytes
  simp only [toBytes, List.map, List.cons.injEq, and_true] at digits
  have := word.toNat_lt
  apply UInt32.toNat_inj.mp
  rw [toNat_ofBytes]
  omega

theorem getElem?_toBytes (word : Word) (k : Fin 4) :
    word.toBytes[k.val]?.map UInt8.toNat = some (word.toNat / 2 ^ (8 * k.val) % 2 ^ 8) := by
  rw [← List.getElem?_map, map_toNat_toBytes]
  match k with
  | 0 => simp
  | 1 => rfl
  | 2 => rfl
  | 3 => rfl

theorem length_flatMap_toBytes (words : List Word) :
    (words.flatMap toBytes).length = 4 * words.length := by
  induction words with
  | nil => rfl
  | cons word rest ih =>
    rw [List.flatMap_cons, List.length_append, ih, List.length_cons, toBytes]
    simp only [List.length_cons, List.length_nil]
    omega

theorem getElem?_flatMap_toBytes (words : List Word) (n : Nat) (k : Fin 4) :
    (words.flatMap toBytes)[4 * n + k.val]? = words[n]?.bind (·.toBytes[k.val]?) := by
  have four : ∀ word : Word, word.toBytes.length = 4 := fun _ => rfl
  induction words generalizing n with
  | nil => rfl
  | cons word rest ih =>
    rw [List.flatMap_cons]
    cases n with
    | zero =>
      rw [List.getElem?_append_left (by rw [four]; omega), Nat.mul_zero, Nat.zero_add]
      rfl
    | succ n =>
      rw [List.getElem?_append_right (by rw [four]; omega), four,
        show 4 * (n + 1) + k.val - 4 = 4 * n + k.val by omega, ih, List.getElem?_cons_succ]

end Word

namespace Image

theorem wordsOfBytes_toBytes (words : List Word) :
    wordsOfBytes (words.flatMap Word.toBytes) = words := by
  induction words with
  | nil => rfl
  | cons word rest ih =>
    rw [List.flatMap_cons, Word.toBytes, List.cons_append, List.cons_append, List.cons_append,
      List.cons_append, List.nil_append, wordsOfBytes, Word.ofBytes_toBytes, ih]

theorem toBytes_wordsOfBytes {bytes : List UInt8} (whole : bytes.length % 4 = 0) :
    (wordsOfBytes bytes).flatMap Word.toBytes = bytes := by
  fun_induction wordsOfBytes bytes with
  | case1 a b c d rest ih =>
    simp only [List.length_cons] at whole
    rw [List.flatMap_cons, Word.toBytes_ofBytes, ih (by omega)]
    rfl
  | case2 bytes short =>
    -- Fewer than four bytes are left over, so there is none.
    match bytes with
    | [] => rfl
    | [_] | [_, _] | [_, _, _] => cases whole
    | a :: b :: c :: d :: rest => exact (short a b c d rest rfl).elim

/-- **Images and their bytes.** An image is read back from the bytes it is stored as; bytes
are refused exactly if they are no whole words, and all others are those of the image they
are read as. Byte `k` of a word has the weight `2 ^ (8 * k)`. -/
theorem ofBytes_inverts (image : Image) (bytes : List UInt8) :
    ofBytes image.toBytes = .ok image ∧
      (ofBytes bytes = .error (.misalignedImage bytes.length) ↔ bytes.length % 4 ≠ 0) ∧
      ((∃ found, ofBytes bytes = .ok found ∧ found.toBytes = bytes) ↔ bytes.length % 4 = 0) ∧
      ∀ (n : Nat) (k : Fin 4), image.toBytes[4 * n + k.val]?.map UInt8.toNat =
        image[n]?.map fun word => word.toNat / 2 ^ (8 * k.val) % 2 ^ 8 := by
  refine ⟨?_, ?_, ?_, fun n k => ?_⟩
  · rw [ofBytes, if_pos (by rw [toBytes, Word.length_flatMap_toBytes]; omega), toBytes,
      wordsOfBytes_toBytes]
  · rw [ofBytes]
    split
    · rename_i whole
      exact ⟨nofun, fun odd => absurd whole odd⟩
    · rename_i odd
      exact ⟨fun _ => odd, fun _ => rfl⟩
  · rw [ofBytes]
    split
    · rename_i whole
      refine ⟨fun _ => whole, fun _ => ⟨_, rfl, ?_⟩⟩
      rw [toBytes, toBytes_wordsOfBytes whole]
    · rename_i odd
      refine ⟨?_, fun whole => absurd whole odd⟩
      rintro ⟨_, read, -⟩
      cases read
  · rw [toBytes, Word.getElem?_flatMap_toBytes, Array.getElem?_toList]
    cases image[n]? with
    | none => rfl
    | some word => exact word.getElem?_toBytes k

end Image
end EventScript
