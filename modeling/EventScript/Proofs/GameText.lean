/-
Reading game text undoes writing it. A code is shown as a glyph of the font or as
a tag, and either stands for that code alone (`showCode_cases`), so a text is
taken apart at the seams of its codes (`pieces_codes`). No code is shown as the
tag that keeps the sentinel off, so only that tag can.
-/
import Mathlib.Data.List.Nodup
import Mathlib.Data.List.TakeWhile
import EventScript.Glyph

namespace EventScript.Glyph

open Text

/-! ## Marks -/

/-- None of the marks stands in a text. -/
def Lacks (marks text : List Char) : Prop := ∀ c ∈ text, c ∉ marks

instance (marks text : List Char) : Decidable (Lacks marks text) :=
  decidable_of_iff (text.all (!marks.contains ·) = true) (by simp [Lacks])

theorem lacks_cons {marks text : List Char} {c : Char} :
    Lacks marks (c :: text) ↔ c ∉ marks ∧ Lacks marks text := List.forall_mem_cons

theorem lacks_append {marks front text : List Char} :
    Lacks marks (front ++ text) ↔ Lacks marks front ∧ Lacks marks text := List.forall_mem_append

theorem Lacks.mono {marks more text : List Char} (h : Lacks more text)
    (sub : ∀ c ∈ marks, c ∈ more) : Lacks marks text :=
  fun c mem mark => h c mem (sub c mark)

theorem lacks_toDigits {base : Nat} (low : 1 < base) (high : base ≤ 16) (n : Nat) :
    Lacks ['+', 'x', '<', '>'] (Nat.toDigits base n) :=
  fun _ => toDigits_plain low high

/-- What stands behind the last mark is known. -/
theorem Lacks.last_inj {mark : Char} {x y a b : List Char} (ha : Lacks [mark] a)
    (hb : Lacks [mark] b) (h : x ++ mark :: a = y ++ mark :: b) : a = b := by
  obtain ⟨gap, -, eq⟩ | ⟨gap, -, eq⟩ := List.append_eq_append_iff.mp h
  · cases gap with
    | nil => exact (List.cons.inj eq).2
    | cons c gap =>
      have inside : mark ∈ a := by simp [(List.cons.inj eq).2]
      exact absurd List.mem_cons_self (ha mark inside)
  · cases gap with
    | nil => exact (List.cons.inj eq).2.symm
    | cons c gap =>
      have inside : mark ∈ b := by simp [(List.cons.inj eq).2]
      exact absurd List.mem_cons_self (hb mark inside)

/-! ## Tags -/

theorem tagNumber?_decimal {n : Nat} (small : n < 0x10000) :
    tagNumber? (Nat.toDigits 10 n) = some (UInt16.ofNat n) := by
  rw [tagNumber?.eq_def]
  split
  · rename_i digits eq
    have mem : 'x' ∈ Nat.toDigits 10 n := by simp [eq]
    exact absurd (by decide) (lacks_toDigits (by decide) (by decide) n 'x' mem)
  · rw [unsigned?_toDigits (by decide) (by decide) small, Option.map_some]

theorem tagNumber?_hex {n : Nat} (small : n < 0x10000) :
    tagNumber? ('0' :: 'x' :: Nat.toDigits 16 n) = some (UInt16.ofNat n) := by
  rw [tagNumber?, unsigned?_toDigits (by decide) (by decide) small, Option.map_some]

theorem controls_named : ∀ control ∈ controls, Lacks ['=', '<', '>'] control.name.toList ∧
    sameLetters control.name openEndTag = false ∧ sameLetters control.name rawTag = false ∧
    controls.find? (sameLetters ·.name control.name) = some control := by
  simp [controls, Lacks, sameLetters_eq, openEndTag, rawTag]

theorem rawTag_plain : Lacks ['=', '<', '>'] rawTag.toList := by
  simp [rawTag, Lacks]

theorem openEndTag_plain : Lacks ['=', '<', '>'] openEndTag.toList := by
  simp [openEndTag, Lacks]

/-- A tag's body is cut at its first equals sign. -/
theorem tagName_cut {name : List Char} (plain : Lacks ['=', '<', '>'] name)
    (value : List Char) :
    (name ++ '=' :: value).takeWhile (· ≠ '=') = name ∧
      (name ++ '=' :: value).dropWhile (· ≠ '=') = '=' :: value ∧
      name.takeWhile (· ≠ '=') = name ∧ name.dropWhile (· ≠ '=') = [] := by
  have other : ∀ c ∈ name, decide (c ≠ '=') = true := fun c mem => by
    have := plain c mem
    simp_all
  refine ⟨?_, ?_, ?_, ?_⟩
  · rw [List.takeWhile_append_of_pos other]
    simp
  · rw [List.dropWhile_append_of_pos other]
    simp
  · exact List.takeWhile_eq_self_iff.mpr other
  · exact List.dropWhile_eq_nil_iff.mpr other

theorem tagPiece?_raw {digits : List Char} {code : UInt16}
    (number : tagNumber? digits = some code) :
    tagPiece? (rawTag.toList ++ '=' :: digits) = some (.code code) := by
  obtain ⟨name, value, -⟩ := tagName_cut rawTag_plain digits
  have other : sameLetters rawTag openEndTag = false := by
    simp [sameLetters_eq, rawTag, openEndTag]
  have same : sameLetters rawTag rawTag = true := by simp [sameLetters_eq]
  rw [tagPiece?, name, value, String.ofList_toList, other, same]
  simp [number]

theorem tagPiece?_flag {control : Control} (mem : control ∈ controls)
    (flag : control.takesParameter = false) :
    tagPiece? control.name.toList = some (.code control.code) := by
  obtain ⟨plain, other, other', found⟩ := controls_named control mem
  obtain ⟨-, -, name, value⟩ := tagName_cut plain []
  rw [tagPiece?, name, value, String.ofList_toList]
  simp [other, other', found, flag]

theorem tagPiece?_number {control : Control} (mem : control ∈ controls)
    (takes : control.takesParameter = true) {digits : List Char} {value : UInt16}
    (number : tagNumber? digits = some value) :
    tagPiece? (control.name.toList ++ '=' :: digits) =
      some (.code (control.code ||| (value &&& 0xff))) := by
  obtain ⟨plain, other, other', found⟩ := controls_named control mem
  obtain ⟨name, rest, -⟩ := tagName_cut plain digits
  rw [tagPiece?, name, rest, String.ofList_toList]
  simp [other, other', found, takes, number]

theorem tagPiece?_openEnd : tagPiece? openEndTag.toList = some .openEnd := by
  simp [tagPiece?, openEndTag, sameLetters_eq]

/-! ## Codes -/

theorem controlOf?_eq_some {code : UInt16} {control : Control}
    (h : controlOf? code = some control) :
    control ∈ controls ∧
      control.code = if control.takesParameter then code &&& 0xff00 else code := by
  rw [controlOf?] at h
  split at h
  · cases h
  · refine ⟨List.mem_of_find?_eq_some h, ?_⟩
    have found := List.find?_some h
    split at found <;> simp_all

/-- The high byte and the low one together. -/
theorem or_low (code : UInt16) : code &&& 0xff00 ||| code &&& 0xff &&& 0xff = code := by
  refine UInt16.toNat.inj ?_
  rw [UInt16.toNat_or, UInt16.toNat_and, UInt16.toNat_and, UInt16.toNat_and, Nat.and_assoc,
    ← Nat.and_or_distrib_left]
  exact Nat.and_two_pow_sub_one_of_lt_two_pow code.toNat_lt

theorem font_plain : Lacks ['<', '>'] font := by
  decide +kernel

theorem font_nodup : font.Nodup := by
  decide +kernel

/-- A code is shown as a glyph or as a tag, and either stands for it. -/
theorem showCode_cases (code : UInt16) :
    (∃ glyph, showCode code = [glyph] ∧ glyph ∉ ['<', '>'] ∧ glyphCode? glyph = some code) ∨
      ∃ body, showCode code = '<' :: body ++ ['>'] ∧ Lacks ['<', '>'] body ∧
        tagPiece? body = some (.code code) := by
  have digits {base : Nat} (low : 1 < base) (high : base ≤ 16) (n : Nat) :
      Lacks ['<', '>'] (Nat.toDigits base n) := (lacks_toDigits low high n).mono (by simp)
  rw [showCode]
  split
  · rename_i control found
    obtain ⟨mem, same⟩ := controlOf?_eq_some found
    have name : Lacks ['<', '>'] control.name.toList :=
      (controls_named control mem).1.mono (by simp)
    split
    · rename_i takes
      have number := tagNumber?_decimal (n := (code &&& 0xff).toNat) (UInt16.toNat_lt _)
      have piece := tagPiece?_number mem takes number
      rw [same, if_pos takes, UInt16.ofNat_toNat, or_low] at piece
      refine .inr ⟨_, ?_, ?_, piece⟩
      · simp [decimal]
      · exact lacks_append.mpr ⟨name, lacks_cons.mpr ⟨by decide, digits (by decide) (by decide) _⟩⟩
    · rename_i flag
      have piece := tagPiece?_flag mem (by simpa using flag)
      rw [same, if_neg flag] at piece
      exact .inr ⟨_, rfl, name, piece⟩
  · split
    · rename_i glyph at_code
      obtain ⟨inside, rfl⟩ := List.getElem?_eq_some_iff.mp at_code
      refine .inl ⟨_, rfl, font_plain _ (List.getElem_mem inside), ?_⟩
      rw [glyphCode?, List.idxOf?_eq_some_iff.mpr ⟨inside, rfl, fun j before same => ?_⟩,
        Option.map_some, UInt16.ofNat_toNat]
      have := (List.Nodup.getElem_inj_iff font_nodup).mp same
      omega
    · have piece := tagPiece?_raw (tagNumber?_hex code.toNat_lt)
      rw [UInt16.ofNat_toNat] at piece
      refine .inr ⟨_, ?_, ?_, piece⟩
      · simp [hex]
      · have number : Lacks ['<', '>'] (Nat.toDigits 16 code.toNat) :=
          digits (by decide) (by decide) _
        exact lacks_append.mpr ⟨rawTag_plain.mono (by simp), lacks_cons.mpr ⟨by decide,
          lacks_cons.mpr ⟨by decide, lacks_cons.mpr ⟨by decide, number⟩⟩⟩⟩

/-! ## Texts -/

theorem pieces_body {body : List Char} (closed : Lacks ['<', '>'] body) (before rest : List Char) :
    pieces (some before) (body ++ '>' :: rest) =
      pieces (some (body.reverse ++ before)) ('>' :: rest) := by
  induction body generalizing before with
  | nil => rw [List.nil_append, List.reverse_nil, List.nil_append]
  | cons c body ih =>
    obtain ⟨other, closed⟩ := lacks_cons.mp closed
    rw [List.cons_append, pieces, if_neg (by simp_all), ih closed, List.reverse_cons,
      List.append_assoc, List.singleton_append]

/-- A tag contributes what its body says. -/
theorem pieces_tag {body : List Char} (closed : Lacks ['<', '>'] body) {piece : Piece}
    (known : tagPiece? body = some piece) (rest : List Char) :
    pieces none ('<' :: body ++ '>' :: rest) = (pieces none rest).map (piece :: ·) := by
  rw [List.cons_append, pieces, if_pos rfl, pieces_body closed, pieces, if_pos rfl,
    List.append_nil, List.reverse_reverse, known]

/-- A code that is shown is read back. -/
theorem pieces_showCode (code : UInt16) (rest : List Char) :
    pieces none (showCode code ++ rest) = (pieces none rest).map (.code code :: ·) := by
  obtain ⟨glyph, shown, plain, known⟩ | ⟨body, shown, plain, known⟩ := showCode_cases code
  · have other : glyph ≠ '<' := fun eq => plain (by simp [eq])
    rw [shown, List.singleton_append, pieces, if_neg other, known]
  · rw [shown, List.append_assoc]
    exact pieces_tag plain known rest

theorem pieces_codes (codes : List UInt16) (rest : List Char) :
    pieces none (codes.flatMap showCode ++ rest) =
      (pieces none rest).map (codes.map Piece.code ++ ·) := by
  induction codes with
  | nil => cases ended : pieces none rest <;> simp [ended, Except.map]
  | cons code codes ih =>
    rw [List.flatMap_cons, List.append_assoc, pieces_showCode, ih]
    cases pieces none rest <;> rfl

theorem pieces_openEnd : pieces none openEnd = .ok [.openEnd] :=
  pieces_tag (openEndTag_plain.mono (by simp)) tagPiece?_openEnd []

/-- Codes keep their place, and the sentinel follows unless the end is open. -/
theorem assemble_codes (codes : List UInt16) (terminated : Bool) :
    assemble (codes.map Piece.code ++ if terminated then [] else [.openEnd]) =
      codes ++ if terminated then [sentinel] else [] := by
  rw [assemble, List.filterMap_append, List.filterMap_map]
  cases terminated <;> simp

/-- Text stands for the codes it shows, and for the sentinel behind them unless
the tag that keeps it off stands there. -/
theorem encode_ended (codes : List UInt16) (terminated : Bool) :
    encode (decode codes ++ if terminated then "" else String.ofList openEnd) =
      .ok (codes ++ if terminated then [sentinel] else []) := by
  have ends : pieces none (if terminated then "" else String.ofList openEnd).toList =
      .ok (if terminated then [] else [.openEnd]) := by
    cases terminated with
    | true => rfl
    | false => exact (congrArg _ String.toList_ofList).trans pieces_openEnd
  rw [encode, String.toList_append, decode, String.toList_ofList, pieces_codes, ends, Except.map,
    Except.map, assemble_codes]

/-- No text of codes ends with the tag that keeps the sentinel off. -/
theorem decode_closed (codes : List UInt16) : ¬ openEnd <:+ (decode codes).toList := by
  rw [decode, String.toList_ofList]
  rcases List.eq_nil_or_concat codes with rfl | ⟨front, code, rfl⟩
  · exact fun ends => by simpa [openEnd] using ends.length_le
  rw [List.concat_eq_append, List.flatMap_append, List.flatMap_singleton]
  rintro ⟨before, eq⟩
  obtain ⟨glyph, shown, plain, -⟩ | ⟨body, shown, plain, known⟩ := showCode_cases code
  · rw [shown, openEnd, ← List.append_assoc] at eq
    have last := List.append_inj_right' eq rfl
    exact plain (by simp [← List.cons.inj last])
  · -- Both tags begin at the last angle bracket, so they are the same.
    have opened : Lacks ['<'] openEndTag.toList := openEndTag_plain.mono (by simp)
    rw [shown, openEnd, ← List.append_assoc, ← List.append_assoc, ← List.append_assoc] at eq
    have front := List.append_inj_left' eq rfl
    rw [List.append_assoc] at front
    have same := opened.last_inj (plain.mono (by simp)) front
    rw [← same, tagPiece?_openEnd] at known
    cases known

/-- **Reading game text undoes writing it**, for all codes: with the sentinel
behind them, or with the tag that keeps it off. -/
theorem encode_decode (codes : List UInt16) :
    encode (decode codes) = .ok (codes ++ [sentinel]) ∧
      encode (decode codes ++ "<noterm>") = .ok codes := by
  have closed := encode_ended codes true
  have opened := encode_ended codes false
  have tag : String.ofList openEnd = "<noterm>" := by simp [openEnd, openEndTag]
  rw [tag] at opened
  exact ⟨by simpa using closed, by simpa using opened⟩

end EventScript.Glyph
