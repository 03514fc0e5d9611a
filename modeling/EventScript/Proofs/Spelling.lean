/-
What is spelled is read back. The spelling of a text stands for that text, whatever
characters it has (`unescape?_escape`), and the digits of a number denote that
number (`ofSpelling?_decimal`) and have a place in double precision as long as 64
bits hold it (`isFinite_ofDigits`).
-/
import EventScript.Json.Spelling

namespace EventScript.Json

/-! ## Texts -/

/-- No character is half a surrogate pair. -/
theorem charsOfUnits?_toNat (chars : List Char) :
    charsOfUnits? (chars.map Char.toNat) = some chars := by
  induction chars with
  | nil => rfl
  | cons c rest ih =>
    have valid : c.toNat < 0xd800 ∨ 0xdfff < c.toNat ∧ c.toNat < 0x110000 := c.valid
    have trailing : ¬ isTrailing c.toNat = true := by
      simp only [isTrailing, Bool.and_eq_true, decide_eq_true_eq]
      omega
    have leading : ¬ isLeading c.toNat = true := by
      simp only [isLeading, Bool.and_eq_true, decide_eq_true_eq]
      omega
    rw [List.map_cons, charsOfUnits?.eq_def]
    simp only
    rw [if_neg trailing, if_neg leading, ih, Char.ofNat_toNat]
    rfl

theorem units?_plain {c : Char} (visible : ¬ c.toNat < 0x20) (quote : c ≠ '"')
    (backslash : c ≠ '\\') (rest : List Char) :
    units? (c :: rest) = (units? rest).map (c.toNat :: ·) := by
  rw [units?.eq_def]
  split
  · rename_i eq
    cases eq
  · rename_i eq
    exact absurd (List.cons.inj eq).1 backslash
  · rename_i eq
    exact absurd (List.cons.inj eq).1 backslash
  · rename_i eq
    cases eq
    rw [if_neg (by simp only [visible, quote, backslash, or_self, not_false_eq_true])]

theorem units?_letter {letter c : Char} (known : escapeLetter? letter = some c)
    (rest : List Char) : units? ('\\' :: letter :: rest) = (units? rest).map (c.toNat :: ·) := by
  rw [units?.eq_def]
  split
  · rename_i eq
    cases eq
  · rename_i eq
    cases eq
    cases known
  · rename_i eq
    cases eq
    rw [known]
    cases units? rest <;> rfl
  · rename_i other eq
    cases eq
    exact absurd rfl (other letter rest rfl)

theorem units?_number {a b c d : Char} {unit : Nat}
    (known : Text.ofDigits? 16 [a, b, c, d] = some unit) (rest : List Char) :
    units? ('\\' :: 'u' :: a :: b :: c :: d :: rest) = (units? rest).map (unit :: ·) := by
  rw [units?, known]
  cases units? rest <;> rfl

/-- A control character is spelled by its number. -/
theorem ofDigits?_control : ∀ n, n < 0x20 →
    Text.ofDigits? 16 ['0', '0', Nat.digitChar (n / 16), Nat.digitChar (n % 16)] = some n := by
  decide

/-- The spelling of a character stands for it. -/
theorem units?_escapeChar (c : Char) (rest : List Char) :
    units? (escapeChar c ++ rest) = (units? rest).map (c.toNat :: ·) := by
  rw [escapeChar]
  split
  · rename_i eq
    subst eq
    exact units?_letter rfl rest
  split
  · rename_i eq
    subst eq
    exact units?_letter rfl rest
  split
  · rename_i eq
    subst eq
    exact units?_letter rfl rest
  split
  · rename_i eq
    subst eq
    exact units?_letter rfl rest
  split
  · rename_i eq
    subst eq
    exact units?_letter rfl rest
  split
  · rename_i eq
    subst eq
    exact units?_letter rfl rest
  split
  · rename_i eq
    subst eq
    exact units?_letter rfl rest
  split
  · rename_i control
    exact units?_number (ofDigits?_control _ control) rest
  · rename_i quote backslash _ _ _ _ _ visible
    exact units?_plain visible quote backslash rest

theorem units?_escape (text : String) :
    units? (escape text) = some (text.toList.map Char.toNat) := by
  rw [escape]
  induction text.toList with
  | nil => rfl
  | cons c rest ih => rw [List.flatMap_cons, units?_escapeChar, ih, Option.map_some, List.map_cons]

/-- **The spelling of a text stands for the text.** -/
@[simp] theorem unescape?_escape (text : String) : unescape? (escape text) = some text := by
  rw [unescape?, units?_escape, Option.bind_some, charsOfUnits?_toNat, Option.map_some,
    String.ofList_toList]

/-! ## Digits -/

theorem digitValue?_isDigit {c : Char} (digit : c.isDigit = true) :
    Text.digitValue? 10 c = some (c.toNat - '0'.toNat) := by
  have range : '0' ≤ c ∧ c ≤ '9' := by
    simpa [Char.isDigit, Char.le_def] using digit
  have high : c.toNat ≤ '9'.toNat := range.2
  rw [Text.digitValue?, if_pos range]
  have nine : '9'.toNat = 57 := rfl
  have zero : '0'.toNat = 48 := rfl
  exact if_pos (by omega)

theorem le_ofDigitChars (digits : List Char) (start : Nat) :
    start ≤ Nat.ofDigitChars 10 digits start := by
  induction digits generalizing start with
  | nil => exact Nat.le_refl _
  | cons c rest ih =>
    rw [Nat.ofDigitChars_cons]
    have := ih (10 * start + (c.toNat - '0'.toNat))
    omega

theorem isDigit_decimal (n : Nat) : ∀ c ∈ Nat.toDigits 10 n, c.isDigit = true :=
  fun _ mem => Nat.isDigit_of_mem_toDigits (by decide) (by decide) mem

/-- No zero stands in front of other digits. -/
theorem head?_toDigits (n : Nat) (pos : 0 < n) : (Nat.toDigits 10 n).head? ≠ some '0' := by
  have one : ∀ m, m < 10 → 0 < m → Nat.digitChar m ≠ '0' := by decide
  by_cases small : n < 10
  · rw [Nat.toDigits_of_lt_base small, List.head?_cons]
    exact fun eq => one n small pos (Option.some.inj eq)
  · rw [Nat.toDigits_of_base_le (by decide) (by omega), List.head?_append]
    have ih := head?_toDigits (n / 10) (by omega)
    cases first : (Nat.toDigits 10 (n / 10)).head? with
    | none => exact absurd (List.head?_eq_none_iff.mp first) Nat.toDigits_ne_nil
    | some c =>
      rw [first] at ih
      simpa using ih

/-! ## Numbers -/

namespace Numeral

/-- The numeral of plain digits. -/
def ofDigits (negative : Bool) (n : Nat) : Numeral := ⟨negative, Nat.toDigits 10 n, none, none⟩

theorem digits?_decimal (n : Nat) : digits? (Nat.toDigits 10 n) = some (Nat.toDigits 10 n, []) := by
  have all : ∀ {digits : List Char}, (∀ c ∈ digits, c.isDigit = true) →
      digits.takeWhile Char.isDigit = digits ∧ digits.dropWhile Char.isDigit = [] := by
    intro digits all
    induction digits with
    | nil => exact ⟨rfl, rfl⟩
    | cons c rest ih =>
      obtain ⟨first, others⟩ := List.forall_mem_cons.mp all
      simpa [first] using ih others
  obtain ⟨front, behind⟩ := all (isDigit_decimal n)
  rw [digits?, front, behind, if_neg (by simp [Nat.toDigits_ne_nil])]

/-- The sign at the front of a spelling, and what follows it. -/
def sign : List Char → Bool × List Char
  | '-' :: s => (true, s)
  | s => (false, s)

theorem sign_of_ne {spelling : List Char} (plain : spelling.head? ≠ some '-') :
    sign spelling = (false, spelling) := by
  rw [sign.eq_def]
  split
  · exact absurd rfl plain
  · rfl

/-- A number is read from left to right, part by part. -/
theorem ofSpelling?_eq (spelling : List Char) :
    ofSpelling? spelling = (digits? (sign spelling).2).bind fun whole =>
      if whole.1.head? = some '0' ∧ whole.1 ≠ ['0'] then none
      else (fraction? whole.2).bind fun fraction =>
        (exponent? fraction.2).bind fun exponent =>
          if exponent.2.isEmpty then
            some ⟨(sign spelling).1, whole.1, fraction.1, exponent.1⟩
          else none := by
  rw [ofSpelling?.eq_def]
  split
  rename_i negative s eq
  have signed : sign spelling = (negative, s) := by
    rw [sign.eq_def]
    exact eq
  rw [signed]
  rfl

theorem ofSpelling?_of_sign {spelling : List Char} {negative : Bool} {n : Nat}
    (signed : sign spelling = (negative, Nat.toDigits 10 n)) :
    ofSpelling? spelling = some (ofDigits negative n) := by
  have leading : ¬ ((Nat.toDigits 10 n).head? = some '0' ∧ Nat.toDigits 10 n ≠ ['0']) := by
    rintro ⟨first, more⟩
    by_cases zero : n = 0
    · subst zero
      exact more rfl
    · exact head?_toDigits n (by omega) first
  rw [ofSpelling?_eq, signed, digits?_decimal, Option.bind_some, if_neg leading]
  rfl

theorem ofSpelling?_decimal (n : Nat) :
    ofSpelling? (Text.decimal n).toList = some (ofDigits false n) := by
  rw [Text.decimal, String.toList_ofList]
  refine ofSpelling?_of_sign (sign_of_ne fun first => ?_)
  have minus := isDigit_decimal n '-' (List.mem_of_mem_head? first)
  cases minus

theorem ofSpelling?_minus (n : Nat) :
    ofSpelling? ('-' :: (Text.decimal n).toList) = some (ofDigits true n) := by
  rw [Text.decimal, String.toList_ofList]
  exact ofSpelling?_of_sign rfl

theorem int?_ofDigits (n : Nat) : (ofDigits false n).int? = some (n : Int) := by
  simp [int?, ofDigits, value, Text.ofDigits?_toDigits]

theorem int?_minus (n : Nat) (pos : 0 < n) : (ofDigits true n).int? = some (-(n : Int)) := by
  have nonzero : Nat.toDigits 10 n ≠ ['0'] := fun zero => by
    apply head?_toDigits n pos
    rw [zero]
    rfl
  simp [int?, ofDigits, value, Text.ofDigits?_toDigits, nonzero]

/-- Digits are kept as long as their number stays below the bound. -/
theorem leading_digits {bound : Nat} {digits : List Char} (all : ∀ c ∈ digits, c.isDigit = true)
    {start taken : Nat} (below : Nat.ofDigitChars 10 digits start < bound) :
    leading bound start taken digits =
      (Nat.ofDigitChars 10 digits start, taken + digits.length) := by
  induction digits generalizing start taken with
  | nil => rfl
  | cons c rest ih =>
    obtain ⟨first, others⟩ := List.forall_mem_cons.mp all
    rw [Nat.ofDigitChars_cons] at below ⊢
    have le := le_ofDigitChars rest (10 * start + (c.toNat - '0'.toNat))
    rw [leading, digitValue?_isDigit first, Option.getD_some, if_pos (by omega), ih others below]
    simp only [List.length_cons]
    congr 1
    omega

end Numeral

theorem Double.nearest_le (n : Nat) : nearest n ≤ 2 * n := by
  by_cases zero : n = 0
  · subst zero
    decide
  rw [nearest]
  generalize eq : Nat.pow 2 (n.log2 - 52) = unit
  have le : unit ≤ n := by
    rw [← eq]
    exact Nat.le_trans (Nat.pow_le_pow_right (by decide) (Nat.sub_le _ _)) (Nat.log2_self_le zero)
  have floor : n / unit * unit ≤ n := Nat.div_mul_le_self n unit
  split
  · rw [Nat.add_mul, Nat.one_mul]
    omega
  · omega

theorem Double.holds_of_lt {n : Nat} (small : n < significandBound) : holds n 0 = true := by
  have le := nearest_le n
  have room : 2 * significandBound < infinite := by decide +kernel
  have one : nearest (Nat.pow 10 0) = 1 := by decide
  show (if n = 0 then true else if largestPower < 0 then false
    else decide (nearest n * nearest (Nat.pow 10 0) < infinite)) = true
  rw [one, Nat.mul_one, if_neg (Nat.not_lt_zero _)]
  split
  · rfl
  · exact decide_eq_true (by omega)

/-- **What 64 bits hold has a place in double precision.** -/
theorem Numeral.isFinite_ofDigits {n : Nat} (negative : Bool)
    (small : n < Double.significandBound) : (ofDigits negative n).isFinite = true := by
  have value : Nat.ofDigitChars 10 (Nat.toDigits 10 n) 0 = n := Nat.ofDigitChars_ten_toDigits
  have kept : leading Double.significandBound 0 0 (Nat.toDigits 10 n) =
      (n, (Nat.toDigits 10 n).length) := by
    rw [leading_digits (isDigit_decimal n) (by rwa [value]), value, Nat.zero_add]
  rw [isFinite]
  simp only [ofDigits, Option.getD_none, List.append_nil, kept, power, Int.sub_self, Int.add_zero]
  exact Double.holds_of_lt small

/-! ## What a number is spelled with -/

/-- Whether a character may stand in a number. -/
def isNumeric (c : Char) : Bool := c.isDigit || ['+', '-', '.', 'e', 'E'].contains c

namespace Numeral

theorem isNumeric_of_isDigit {c : Char} (digit : c.isDigit = true) : isNumeric c = true := by
  rw [isNumeric, digit, Bool.true_or]

/-- Digits are taken off the front. -/
theorem digits?_numeric {s digits rest : List Char} (h : digits? s = some (digits, rest)) :
    digits ≠ [] ∧ (∀ c ∈ digits, isNumeric c = true) ∧ s = digits ++ rest := by
  rw [digits?] at h
  split at h
  · cases h
  · rename_i nonempty
    cases h
    refine ⟨by simpa using nonempty, fun c mem => ?_, (List.takeWhile_append_dropWhile).symm⟩
    exact isNumeric_of_isDigit (List.all_eq_true.mp List.all_takeWhile c mem)

theorem fraction?_numeric {s rest : List Char} {fraction : Option (List Char)}
    (h : fraction? s = some (fraction, rest)) :
    ∃ front, (∀ c ∈ front, isNumeric c = true) ∧ s = front ++ rest := by
  rw [fraction?.eq_def] at h
  split at h
  · obtain ⟨⟨digits, behind⟩, found, eq⟩ := Option.map_eq_some_iff.mp h
    cases eq
    obtain ⟨-, numeric, rfl⟩ := digits?_numeric found
    exact ⟨'.' :: digits, List.forall_mem_cons.mpr ⟨rfl, numeric⟩, rfl⟩
  · cases h
    exact ⟨[], by simp, rfl⟩

theorem exponent?_numeric {s rest : List Char} {exponent : Option (Bool × List Char)}
    (h : exponent? s = some (exponent, rest)) :
    ∃ front, (∀ c ∈ front, isNumeric c = true) ∧ s = front ++ rest := by
  rw [exponent?.eq_def] at h
  split at h
  · cases h
    exact ⟨[], by simp, rfl⟩
  rename_i mark s
  split at h
  · rename_i marked
    have first : isNumeric mark = true := by
      rcases marked with rfl | rfl <;> rfl
    simp only at h
    split at h
    all_goals
      obtain ⟨⟨digits, behind⟩, found, eq⟩ := Option.map_eq_some_iff.mp h
      cases eq
      obtain ⟨-, numeric, rfl⟩ := digits?_numeric found
    · exact ⟨mark :: '-' :: digits,
        List.forall_mem_cons.mpr ⟨first, List.forall_mem_cons.mpr ⟨rfl, numeric⟩⟩, rfl⟩
    · exact ⟨mark :: '+' :: digits,
        List.forall_mem_cons.mpr ⟨first, List.forall_mem_cons.mpr ⟨rfl, numeric⟩⟩, rfl⟩
    · exact ⟨mark :: digits, List.forall_mem_cons.mpr ⟨first, numeric⟩, rfl⟩
  · cases h
    exact ⟨[], by simp, rfl⟩

/-- **A number is spelled with numeric characters**, and there is at least one. -/
theorem ofSpelling?_numeric {spelling : List Char} {n : Numeral}
    (h : ofSpelling? spelling = some n) :
    spelling ≠ [] ∧ ∀ c ∈ spelling, isNumeric c = true := by
  rw [ofSpelling?_eq] at h
  obtain ⟨⟨whole, s⟩, first, h⟩ := Option.bind_eq_some_iff.mp h
  split at h
  · cases h
  obtain ⟨⟨fraction, t⟩, second, h⟩ := Option.bind_eq_some_iff.mp h
  obtain ⟨⟨exponent, u⟩, third, h⟩ := Option.bind_eq_some_iff.mp h
  simp only at second third h
  split at h
  · rename_i empty
    obtain ⟨nonempty, wholes, eq⟩ := digits?_numeric first
    obtain ⟨fractions, numeric, rfl⟩ := fraction?_numeric second
    obtain ⟨exponents, numeric', rfl⟩ := exponent?_numeric third
    cases List.isEmpty_iff.mp empty
    have rest : (sign spelling).2 ≠ [] ∧ ∀ c ∈ (sign spelling).2, isNumeric c = true := by
      rw [eq]
      refine ⟨by simp [nonempty], fun c mem => ?_⟩
      rcases List.mem_append.mp mem with mem | mem
      · exact wholes c mem
      rcases List.mem_append.mp mem with mem | mem
      · exact numeric c mem
      · exact numeric' c (by simpa using mem)
    revert rest
    rw [sign.eq_def]
    split
    · exact fun rest => ⟨List.cons_ne_nil _ _, List.forall_mem_cons.mpr ⟨rfl, rest.2⟩⟩
    · exact id
  · cases h

end Numeral

end EventScript.Json
