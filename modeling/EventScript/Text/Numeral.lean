/-
Numbers as text. Listings and messages write addresses in lower-case
hexadecimal and counts in decimal; command arguments and text escapes are
read back in either base.
-/

namespace EventScript.Text

/-- Decimal digits, without leading zeros. -/
def decimal (n : Nat) : String := String.ofList (Nat.toDigits 10 n)

/-- Lower-case hexadecimal digits, without leading zeros. -/
def hex (n : Nat) : String := String.ofList (Nat.toDigits 16 n)

/-- Hexadecimal digits, filled up with zeros to at least `width` of them. -/
def hexPadded (width n : Nat) : String :=
  let digits := Nat.toDigits 16 n
  String.ofList (List.replicate (width - digits.length) '0' ++ digits)

/-- Hexadecimal digits of a signed number: a negative one shows its 64-bit two's complement. -/
def hexSigned (n : Int) : String := hex (n % 0x10000000000000000).toNat

/-- The value of a digit below `base`; letters count in either case. -/
def digitValue? (base : Nat) (c : Char) : Option Nat :=
  let value :=
    if '0' ≤ c ∧ c ≤ '9' then c.toNat - '0'.toNat
    else if 'a' ≤ c ∧ c ≤ 'z' then c.toNat - 'a'.toNat + 10
    else if 'A' ≤ c ∧ c ≤ 'Z' then c.toNat - 'A'.toNat + 10
    else base
  if value < base then some value else none

/-- The number a nonempty run of digits denotes. -/
def ofDigits? (base : Nat) (digits : List Char) : Option Nat :=
  if digits.isEmpty then none
  else digits.foldlM (fun n c => (digitValue? base c).map (base * n + ·)) 0

/-- An unsigned number below `bound`; one plus sign may stand in front. -/
def unsigned? (base bound : Nat) (text : List Char) : Option Nat := do
  let digits := match text with
    | '+' :: digits => digits
    | digits => digits
  let n ← ofDigits? base digits
  if n < bound then some n else none

/-! ## Digits read back -/

theorem digitValue?_digitChar : ∀ base ≤ 16, ∀ d < base,
    digitValue? base (Nat.digitChar d) = some d := by
  decide

theorem ofDigits?_append_singleton {base n d : Nat} {digits : List Char} {c : Char}
    (front : ofDigits? base digits = some n) (last : digitValue? base c = some d) :
    ofDigits? base (digits ++ [c]) = some (base * n + d) := by
  rw [ofDigits?] at front
  split at front
  · cases front
  rw [ofDigits?, if_neg (by simp), List.foldlM_append, front]
  simp [last]

/-- The digits of a number denote it. -/
theorem ofDigits?_toDigits {base : Nat} (low : 1 < base) (high : base ≤ 16) (n : Nat) :
    ofDigits? base (Nat.toDigits base n) = some n := by
  by_cases small : n < base
  · rw [Nat.toDigits_of_lt_base small, ofDigits?, if_neg (by simp), List.foldlM_cons,
      digitValue?_digitChar base high n small]
    simp
  · have fewer : n / base < n := Nat.div_lt_self (by omega) low
    rw [Nat.toDigits_of_base_le low (by omega),
      ofDigits?_append_singleton (ofDigits?_toDigits low high (n / base))
        (digitValue?_digitChar base high _ (Nat.mod_lt _ (by omega))), Nat.div_add_mod]
termination_by n

theorem mem_toDigits {base : Nat} (low : 1 < base) {n : Nat} {c : Char}
    (mem : c ∈ Nat.toDigits base n) : ∃ d < base, c = Nat.digitChar d := by
  by_cases small : n < base
  · rw [Nat.toDigits_of_lt_base small, List.mem_singleton] at mem
    exact ⟨n, small, mem⟩
  · have fewer : n / base < n := Nat.div_lt_self (by omega) low
    rw [Nat.toDigits_of_base_le low (by omega), List.mem_append, List.mem_singleton] at mem
    rcases mem with front | last
    · exact mem_toDigits low front
    · exact ⟨n % base, Nat.mod_lt _ (by omega), last⟩
termination_by n

/-- Digits are no signs. -/
theorem digitChar_plain : ∀ d < 16, Nat.digitChar d ∉ ['+', 'x', '<', '>'] := by
  decide

theorem toDigits_plain {base : Nat} (low : 1 < base) (high : base ≤ 16) {n : Nat} {c : Char}
    (mem : c ∈ Nat.toDigits base n) : c ∉ ['+', 'x', '<', '>'] := by
  obtain ⟨d, bound, rfl⟩ := mem_toDigits low mem
  exact digitChar_plain d (by omega)

theorem unsigned?_toDigits {base bound : Nat} (low : 1 < base) (high : base ≤ 16) {n : Nat}
    (small : n < bound) : unsigned? base bound (Nat.toDigits base n) = some n := by
  rw [unsigned?.eq_def]
  split
  · rename_i digits eq
    have mem : '+' ∈ Nat.toDigits base n := eq ▸ List.mem_cons_self
    exact absurd List.mem_cons_self (toDigits_plain low high mem)
  · simp [ofDigits?_toDigits low high, small]

end EventScript.Text
