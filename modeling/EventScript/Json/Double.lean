/-
Double precision, as far as it takes to tell which numbers have a place in it.
A number is taken as a run of digits that 64 bits hold, times a power of ten.
Each of the two is rounded to 53 bits and so is their product, so a number
near the end of the range may be lost although its own value is not beyond it.
-/

namespace EventScript.Json.Double

/-- The nearest number of at most 53 significant bits; a tie goes to the even one. -/
def nearest (n : Nat) : Nat :=
  let unit := Nat.pow 2 (n.log2 - 52)
  let below := n / unit
  let rest := n % unit
  let up := unit < 2 * rest || (unit = 2 * rest && below % 2 = 1)
  (if up then below + 1 else below) * unit

/-- The least number that rounds to infinity. -/
def infinite : Nat := Nat.pow 2 1024 - Nat.pow 2 970

/-- The largest power of ten there is. -/
def largestPower : Nat := 308

/-- The bound of the digits that are kept: what 64 bits hold is below it. -/
def significandBound : Nat := 0x10000000000000000

/-- Whether `significand * 10 ^ exponent` has a place. -/
def holds (significand : Nat) (exponent : Int) : Bool :=
  match exponent with
  | .negSucc _ => true
  | .ofNat power =>
    if significand = 0 then true
    else if largestPower < power then false
    else nearest significand * nearest (Nat.pow 10 power) < infinite

end EventScript.Json.Double
