import Phrasebook.Json.Basic

/-!
# The range of numbers

A number has to fit a double. Its leading digits, as many as stay below `2 ^ 64`, are rounded to
53 bits, so is the power of ten that they are multiplied with, and the product must not round to
`2 ^ 1024` or more. Further digits count for their number only.
-/

namespace Phrasebook.Json

/-- The nearest number with 53 significant bits, in a tie the one whose last bit is zero. -/
def nearestDouble (n : Nat) : Nat :=
  let unit := Nat.pow 2 (n.log2 - 52)
  let quotient := n / unit
  let remainder := n % unit
  let roundUp :=
    unit < 2 * remainder || (unit = 2 * remainder && quotient % 2 = 1)
  (if roundUp then quotient + 1 else quotient) * unit

/-- The least number that rounds to `2 ^ 1024`, which is no double. -/
def doubleLimit : Nat := Nat.pow 2 1024 - Nat.pow 2 970

/-- The number of the leading digits that stay below `2 ^ 64`, after those already read, and how
many digits are left. -/
def leadingDigits (read : Nat) : List Char → Nat × Nat
  | [] => (read, 0)
  | d :: ds =>
    let n := read * 10 + (d.toNat - '0'.toNat)
    if n < Nat.pow 2 64 then leadingDigits n ds else (read, (d :: ds).length)

/-- The number fits a double. -/
def Numeral.isFinite (n : Numeral) : Bool :=
  let (significand, dropped) := leadingDigits 0 (n.whole ++ n.fraction)
  let exponent := n.exponent - n.fraction.length + dropped
  significand = 0 || exponent ≤ 0 ||
    (exponent ≤ 308 &&
      nearestDouble significand * nearestDouble (Nat.pow 10 exponent.toNat) < doubleLimit)

end Phrasebook.Json
