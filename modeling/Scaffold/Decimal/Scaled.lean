import Scaffold.Decimal.Binary

/-!
# Scaled significands

Data numbers are read as a significand of 64 bits and a power of ten.  The significand is rounded
to a binary number, and so is the product or quotient with the power, so the result may differ from
the nearest number by the second rounding.
-/

namespace Scaffold.Decimal

/-- The largest significand. -/
def significandMax : Nat := Nat.pow 2 64 - 1

/-- Appends digits to a significand until one no longer fits; the second part is the number of
digits left out. -/
def absorb (significand : Nat) : List Char → Nat × Nat
  | [] => (significand, 0)
  | c :: cs =>
    let next := 10 * significand + (c.toNat - '0'.toNat)
    if next ≤ significandMax then absorb next cs else (significand, cs.length + 1)

/-- The binary number that one significand stands for. -/
def ofSignificand (n : Nat) : Float := ofDigits n 0

/-- `x · 10 ^ exponent`; `none` when it is too large.  Small exponents are applied in steps of 308,
of which three reach zero from any significand. -/
def scale? (x : Float) (exponent : Int) : (steps : Nat) → Option Float
  | 0 => some 0
  | steps + 1 =>
    if 0 ≤ exponent then
      if exponent ≤ 308 then
        let y := x * ofDigits 1 exponent
        if isFinite y then some y else none
      else if x == 0 then some x else none
    else if -308 ≤ exponent then some (x / ofDigits 1 (-exponent))
    else if x == 0 then some x
    else scale? (x / ofDigits 1 308) (exponent + 308) steps

/-- The number with the given sign, significand and power of ten; `none` when it is too large. -/
def ofScaled? (negative : Bool) (significand : Nat) (exponent : Int) : Option Float :=
  (scale? (ofSignificand significand) exponent 4).map fun x => if negative then -x else x

end Scaffold.Decimal
