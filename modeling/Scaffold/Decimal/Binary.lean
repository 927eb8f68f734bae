import Scaffold.Decimal.Shortest

/-!
# Binary numbers

The 64-bit binary format as sign, integer significand and exponent of two, and the number of that
format that is nearest to a decimal, ties to the even neighbour.
-/

namespace Scaffold.Decimal

/-- A number of the 64-bit binary format, taken apart. -/
inductive Parts where
  | notANumber
  | infinite (negative : Bool)
  | finite (negative : Bool) (significand : Nat) (exponent : Int)
  deriving DecidableEq, Repr

/-- The least significand that has all its 53 digits. -/
def leastFull : Nat := Nat.pow 2 52

/-- The parts that 64 bits stand for. -/
def Parts.ofBits (bits : Nat) : Parts :=
  let negative := bits / (2048 * leastFull) == 1
  let biased : Nat := bits / leastFull % 2048
  let fraction : Nat := bits % leastFull
  if biased == 2047 then if fraction == 0 then .infinite negative else .notANumber
  else if biased == 0 then .finite negative fraction (-1074)
  else .finite negative (leastFull + fraction) ((biased : Int) - 1075)

/-- The parts of a number. -/
def parts (x : Float) : Parts := .ofBits x.toBits.toNat

/-- The quotient to the nearest integer, a half to the even neighbour. -/
def Ratio.round (r : Ratio) : Nat :=
  let d := r.num / r.den
  let twice := 2 * (r.num % r.den)
  if twice < r.den then d
  else if r.den < twice then d + 1
  else if d % 2 == 0 then d else d + 1

/-- `r · 2 ^ -e`. -/
def Ratio.shiftBinary (r : Ratio) (e : Int) : Ratio :=
  if 0 ≤ e then { r with den := r.den * Nat.pow 2 e.toNat }
  else { r with num := r.num * Nat.pow 2 (-e).toNat }

/-- The bits of the number that stands for everything too large. -/
def infiniteBits : Nat := 2047 * leastFull

/-- The bits of the binary number nearest to a positive ratio. -/
def Ratio.toBits (r : Ratio) : Nat :=
  let estimate := max ((r.num.log2 : Int) - r.den.log2 - 52) (-1074)
  let scaled := r.shiftBinary estimate
  let exponent :=
    if scaled.num / scaled.den < leastFull then max (estimate - 1) (-1074) else estimate
  let significand := (r.shiftBinary exponent).round
  -- a carry past 53 digits moves into the exponent by itself
  let bits :=
    if significand < leastFull then significand
    else (exponent + 1074).toNat * leastFull + significand
  min bits infiniteBits

/-- The number nearest to `digits · 10 ^ exponent`; infinite when it is too large. -/
def ofDigits (digits : Nat) (exponent : Int) : Float :=
  let magnitude := (Nat.toDigits 10 digits).length + exponent
  let bits :=
    if digits == 0 || magnitude < -330 then 0
    else if 311 < magnitude then infiniteBits
    else (Ratio.shift ⟨digits, 1⟩ (-exponent)).toBits
  Float.ofBits (UInt64.ofNat bits)

/-- Neither infinite nor undefined. -/
def isFinite (x : Float) : Bool :=
  match parts x with
  | .finite .. => true
  | _ => false

end Scaffold.Decimal
