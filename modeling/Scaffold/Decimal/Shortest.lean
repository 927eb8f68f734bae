/-!
# The shortest decimal of a binary fraction

A finite number of the binary format with 53 digits is `m · 2 ^ q`.  All reals that round to it
form an interval around it, and `shortest` finds the decimal in that interval with the fewest
digits, the nearest one when several have that length.

The search runs over the grids of multiples of `10 ^ k`, from coarse to fine, and looks at the two
neighbours of the number on each grid.  All comparisons are between natural numbers.
-/

namespace Scaffold.Decimal

/-- Which of two equally near decimals is taken. -/
inductive Tie where
  | up
  | even
  deriving DecidableEq, Repr

/-- A positive rational number. -/
structure Ratio where
  num : Nat
  den : Nat
  deriving DecidableEq, Repr

/-- `r · 10 ^ -k`. -/
def Ratio.shift (r : Ratio) (k : Int) : Ratio :=
  if 0 ≤ k then { r with den := r.den * Nat.pow 10 k.toNat }
  else { r with num := r.num * Nat.pow 10 (-k).toNat }

/-- `n · 2 ^ e`. -/
def Ratio.ofBinary (n : Nat) (e : Int) : Ratio :=
  if 0 ≤ e then ⟨n * Nat.pow 2 e.toNat, 1⟩ else ⟨n, Nat.pow 2 (-e).toNat⟩

/-- The reals that round to a binary number, with the number itself. -/
structure Interval where
  low : Ratio
  value : Ratio
  high : Ratio
  /-- The ends round to the number as well. -/
  closed : Bool

/-- The interval of `m · 2 ^ q`; `narrow` says that the numbers below lie twice as dense. -/
def Interval.ofBinary (m : Nat) (q : Int) (narrow : Bool) : Interval where
  low := Ratio.ofBinary (4 * m - if narrow then 1 else 2) (q - 2)
  value := Ratio.ofBinary (4 * m) (q - 2)
  high := Ratio.ofBinary (4 * m + 2) (q - 2)
  closed := m % 2 == 0

/-- `true` when the integer `d` lies in the interval. -/
def Interval.holds (i : Interval) (d : Nat) : Bool :=
  if i.closed then i.low.num ≤ d * i.low.den && d * i.high.den ≤ i.high.num
  else i.low.num < d * i.low.den && d * i.high.den < i.high.num

/-- The interval measured in units of `10 ^ k`. -/
def Interval.shift (i : Interval) (k : Int) : Interval :=
  { i with low := i.low.shift k, value := i.value.shift k, high := i.high.shift k }

/-- The integer of the interval that is nearest to its value, if there is one. -/
def Interval.nearest? (i : Interval) (tie : Tie) : Option Nat :=
  let d := i.value.num / i.value.den
  match i.holds d, i.holds (d + 1) with
  | false, false => none
  | true, false => some d
  | false, true => some (d + 1)
  | true, true =>
    let twice := 2 * (i.value.num % i.value.den)
    if twice < i.value.den then some d
    else if i.value.den < twice then some (d + 1)
    else match tie with
      | .up => some (d + 1)
      | .even => some (if d % 2 == 0 then d else d + 1)

/-- The first hit on the grids `10 ^ k`, `10 ^ (k - 1)`, …; `fuel` bounds their number. -/
def Interval.search (i : Interval) (tie : Tie) : (fuel : Nat) → (k : Int) → Nat × Int
  | 0, k => (0, k)
  | fuel + 1, k =>
    match (i.shift k).nearest? tie with
    | some d => (d, k)
    | none => i.search tie fuel (k - 1)

/-- The decimal `d · 10 ^ k` with the fewest digits that rounds to `m · 2 ^ q`.  The first grid is
coarser than the number, and seventeen digits always suffice. -/
def shortest (m : Nat) (q : Int) (narrow : Bool) (tie : Tie) : Nat × Int :=
  let magnitude := (((m.log2 : Int) + 1 + q) * 30103) / 100000 + 1
  (Interval.ofBinary m q narrow).search tie 24 magnitude

end Scaffold.Decimal
