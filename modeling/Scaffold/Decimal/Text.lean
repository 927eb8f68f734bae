import Scaffold.Text.Basic
import Scaffold.Decimal.Binary

/-!
# Numbers as text

Numbers are written with the fewest digits that read back.  What else a format decides is one
record: which of two equally near decimals is taken, from where on an exponent replaces zeros,
whether a whole number keeps its `.0` and a positive exponent has a sign, and how the numbers
without digits are spelled.

`read?` reads the decimal notation that configuration values and environment files use.
-/

namespace Scaffold.Decimal

/-- How a format spells numbers. -/
structure Style where
  tie : Tie
  /-- The powers of ten below the first digit within which no exponent is written; `none` when a
  number never has one. -/
  positional : Option (Int × Int)
  /-- A whole number keeps a zero behind the point. -/
  keepsPoint : Bool
  /-- A positive exponent has a plus sign. -/
  signsExponent : Bool := false
  notANumber : Text
  infinite : Text

/-- Plain numbers never have an exponent or an empty fraction. -/
def Style.plain : Style where
  tie := .up
  positional := none
  keepsPoint := false
  notANumber := "NaN"
  infinite := "inf"

/-- Data numbers keep `.0` and have an exponent below `1e-5` and from `1e16` on. -/
def Style.data : Style where
  tie := .even
  positional := some (-4, 16)
  keepsPoint := true
  notANumber := ".nan"
  infinite := ".inf"

/-- Trailing zeros of the digits moved into the exponent. -/
def stripZeros : (fuel : Nat) → Nat → Int → Nat × Int
  | 0, d, k => (d, k)
  | fuel + 1, d, k => if d != 0 && d % 10 == 0 then stripZeros fuel (d / 10) (k + 1) else (d, k)

/-- `d · 10 ^ k` without an exponent. -/
def positionalText (keepsPoint : Bool) (d : Nat) (k : Int) : Text :=
  let digits := Text.ofNat d
  let point := (digits.length : Int) + k
  if 0 ≤ k then
    digits ++ List.replicate k.toNat '0' ++ (if keepsPoint then ".0" else [] : Text)
  else if 0 < point then
    digits.take point.toNat ++ '.' :: digits.drop point.toNat
  else
    "0." ++ List.replicate (-point).toNat '0' ++ digits

/-- `d · 10 ^ k` with one digit before the point and an exponent. -/
def exponentText (signsExponent : Bool) (d : Nat) (k : Int) : Text :=
  let digits := Text.ofNat d
  let exponent := (digits.length : Int) + k - 1
  let fraction := digits.drop 1
  digits.take 1 ++ (if fraction.isEmpty then [] else '.' :: fraction) ++
    'e' :: ((if 0 ≤ exponent && signsExponent then ['+'] else []) ++ Text.ofInt exponent)

/-- The text of `d · 10 ^ k`. -/
def Style.magnitude (style : Style) (d : Nat) (k : Int) : Text :=
  let (d, k) := stripZeros 20 d k
  let point := (Text.ofNat d).length + k
  match style.positional with
  | none => positionalText style.keepsPoint d k
  | some (least, most) =>
    if least ≤ point && point ≤ most then positionalText style.keepsPoint d k
    else exponentText style.signsExponent d k

/-- The text of a number. -/
def Style.write (style : Style) (x : Float) : Text :=
  let sign (negative : Bool) (t : Text) : Text := if negative then '-' :: t else t
  match parts x with
  | .notANumber => style.notANumber
  | .infinite negative => sign negative style.infinite
  | .finite negative m q =>
    sign negative <|
      if m == 0 then positionalText style.keepsPoint 0 0
      else
        let (d, k) := shortest m q (m == leastFull && -1074 < q) style.tie
        style.magnitude d k

/-- A number as scripts and environment files write it: plain, and zero without a sign. -/
def scriptText (x : Float) : Text := if x == 0 then "0" else Style.plain.write x

/-! ## Reading -/

/-- The value of decimal digits, most significant first. -/
def digitsValue (ds : Text) : Nat := ds.foldl (fun n c => 10 * n + (c.toNat - '0'.toNat)) 0

/-- A sign, if there is one, and what follows it. -/
def readSign : Text → Bool × Text
  | '-' :: t => (true, t)
  | '+' :: t => (false, t)
  | t => (false, t)

/-- The exponent that ends a number: nothing, or a letter, a sign and digits. -/
def readExponent? (t : Text) : Option Int :=
  match t with
  | [] => some 0
  | c :: t =>
    let (negative, ds) := readSign t
    if (c == 'e' || c == 'E') && !ds.isEmpty && ds.all Char.isDigit then
      let n : Int := digitsValue ds
      some (if negative then -n else n)
    else none

/-- The number that unsigned digits with a point and an exponent stand for. -/
def readMagnitude? (t : Text) : Option Float := do
  let whole := t.takeWhile Char.isDigit
  let (fraction, rest) :=
    match t.dropWhile Char.isDigit with
    | '.' :: t => (t.takeWhile Char.isDigit, t.dropWhile Char.isDigit)
    | t => ([], t)
  if whole.isEmpty && fraction.isEmpty then none
  else
    let exponent ← readExponent? rest
    return ofDigits (digitsValue (whole ++ fraction)) (exponent - fraction.length)

/-- Reads a number: digits with an optional sign, point and exponent, or the name of infinity or of
the undefined number in any letter case. -/
def read? (t : Text) : Option Float :=
  let (negative, body) := readSign t
  let magnitude :=
    let name := Text.lower body
    if name == "inf" || name == "infinity" then some (ofDigits 1 400)
    else if name == "nan" then some (0.0 / 0.0)
    else readMagnitude? body
  magnitude.map fun x => if negative then -x else x

end Scaffold.Decimal
