import Scaffold.Decimal.Text

/-!
# Dates and times

A date, a time of day, or both with an offset from universal time.  They are read in the spellings
that TOML allows, and written in one of them: the parts of a time are written in full but for the
zeros at the end of its fraction, and a capital `T` stands between date and time.
-/

namespace Scaffold.Toml

/-- A day of the calendar. -/
structure Date where
  year : Nat
  month : Nat
  day : Nat
  deriving DecidableEq, Repr

/-- A time of day. -/
structure Time where
  hour : Nat
  minute : Nat
  second : Nat := 0
  nanosecond : Nat := 0
  deriving DecidableEq, Repr

/-- How far a clock is ahead of universal time. -/
inductive Offset where
  | universal
  | minutes (n : Int)
  deriving DecidableEq, Repr

/-- A date, a time or both; only both together have an offset. -/
inductive DateTime where
  | date (d : Date)
  | time (t : Time)
  | both (d : Date) (t : Time) (offset : Option Offset)
  deriving DecidableEq, Repr

/-! ## Reading -/

/-- The number of at most `most` that `count` digits write, and the rest. -/
def readNumber? (count most : Nat) (t : Text) : Option (Nat × Text) :=
  let digits := t.take count
  let n := Decimal.digitsValue digits
  if digits.length == count && digits.all Char.isDigit && n ≤ most then some (n, t.drop count)
  else none

/-- A year with a 29th of February. -/
def isLeapYear (year : Nat) : Bool := year % 4 == 0 && (year % 100 != 0 || year % 400 == 0)

/-- The number of days in a month. -/
def daysIn (year month : Nat) : Nat :=
  if month == 2 then if isLeapYear year then 29 else 28
  else if [4, 6, 9, 11].contains month then 30
  else 31

/-- The date that starts a text, and the rest. -/
def readDate? (t : Text) : Option (Date × Text) := do
  let (year, t) ← readNumber? 4 9999 t
  let t ← List.isPrefixOf? ['-'] t
  let (month, t) ← readNumber? 2 12 t
  let t ← List.isPrefixOf? ['-'] t
  let (day, t) ← readNumber? 2 (daysIn year month) t
  if month == 0 || day == 0 then none else return (⟨year, month, day⟩, t)

/-- The nanoseconds of the fraction of a second that starts a text, if there is one, and the rest.
Digits behind the ninth do not count. -/
def readFraction (t : Text) : Nat × Text :=
  match t with
  | '.' :: rest =>
    let digits := rest.takeWhile Char.isDigit
    if digits.isEmpty then (0, t)
    else
      (Decimal.digitsValue ((digits ++ List.replicate 9 '0').take 9), rest.dropWhile Char.isDigit)
  | t => (0, t)

/-- The time that starts a text, and the rest.  Its seconds may be left out, and one of them may be
a leap second. -/
def readTime? (t : Text) : Option (Time × Text) := do
  let (hour, t) ← readNumber? 2 23 t
  let t ← List.isPrefixOf? [':'] t
  let (minute, t) ← readNumber? 2 59 t
  match t with
  | ':' :: t =>
    let (second, t) ← readNumber? 2 60 t
    let (nanosecond, t) := readFraction t
    return (⟨hour, minute, second, nanosecond⟩, t)
  | t => return ({ hour, minute }, t)

/-- The offset that starts a text, and the rest. -/
def readOffset? (t : Text) : Option (Offset × Text) := do
  match t with
  | 'Z' :: t | 'z' :: t => return (.universal, t)
  | sign :: t =>
    let (hours, t) ← readNumber? 2 23 t
    let t ← List.isPrefixOf? [':'] t
    let (minutes, t) ← readNumber? 2 59 t
    let n : Int := 60 * hours + minutes
    if sign == '+' then return (.minutes n, t)
    else if sign == '-' then return (.minutes (-n), t)
    else none
  | [] => none

/-- The time behind a date that has been read, and the rest. -/
def readDayTime? : Text → Option (Time × Text)
  | 'T' :: t | 't' :: t | ' ' :: t => readTime? t
  | _ => none

/-- The date or time that starts a text, and the rest. -/
def readDateTime? (t : Text) : Option (DateTime × Text) :=
  match readDate? t with
  | some (d, t) =>
    match readDayTime? t with
    | some (time, t) =>
      match readOffset? t with
      | some (offset, t) => some (.both d time (some offset), t)
      | none => some (.both d time none, t)
    | none => some (.date d, t)
  | none => (readTime? t).map fun (time, t) => (.time time, t)

/-! ## Writing -/

/-- The decimal digits of a number, behind zeros up to the given width. -/
def padded (width n : Nat) : Text :=
  let digits := Text.ofNat n
  List.replicate (width - digits.length) '0' ++ digits

/-- The text of a date. -/
def Date.text (d : Date) : Text :=
  padded 4 d.year ++ '-' :: padded 2 d.month ++ '-' :: padded 2 d.day

/-- The text of a time. -/
def Time.text (t : Time) : Text :=
  let fraction := ((padded 9 t.nanosecond).reverse.dropWhile (· == '0')).reverse
  padded 2 t.hour ++ ':' :: padded 2 t.minute ++ ':' :: padded 2 t.second ++
    (if fraction.isEmpty then [] else '.' :: fraction)

/-- The text of an offset. -/
def Offset.text : Offset → Text
  | .universal => ['Z']
  | .minutes n =>
    (if n < 0 then '-' else '+') :: padded 2 (n.natAbs / 60) ++ ':' :: padded 2 (n.natAbs % 60)

/-- The text of a date or time. -/
def DateTime.text : DateTime → Text
  | .date d => d.text
  | .time t => t.text
  | .both d t offset => d.text ++ 'T' :: t.text ++ (offset.map Offset.text).getD []

end Scaffold.Toml
