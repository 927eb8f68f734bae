import Scaffold.Decimal.Scaled
import Scaffold.Json.Basic
import Scaffold.Text.Hex

/-!
# Reading JSON

The strict grammar: one value with blanks around it, no comments, no trailing commas, and at most
127 values inside one another.  Of two entries with one key the later value counts.  The readers
take a bound on the number of steps, and every step reads a character, so the length of the text is
enough.
-/

namespace Scaffold.Json

/-- The text without leading JSON blanks. -/
def skipBlanks (t : Text) : Text :=
  t.dropWhile fun c => c == ' ' || c == '\n' || c == '\t' || c == '\r'

/-- The character of a `\u` escape, where two escapes may stand for one character, and the rest. -/
def readUnicode? (t : Text) : Option (Char × Text) := do
  let (high, t) ← Text.readHex? 4 t
  if 0xD800 ≤ high && high < 0xDC00 then
    match t with
    | '\\' :: 'u' :: t =>
      let (low, t) ← Text.readHex? 4 t
      if 0xDC00 ≤ low && low < 0xE000 then
        return (Char.ofNat (0x10000 + (high - 0xD800) * 0x400 + (low - 0xDC00)), t)
      else none
    | _ => none
  else if 0xDC00 ≤ high && high < 0xE000 then none
  else return (Char.ofNat high, t)

/-- The string whose opening quote has been read, and the rest. -/
def readString? : (fuel : Nat) → Text → Option (Text × Text)
  | 0, _ => none
  | fuel + 1, t => do
    match t with
    | [] => none
    | '"' :: t => return ([], t)
    | '\\' :: 'u' :: t =>
      let (c, t) ← readUnicode? t
      let (s, t) ← readString? fuel t
      return (c :: s, t)
    | '\\' :: e :: t =>
      let c ← match e with
        | '"' | '\\' | '/' => some e
        | 'b' => some '\x08'
        | 'f' => some '\x0c'
        | 'n' => some '\n'
        | 'r' => some '\r'
        | 't' => some '\t'
        | _ => none
      let (s, t) ← readString? fuel t
      return (c :: s, t)
    | c :: t =>
      if c.toNat < 0x20 || c == '\\' then none
      else
        let (s, t) ← readString? fuel t
        return (c :: s, t)

/-- The value of an unsigned number without point and exponent. -/
def wholeNumber (negative : Bool) (significand : Nat) : Json :=
  if !negative then .whole significand
  else if significand == 0 || Nat.pow 2 63 < significand then
    .fraction (-(Decimal.ofSignificand significand))
  else .whole (-significand)

/-- The number at the start of a text, and the rest. -/
def readNumber? (t : Text) : Option (Json × Text) := do
  let (negative, t) := match t with
    | '-' :: t => (true, t)
    | t => (false, t)
  let digits := t.takeWhile Char.isDigit
  let t := t.dropWhile Char.isDigit
  if digits.isEmpty || (digits.head? == some '0' && digits.length != 1) then none
  else
    let (significand, left) := Decimal.absorb 0 digits
    let fraction (significand : Nat) (exponent : Int) (t : Text) : Option (Json × Text) := do
      match t with
      | c :: rest =>
        if c == 'e' || c == 'E' then
          let (below, rest) := match rest with
            | '-' :: rest => (true, rest)
            | '+' :: rest => (false, rest)
            | rest => (false, rest)
          let ds := rest.takeWhile Char.isDigit
          if ds.isEmpty then none
          else
            let n : Int := ds.foldl (fun n c => 10 * n + (c.toNat - '0'.toNat)) 0
            let x ← Decimal.ofScaled? negative significand (exponent + if below then -n else n)
            return (.fraction x, rest.dropWhile Char.isDigit)
        else return (.fraction (← Decimal.ofScaled? negative significand exponent), t)
      | [] => return (.fraction (← Decimal.ofScaled? negative significand exponent), t)
    match t with
    | '.' :: rest =>
      let ds := rest.takeWhile Char.isDigit
      if ds.isEmpty then none
      else
        let (significand, unread) := Decimal.absorb significand ds
        fraction significand ((left : Int) - (ds.length - unread : Nat))
          (rest.dropWhile Char.isDigit)
    | c :: _ =>
      if c == 'e' || c == 'E' || left != 0 then fraction significand left t
      else return (wholeNumber negative significand, t)
    | [] =>
      if left != 0 then fraction significand left t
      else return (wholeNumber negative significand, t)

mutual

/-- The value at the start of a text, and the rest; `depth` values may still stand inside it. -/
def readValue? : (fuel depth : Nat) → Text → Option (Json × Text)
  | 0, _, _ => none
  | fuel + 1, depth, t =>
    match skipBlanks t with
    | 'n' :: 'u' :: 'l' :: 'l' :: t => some (.null, t)
    | 't' :: 'r' :: 'u' :: 'e' :: t => some (.boolean true, t)
    | 'f' :: 'a' :: 'l' :: 's' :: 'e' :: t => some (.boolean false, t)
    | '"' :: t => (readString? (t.length + 1) t).map fun (s, t) => (.text s, t)
    | '[' :: t =>
      match depth with
      | 0 => none
      | depth + 1 =>
        match skipBlanks t with
        | ']' :: t => some (.array [], t)
        | t => (readItems? fuel depth t).map fun (items, t) => (.array items, t)
    | '\x7b' :: t =>
      match depth with
      | 0 => none
      | depth + 1 =>
        match skipBlanks t with
        | '\x7d' :: t => some (.object [], t)
        | t => (readEntries? fuel depth t).map fun (entries, t) => (.object entries, t)
    | t => readNumber? t

/-- The items of an array that is not empty, up to its closing bracket, and the rest. -/
def readItems? : (fuel depth : Nat) → Text → Option (List Json × Text)
  | 0, _, _ => none
  | fuel + 1, depth, t => do
    let (item, t) ← readValue? fuel depth t
    match skipBlanks t with
    | ',' :: t =>
      let (items, t) ← readItems? fuel depth t
      return (item :: items, t)
    | ']' :: t => return ([item], t)
    | _ => none

/-- The entries of an object that is not empty, up to its closing brace, and the rest. -/
def readEntries? : (fuel depth : Nat) → Text → Option (List (Text × Json) × Text)
  | 0, _, _ => none
  | fuel + 1, depth, t => do
    match skipBlanks t with
    | '"' :: t =>
      let (key, t) ← readString? (t.length + 1) t
      match skipBlanks t with
      | ':' :: t =>
        let (value, t) ← readValue? fuel depth t
        match skipBlanks t with
        | ',' :: t =>
          let (entries, t) ← readEntries? fuel depth t
          return ((key, value) :: entries, t)
        | '\x7d' :: t => return ([(key, value)], t)
        | _ => none
      | _ => none
    | _ => none

end

/-- The most values that may stand inside one another. -/
def maxDepth : Nat := 127

/-- Reads a document, one value, and keeps repeated keys as they stand. -/
def readRepeated? (t : Text) : Option Json := do
  let (value, rest) ← readValue? (2 * t.length + 2) maxDepth t
  if (skipBlanks rest).isEmpty then some value else none

/-- Reads a document: one value with distinct keys. -/
def read? (t : Text) : Option Json := (readRepeated? t).map distinct

end Scaffold.Json
