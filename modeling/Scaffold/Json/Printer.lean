import Scaffold.Decimal.Text
import Scaffold.Json.Basic

/-!
# Writing JSON

Two layouts: `compact` without any blanks, for payloads, and `pretty` with one entry a line, for
settings files.
-/

namespace Scaffold.Json

/-- The hexadecimal digit of a number below sixteen. -/
def hexDigit (n : Nat) : Char := (Nat.toDigits 16 (n % 16)).headD '0'

/-- The character as it stands inside a string. -/
def escapeChar (c : Char) : Text :=
  match c with
  | '"' => ['\\', '"']
  | '\\' => ['\\', '\\']
  | '\n' => ['\\', 'n']
  | '\r' => ['\\', 'r']
  | '\t' => ['\\', 't']
  | '\x08' => ['\\', 'b']
  | '\x0c' => ['\\', 'f']
  | c => if c.toNat < 0x20 then "\\u00" ++ [hexDigit (c.toNat / 16), hexDigit c.toNat] else [c]

/-- A text between double quotes. -/
def quote (t : Text) : Text := '"' :: t.flatMap escapeChar ++ ['"']

/-- Fractions are data numbers whose exponents always have a sign. -/
def fractionStyle : Decimal.Style := { Decimal.Style.data with signsExponent := true }

/-- The text of a fraction; the numbers without digits have none. -/
def fractionText? (x : Float) : Option Text :=
  if Decimal.isFinite x then some (fractionStyle.write x) else none

mutual

/-- The value without blanks. -/
def compact : Json → Text
  | .null => "null"
  | .boolean b => Text.ofBool b
  | .whole n => Text.ofInt n
  | .fraction x => (fractionText? x).getD "null"
  | .text t => quote t
  | .array items => '[' :: compactItems items ++ [']']
  | .object entries => '\x7b' :: compactEntries entries ++ ['\x7d']

/-- The items with commas between them. -/
def compactItems : List Json → Text
  | [] => []
  | [item] => compact item
  | item :: items => compact item ++ ',' :: compactItems items

/-- The entries with commas between them. -/
def compactEntries : List (Text × Json) → Text
  | [] => []
  | [(key, value)] => quote key ++ ':' :: compact value
  | (key, value) :: entries => quote key ++ ':' :: compact value ++ ',' :: compactEntries entries

end

mutual

/-- The value with one item or entry a line, two blanks deeper than `indent`. -/
def pretty (indent : Nat) : Json → Text
  | .array [] => "[]"
  | .array items =>
    '[' :: prettyItems (indent + 2) items ++ '\n' :: Text.spaces indent ++ [']']
  | .object [] => "\x7b\x7d"
  | .object entries =>
    '\x7b' :: prettyEntries (indent + 2) entries ++ '\n' :: Text.spaces indent ++ ['\x7d']
  | value => compact value

/-- Each item on a line of its own. -/
def prettyItems (indent : Nat) : List Json → Text
  | [] => []
  | [item] => '\n' :: Text.spaces indent ++ pretty indent item
  | item :: items =>
    '\n' :: Text.spaces indent ++ pretty indent item ++ ',' :: prettyItems indent items

/-- Each entry on a line of its own. -/
def prettyEntries (indent : Nat) : List (Text × Json) → Text
  | [] => []
  | [(key, value)] => '\n' :: Text.spaces indent ++ quote key ++ ": " ++ pretty indent value
  | (key, value) :: entries =>
    '\n' :: Text.spaces indent ++ quote key ++ ": " ++ pretty indent value ++
      ',' :: prettyEntries indent entries

end

end Scaffold.Json
