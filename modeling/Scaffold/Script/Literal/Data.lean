import Scaffold.Json.Basic
import Scaffold.Script.Literal.Basic
import Scaffold.Decimal.Binary

/-!
# Literals of data

Every JSON value is a literal.  Whole numbers become binary numbers, the nearest ones.
-/

namespace Scaffold.Script.Literal

/-- The number nearest to an integer. -/
def ofWhole (n : Int) : Float :=
  let x := Decimal.ofDigits n.natAbs 0
  if n < 0 then -x else x

mutual

/-- The literal of a JSON value. -/
def ofJson : Json → Literal
  | .null => .null
  | .boolean b => .boolean b
  | .whole n => .number (ofWhole n)
  | .fraction x => .number x
  | .text t => .string t
  | .array items => .array (ofItems items)
  | .object entries => .object (ofEntries entries)

/-- The literals of the items of an array. -/
def ofItems : List Json → List Literal
  | [] => []
  | item :: items => ofJson item :: ofItems items

/-- The entries of an object with literals for their values. -/
def ofEntries : List (Text × Json) → List (Text × Literal)
  | [] => []
  | (key, value) :: entries => (key, ofJson value) :: ofEntries entries

end

end Scaffold.Script.Literal
