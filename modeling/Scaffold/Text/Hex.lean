import Scaffold.Text.Basic

/-!
# Hexadecimal digits

Escapes in quoted text name a character by its number, written with a fixed count of hexadecimal
digits.
-/

namespace Scaffold.Text

/-- The value of a hexadecimal digit. -/
def hexValue? (c : Char) : Option Nat :=
  if c.isDigit then some (c.toNat - '0'.toNat)
  else if 'a' ≤ c && c ≤ 'f' then some (c.toNat - 'a'.toNat + 10)
  else if 'A' ≤ c && c ≤ 'F' then some (c.toNat - 'A'.toNat + 10)
  else none

/-- The character with a number, when there is one. -/
def charOf? (n : Nat) : Option Char := if n.isValidChar then some (Char.ofNat n) else none

/-- The number that `count` hexadecimal digits write, and the rest. -/
def readHex? (count : Nat) (t : Text) : Option (Nat × Text) := do
  let digits ← (t.take count).mapM hexValue?
  if digits.length == count then
    return (digits.foldl (fun n d => 16 * n + d) 0, t.drop count)
  else none

/-- The character whose number `count` hexadecimal digits write, and the rest. -/
def readHexChar? (count : Nat) (t : Text) : Option (Char × Text) := do
  let (n, t) ← readHex? count t
  return (← charOf? n, t)

end Scaffold.Text
