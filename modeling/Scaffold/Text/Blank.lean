/-!
# Blank and control characters

Two character classes of the Unicode standard that every reader of this library needs: the
characters with property `White_Space`, which are trimmed and skipped, and the control characters
(general category `Cc`), which are never written bare.
-/

namespace Scaffold

/-- The characters with the property `White_Space`, as inclusive ranges of code points. -/
def blankRanges : List (Nat × Nat) :=
  [(0x09, 0x0D), (0x20, 0x20), (0x85, 0x85), (0xA0, 0xA0), (0x1680, 0x1680), (0x2000, 0x200A),
   (0x2028, 0x2029), (0x202F, 0x202F), (0x205F, 0x205F), (0x3000, 0x3000)]

/-- `true` for the characters with the property `White_Space`. -/
def isBlank (c : Char) : Bool :=
  blankRanges.any fun (lo, hi) => lo ≤ c.toNat && c.toNat ≤ hi

/-- `true` for the control characters: the two ASCII blocks and the `C1` block. -/
def isControl (c : Char) : Bool :=
  c.toNat < 0x20 || (0x7F ≤ c.toNat && c.toNat ≤ 0x9F)

end Scaffold
