import Scaffold.Text.Basic

/-!
# Literals

The values that script text is read into and written from.  An object keeps its entries as they
stand in the source, repeated keys included, and source text of any other form is kept as it is.
-/

namespace Scaffold.Script

/-- A value of script text. -/
inductive Literal where
  | string (t : Text)
  | number (x : Float)
  | boolean (b : Bool)
  | null
  | undefined
  | array (items : List Literal)
  | object (entries : List (Text × Literal))
  /-- A function that loads a module on demand and picks one of its exports. -/
  | lazyImport (modulePath exportName : Text)
  | expression (source : Text)
  deriving Inhabited

namespace Literal

mutual

/-- Equal values; numbers are compared as numbers. -/
protected def beq : Literal → Literal → Bool
  | .string t, .string u => t == u
  | .number x, .number y => x == y
  | .boolean b, .boolean c => b == c
  | .null, .null => true
  | .undefined, .undefined => true
  | .array xs, .array ys => beqItems xs ys
  | .object xs, .object ys => beqEntries xs ys
  | .lazyImport m e, .lazyImport n f => m == n && e == f
  | .expression s, .expression t => s == t
  | _, _ => false

/-- Equal items, one by one. -/
def beqItems : List Literal → List Literal → Bool
  | [], [] => true
  | x :: xs, y :: ys => Literal.beq x y && beqItems xs ys
  | _, _ => false

/-- Equal entries, one by one. -/
def beqEntries : List (Text × Literal) → List (Text × Literal) → Bool
  | [], [] => true
  | (k, x) :: xs, (l, y) :: ys => k == l && Literal.beq x y && beqEntries xs ys
  | _, _ => false

end

instance : BEq Literal := ⟨Literal.beq⟩

/-- The value of the first entry of a key of an object. -/
def get? (key : Text) : Literal → Option Literal
  | .object entries => entries.lookup key
  | _ => none

/-- The text of a string. -/
def asString? : Literal → Option Text
  | .string t => some t
  | _ => none

end Literal

end Scaffold.Script
