import Scaffold.Fault
import Scaffold.Script.Literal.Basic
import Scaffold.Script.Quoted
import Scaffold.Script.Vocabulary

/-!
# Writing literals

`Literal.print` writes a value as script text.  Arrays and objects that are not empty have one item
or entry a line, four blanks deeper than the bracket that opens them.  Numbers without digits and
imports that would not be read back as imports are refused.
-/

namespace Scaffold.Script

/-- How much deeper the items of a literal stand. -/
def indentStep : Nat := 4

/-- A module path that needs no escapes. -/
def isPlainModulePath (t : Text) : Bool :=
  !t.isEmpty && t.all fun c => c != '\'' && c != '\\' && c != '\n'

/-- The text before the module path of a lazy import. -/
def lazyImportHead : Text := "() => import('"

/-- The text between the module path and the export of a lazy import. -/
def lazyImportMiddle : Text := "').then(m => m."

namespace Literal

mutual

/-- The source text of a value whose closing bracket stands `indent` blanks deep. -/
def print (voc : Vocabulary) (indent : Nat) : Literal → Except Fault Text
  | .string t => .ok ((voc.source? t).getD (quoted t))
  | .number x =>
    if Decimal.isFinite x then .ok (Decimal.scriptText x) else .error (.numberNotFinite x)
  | .boolean b => .ok (Text.ofBool b)
  | .null => .ok "null"
  | .undefined => .ok "undefined"
  | .lazyImport modulePath exportName =>
    if isPlainModulePath modulePath && isIdentifier exportName then
      .ok (lazyImportHead ++ modulePath ++ lazyImportMiddle ++ exportName ++ [')'])
    else .error (.importNotPlain modulePath exportName)
  | .expression source => .ok source
  | .array [] => .ok "[]"
  | .array items => do
    let body ← printItems voc (indent + indentStep) items
    return "[\n" ++ body ++ '\n' :: Text.spaces indent ++ [']']
  | .object [] => .ok "\x7b\x7d"
  | .object entries => do
    let body ← printEntries voc (indent + indentStep) entries
    return "\x7b\n" ++ body ++ '\n' :: Text.spaces indent ++ ['\x7d']

/-- The items on lines of their own, a comma between two of them. -/
def printItems (voc : Vocabulary) (indent : Nat) : List Literal → Except Fault Text
  | [] => .ok []
  | [item] => do
    return Text.spaces indent ++ (← print voc indent item)
  | item :: items => do
    let head ← print voc indent item
    let tail ← printItems voc indent items
    return Text.spaces indent ++ head ++ ",\n" ++ tail

/-- The entries on lines of their own, a comma between two of them. -/
def printEntries (voc : Vocabulary) (indent : Nat) : List (Text × Literal) → Except Fault Text
  | [] => .ok []
  | [(key, value)] => do
    return Text.spaces indent ++ keyText key ++ ": " ++ (← print voc indent value)
  | (key, value) :: entries => do
    let head ← print voc indent value
    let tail ← printEntries voc indent entries
    return Text.spaces indent ++ keyText key ++ ": " ++ head ++ ",\n" ++ tail

end

end Literal

end Scaffold.Script
