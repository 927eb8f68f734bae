import Scaffold.Decimal.Text

/-!
# YAML values

What a document means.  The entries of a mapping keep their order, but it does not count when two
mappings are compared; and unlike in arithmetic the undefined number equals itself, because keys of
mappings must be comparable.
-/

namespace Scaffold.Yaml

/-- A YAML value. -/
inductive Value where
  | null
  | boolean (b : Bool)
  | whole (n : Int)
  | fraction (x : Float)
  | text (t : Text)
  | sequence (items : List Value)
  | mapping (entries : List (Value × Value))
  | tagged (name : Text) (value : Value)
  deriving Inhabited

namespace Value

/-- Two fractions are the same number or both undefined. -/
def sameFraction (x y : Float) : Bool := x == y || (x.isNaN && y.isNaN)

mutual

/-- Two values mean the same. -/
def same : Value → Value → Bool
  | .null, .null => true
  | .boolean a, .boolean b => a == b
  | .whole a, .whole b => a == b
  | .fraction a, .fraction b => sameFraction a b
  | .text a, .text b => a == b
  | .sequence as, .sequence bs => sameItems as bs
  | .mapping as, .mapping bs => as.length == bs.length && includes as bs
  | .tagged n a, .tagged m b => n == m && same a b
  | _, _ => false

/-- Two lists of items mean the same. -/
def sameItems : List Value → List Value → Bool
  | [], [] => true
  | a :: as, b :: bs => same a b && sameItems as bs
  | _, _ => false

/-- Every entry stands among the others. -/
def includes : List (Value × Value) → List (Value × Value) → Bool
  | [], _ => true
  | (key, value) :: as, bs => bs.any (fun b => same key b.1 && same value b.2) && includes as bs

end

instance : BEq Value := ⟨same⟩

/-- The value without its tags. -/
def untagged : Value → Value
  | .tagged _ value => untagged value
  | value => value

/-- The text of a value, with or without a tag. -/
def text? (v : Value) : Option Text :=
  match v.untagged with
  | .text t => some t
  | _ => none

/-- The text of a number. -/
def fractionText (x : Float) : Text := Decimal.Style.data.write x

/-- The text that a string, number or boolean without a tag stands for. -/
def scalarText? : Value → Option Text
  | .text t => some t
  | .whole n => some (Text.ofInt n)
  | .fraction x => some (fractionText x)
  | .boolean b => some (Text.ofBool b)
  | _ => none

end Value

end Scaffold.Yaml
