import Scaffold.Text.Hex
import Scaffold.Yaml.Tag
import Scaffold.Yaml.Value

/-!
# What scalars mean

A plain scalar without a tag is null, a boolean or a number when it is spelled like one, and a
string otherwise; a quoted one is a string.  The tags of the core schema demand a type, the names
that start with an exclamation mark demand none, and every other tag makes a scalar a string.
-/

namespace Scaffold.Yaml

/-! ## Spellings -/

/-- The words for null. -/
def isNullWord (t : Text) : Bool := t == "null" || t == "Null" || t == "NULL" || t == "~"

/-- The boolean that a word stands for. -/
def booleanWord? (t : Text) : Option Bool :=
  if t == "true" || t == "True" || t == "TRUE" then some true
  else if t == "false" || t == "False" || t == "FALSE" then some false
  else none

/-- The digits of a number in the given base; at least one, and no other character. -/
def digits? (base : Nat) (t : Text) : Option Nat :=
  if t.isEmpty then none
  else t.foldlM (fun n c => do
    let d ← Text.hexValue? c
    if d < base then some (base * n + d) else none) 0

/-- Several digits of which the first is zero are no number. -/
def hasSpareZero (t : Text) : Bool :=
  match t with
  | '0' :: t => !t.isEmpty && t.all Char.isDigit
  | _ => false

/-- The whole number that digits stand for, whose letter may say that their base is not ten. -/
def natural? : Text → Option Nat
  | '0' :: 'x' :: t => digits? 16 t
  | '0' :: 'o' :: t => digits? 8 t
  | '0' :: 'b' :: t => digits? 2 t
  | t => if hasSpareZero t then none else digits? 10 t

/-- The whole number that a text stands for, of at most 128 bits. -/
def whole? (t : Text) : Option Int := do
  let (negative, body) := Decimal.readSign t
  let n ← natural? body
  if n ≤ if negative then Nat.pow 2 127 else Nat.pow 2 128 - 1 then
    return if negative then -(n : Int) else n
  else none

/-- The whole numbers that values may hold. -/
def fitsWord (n : Int) : Bool := -(Nat.pow 2 63 : Nat) ≤ n && n < (Nat.pow 2 64 : Nat)

/-- The text without a plus sign; none when another sign follows it. -/
def dropPlus? : Text → Option Text
  | '+' :: '+' :: _ | '+' :: '-' :: _ => none
  | '+' :: t => some t
  | t => some t

/-- The number that a text stands for; a finite one, unless it is spelled with a leading point. -/
def fraction? (t : Text) : Option Float := do
  let unsigned ← dropPlus? t
  if unsigned == ".inf" || unsigned == ".Inf" || unsigned == ".INF" then
    return Decimal.ofDigits 1 400
  else if t == "-.inf" || t == "-.Inf" || t == "-.INF" then return -(Decimal.ofDigits 1 400)
  else if t == ".nan" || t == ".NaN" || t == ".NAN" then return 0.0 / 0.0
  else (Decimal.read? unsigned).filter Decimal.isFinite

/-! ## Meaning -/

namespace Value

/-- The value of a plain scalar; none for a whole number that no value may hold. -/
def ofPlain? (t : Text) : Option Value :=
  if t.isEmpty || isNullWord t then some .null
  else
    match booleanWord? t with
    | some b => some (.boolean b)
    | none =>
      match whole? t with
      | some n => if fitsWord n then some (.whole n) else none
      | none =>
        match if hasSpareZero (Decimal.readSign t).2 then none else fraction? t with
        | some x => some (.fraction x)
        | none => some (.text t)

/-- The value of a scalar with the tag `tag`; none when it is not of the type that the tag
demands. -/
def ofScalar? (tag : Option TagName) (plain : Bool) (t : Text) : Option Value :=
  match tag with
  | none => if plain then ofPlain? t else some (.text t)
  | some tag =>
    if tag == coreName "bool" then (booleanWord? t).map .boolean
    else if tag == coreName "int" then ((whole? t).filter fitsWord).map .whole
    else if tag == coreName "float" then (fraction? t).map .fraction
    else if tag == coreName "null" then if isNullWord t then some .null else none
    else if plain && tag.head? == some (some '!') then ofPlain? t
    else some (.text t)

end Value

end Scaffold.Yaml
