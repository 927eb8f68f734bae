import Scaffold.Env.Calculation
import Scaffold.Fault

/-!
# Variables

What is declared about a variable and what is known about it when it is added: a static variable
may come with a value, a calculated one comes with its calculation.
-/

namespace Scaffold.Env

/-- What is wrong with a word that names no type. -/
def ValueType.unknownMessage (word : Text) : Text :=
  "unsupported variable type '" ++ word.trim ++ ['\'']

/-- The value that the text of a variable stands for. -/
def coerce (type : ValueType) (key raw : Text) : Except Fault Setting :=
  match type.read? raw with
  | some value => .ok value
  | none => .error (.invalidValue key raw type)

/-- The declaration of a variable. -/
structure Declaration where
  key : Text
  required : Bool
  type : ValueType
  deriving DecidableEq, Repr

/-- The line of the model that declares a variable. -/
def Declaration.render (d : Declaration) : Text :=
  d.key ++ (if d.required then ([] : Text) else ['?']) ++ ": " ++ d.type.name

/-- A variable whose value stands in the environment file. -/
structure StaticVariable extends Declaration where
  value : Option Setting

/-- A variable whose value is calculated from static ones. -/
structure CalculatedVariable extends Declaration where
  value : Calculation

/-- `true` for the keys that may be declared: small ASCII letters, digits and underscores, with a
letter first. -/
def isValidKey : Text → Bool
  | [] => false
  | c :: t => c.isLower && t.all fun c => c.isLower || c.isDigit || c == '_'

/-- Refuses a key that may not be declared. -/
def checkKey (key : Text) : Except Fault Unit :=
  if isValidKey key then .ok () else .error (.invalidKey key)

end Scaffold.Env
