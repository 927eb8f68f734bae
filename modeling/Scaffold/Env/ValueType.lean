import Scaffold.Decimal.Text

/-!
# Values of environment variables

A variable holds a string, a number or a boolean.  `Setting.text` is the form a value takes in
environment files and templates, and `ValueType.read?` reads that form back as a value of the
declared type.
-/

namespace Scaffold.Env

/-- The declared type of a variable. -/
inductive ValueType where
  | string
  | number
  | boolean
  deriving DecidableEq, Repr

/-- The two kinds of variables: one with a value of its own and one that is calculated. -/
inductive VariableKind where
  | static
  | calculated
  deriving DecidableEq, Repr

/-- The name of the block of the model that declares a kind of variable. -/
def VariableKind.blockName : VariableKind → Text
  | .static => "StaticGlobalEnvironment"
  | .calculated => "CalculatedGlobalEnvironment"

/-- The value of a variable. -/
inductive Setting where
  | string (t : Text)
  | number (x : Float)
  | boolean (b : Bool)

namespace ValueType

/-- The word for a type. -/
def name : ValueType → Text
  | .string => "string"
  | .number => "number"
  | .boolean => "boolean"

/-- Every type. -/
def all : List ValueType := [.string, .number, .boolean]

/-- The type of the given name. -/
def ofName? (name : Text) : Option ValueType := all.find? fun type => type.name == name

/-- The type that a text names; blanks around the name do not count. -/
def ofText? (t : Text) : Option ValueType := ofName? t.trim

end ValueType

namespace Setting

/-- The type of a value. -/
def type : Setting → ValueType
  | .string _ => .string
  | .number _ => .number
  | .boolean _ => .boolean

/-- The form of a value in environment files and templates. -/
def text : Setting → Text
  | .string t => t
  | .number x => Decimal.scriptText x
  | .boolean b => Text.ofBool b

/-- Values are equal when their types and contents are; numbers are compared as numbers. -/
protected def beq : Setting → Setting → Bool
  | .string t, .string u => t == u
  | .number x, .number y => x == y
  | .boolean b, .boolean c => b == c
  | _, _ => false

instance : BEq Setting := ⟨Setting.beq⟩

end Setting

/-- Reads a value of a declared type.  A string is taken as it is; blanks around a number or a
boolean do not count, and a number is finite. -/
def ValueType.read? : ValueType → Text → Option Setting
  | .string, t => some (.string t)
  | .number, t => ((Decimal.read? t.trim).filter Decimal.isFinite).map .number
  | .boolean, t =>
    if t.trim == "true" then some (.boolean true)
    else if t.trim == "false" then some (.boolean false)
    else none

/-- What is read as a value of a type has that type. -/
theorem ValueType.type_of_read? {τ : ValueType} {t : Text} {v : Setting}
    (h : τ.read? t = some v) : v.type = τ := by
  cases τ with
  | string => simp only [read?, Option.some.injEq] at h; subst h; rfl
  | number =>
    obtain ⟨x, -, rfl⟩ := Option.map_eq_some_iff.1 h
    rfl
  | boolean =>
    simp only [read?] at h
    split at h
    · cases h; rfl
    · split at h <;> cases h
      rfl

end Scaffold.Env
