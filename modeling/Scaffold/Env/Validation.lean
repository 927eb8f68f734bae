import Scaffold.Env.Resolve

/-!
# Validation

All that is wrong with the values of an environment, one finding after the other: first the static
variables in the order of the model, then every calculated one for every target.
-/

namespace Scaffold.Env

/-- What is wrong with a value. -/
inductive Reason where
  | required
  | number
  | boolean
  | fileDoesNotExist
  | calculation
  deriving DecidableEq, Repr

/-- The word for a reason. -/
def Reason.name : Reason → Text
  | .required => "REQUIRED"
  | .number => "NUMBER"
  | .boolean => "BOOLEAN"
  | .fileDoesNotExist => "FILE_DOES_NOT_EXIST"
  | .calculation => "CALCULATION"

/-- Something wrong with a variable, or with the environment file as a whole. -/
structure Finding where
  key : Option Text
  reason : Reason
  message : Text
  deriving DecidableEq, Repr

/-- The line that reports a finding. -/
def Finding.text (f : Finding) : Text :=
  match f.key with
  | some key => f.reason.name ++ ' ' :: key ++ ": " ++ f.message
  | none => f.reason.name ++ ": " ++ f.message

/-- The reason to refuse a value of a type; every text is a string. -/
def ValueType.reason? : ValueType → Option Reason
  | .string => none
  | .number => some .number
  | .boolean => some .boolean

/-- What is wrong with a static variable. -/
def checkStatic (env : DotEnv) (d : Declaration) : Option Finding :=
  match env.get? d.key with
  | none =>
    if d.required then some ⟨some d.key, .required, "required variable has no value"⟩ else none
  | some raw =>
    match d.type.reason?, coerce d.type d.key raw with
    | some reason, .error _ =>
      some ⟨some d.key, reason, "'" ++ raw ++ "' is not a valid " ++ d.type.name⟩
    | _, _ => none

/-- What is wrong with the value that a calculated variable has for a target. -/
def checkTarget (s : Snapshot) (d : Declaration) (c : Calculation) (target : Target) :
    Option Text :=
  match (c.exprFor? target).map (Expr.evaluate s) with
  | none => some ("no value for target '" ++ target.name ++ "'")
  | some (.error reference) =>
    some ("references undeclared static variable '" ++ reference ++ "'")
  | some (.ok none) => none
  | some (.ok (some value)) =>
    if value.type == d.type then none
    else
      some ("returns " ++ value.type.name ++ " '" ++ value.text ++ "' for target '" ++
        target.name ++ "', expected " ++ d.type.name)

/-- What is wrong with a calculated variable. -/
def checkCalculated (m : Model) (s : Snapshot) (d : Declaration) : List Finding :=
  match m.calculation d.key with
  | .error fault => [⟨some d.key, .calculation, fault.message⟩]
  | .ok c =>
    (Target.all.filterMap (checkTarget s d c)).map fun message =>
      ⟨some d.key, .calculation, message⟩

/-- All that is wrong with the values of an environment. -/
def validate (m : Model) (env : DotEnv) : List Finding :=
  m.statics.filterMap (checkStatic env) ++
    m.calculated.flatMap (checkCalculated m (.ofModel m env))

end Scaffold.Env
