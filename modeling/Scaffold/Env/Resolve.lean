import Scaffold.Env.DotEnv
import Scaffold.Env.Model

/-!
# Resolving variables

The value of a declared variable for a target: a static variable has the value of its entry in the
environment file, a calculated one that of its calculation on all static values.
-/

namespace Scaffold.Env

/-- The value of a static variable; none when it has no entry or an empty one. -/
def staticValue (env : DotEnv) (d : Declaration) : Except Fault (Option Setting) :=
  match env.get? d.key with
  | some raw => (coerce d.type d.key raw).map some
  | none => .ok none

/-- What calculations see of the static variables: a value that is not of its declared type is left
out. -/
def Snapshot.ofModel (m : Model) (env : DotEnv) : Snapshot :=
  m.statics.foldl (fun s d => s.insert d.key ((staticValue env d).toOption.join)) []

/-- The value of a variable for a target. -/
def resolve (m : Model) (env : DotEnv) (key : Text) (target : Target) :
    Except Fault (Option Setting) :=
  match m.declaration? key with
  | none => .error (.notDeclared key)
  | some (.static, d) => staticValue env d
  | some (.calculated, _) => do
    let calculation ← m.calculation key
    match calculation.exprFor? target with
    | none => .error (.missingValue key target)
    | some e => (e.evaluate (.ofModel m env)).mapError (.unresolvedReference key)

end Scaffold.Env
