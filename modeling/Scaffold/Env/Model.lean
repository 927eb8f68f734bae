import Scaffold.Env.DotEnv
import Scaffold.Env.Variable
import Scaffold.Script.Splice

/-!
# The environment model

The model is a script file that anyone may edit.  Two type blocks declare the static and the
calculated variables, and an object holds the calculations.  The blocks are found by the text that
opens them, and everything else in the file is left alone.
-/

namespace Scaffold.Env

open Script

/-- The text that opens the block of a kind of variable. -/
def VariableKind.marker : VariableKind → Text
  | .static => "StaticGlobalEnvironment = \x7b"
  | .calculated => "CalculatedGlobalEnvironment = \x7b"

/-- The text that opens the object of the calculations. -/
def schemaMarker : Text := "calculationSchemaFor: CalculationSchema = \x7b"

/-- The lines of a model without variables. -/
def skeletonLines : List String := [
  "// Generated by monux.",
  "// DON'T RENAME the blocks below: monux finds them by their headers.",
  "",
  "export type StaticGlobalEnvironment = \x7b",
  "\x7d;",
  "",
  "export type CalculatedGlobalEnvironment = \x7b",
  "\x7d;",
  "",
  "export type GlobalEnvironment = StaticGlobalEnvironment & CalculatedGlobalEnvironment;",
  "",
  "export type DeploymentTarget = 'dev' | 'local' | 'stage' | 'prod';",
  "",
  "export type CalculationSchema = \x7b",
  "    [K in keyof CalculatedGlobalEnvironment]: (",
  "        env: StaticGlobalEnvironment,",
  "        target: DeploymentTarget",
  "    ) => CalculatedGlobalEnvironment[K];",
  "\x7d;",
  "",
  "export const calculationSchemaFor: CalculationSchema = \x7b",
  "\x7d;",
  "",
  "export function defineVariables<K extends keyof GlobalEnvironment>(keys: K[]): K[] \x7b",
  "    return keys;",
  "\x7d"]

/-- A model without variables. -/
def skeleton : Text := skeletonLines.flatMap fun line => line.toList ++ ['\n']

/-- What a model file declares. -/
structure Model where
  statics : List Declaration
  calculated : List Declaration
  /-- The source text of the calculations, by key. -/
  calculations : List (Text × Text)
  deriving DecidableEq, Repr

/-! ## Reading -/

/-- The declaration that a member of a type block makes. -/
def readDeclaration (kind : VariableKind) (member : Text) : Except Fault Declaration :=
  let declaration? : Option Declaration := do
    let (key, type) ← splitKeyValue? member
    let type ← ValueType.ofText? type
    let key := key.trim
    if key.getLast? == some '?' then
      return { key := Text.trimEnd key.dropLast, required := false, type }
    else return { key, required := true, type }
  match declaration? with
  | some declaration => .ok declaration
  | none => .error (.invalidDeclaration member kind)

/-- The members of a type block, which commas or semicolons separate. -/
def membersOf (inner : Text) : List Text :=
  (((splitTopLevel ';' inner).flatMap (splitTopLevel ',')).map trimCode).filter fun member =>
    !member.isEmpty

/-- The declarations of a type block. -/
def readBlock (kind : VariableKind) (inner : Text) : Except Fault (List Declaration) :=
  (membersOf inner).mapM (readDeclaration kind)

/-- The source text of an entry of the calculations. -/
def calculationSource (voc : Vocabulary) : Literal → Except Fault Text
  | .expression source => .ok source
  | value => value.print voc 0

/-- The calculations of an object, by key. -/
def readSchema (voc : Vocabulary) (content : Text) : Except Fault (List (Text × Text)) :=
  match Literal.read voc content with
  | .object entries => entries.mapM fun (key, value) => do
    return (key, ← calculationSource voc value)
  | _ => .ok []

namespace Model

/-- Reads a model file. -/
def read (d : Document) (voc : Vocabulary) : Except Fault Model := do
  let block (kind : VariableKind) : Except Fault (List Declaration) := do
    readBlock kind (← Region.ofDocument d kind.marker).inner
  let statics ← block .static
  let calculated ← block .calculated
  let calculations ← readSchema voc (← Region.ofDocument d schemaMarker).content
  return { statics, calculated, calculations }

/-! ## Looking up -/

/-- The declaration of a static variable. -/
def static? (m : Model) (key : Text) : Option Declaration := m.statics.find? fun d => d.key == key

/-- The declaration of a variable and its kind; a static variable hides a calculated one. -/
def declaration? (m : Model) (key : Text) : Option (VariableKind × Declaration) :=
  match m.static? key with
  | some d => some (.static, d)
  | none => (m.calculated.find? fun d => d.key == key).map (.calculated, ·)

/-- `true` when a variable is declared. -/
def contains (m : Model) (key : Text) : Bool := (m.declaration? key).isSome

/-- The calculation of a variable. -/
def calculation (m : Model) (key : Text) : Except Fault Calculation :=
  match m.calculations.lookup key with
  | none => .error (.invalidCalculation key .noEntry)
  | some source => (Calculation.read source).mapError (.invalidCalculation key)

end Model

end Scaffold.Env
