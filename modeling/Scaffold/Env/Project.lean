import Scaffold.Env.Model

/-!
# Projects

A project selects some variables of the environment in a model file of its own and gets their
values as a generated file.  This module holds the texts of both files and the relative import
between them.
-/

namespace Scaffold.Env

open Script

/-- The text that opens the list of a project's variables. -/
def projectMarker : Text := "defineVariables("

/-- A list of keys as a literal. -/
def keyList (keys : List Text) : Literal := .array (keys.map .string)

/-- A new project model that imports the environment model and selects the given keys. -/
def renderProjectModel (importPath : Text) (keys : List Text) (voc : Vocabulary) :
    Except Fault Text := do
  return "import \x7b defineVariables \x7d from '" ++ importPath ++ "';\n\n" ++
    "// Keys of the global environment used by this project.\n" ++
    "export const environmentVariables = defineVariables(" ++ (← (keyList keys).print voc 0) ++
    ");\n"

/-- The keys that a project model selects; what is no string is passed over. -/
def readProjectKeys (d : Document) (voc : Vocabulary) : Except Fault (List Text) := do
  let region ← Region.ofDocument d projectMarker
  match Literal.read voc region.content with
  | .array items => return items.filterMap Literal.asString?
  | _ => return []

/-- The generated file with the values of a project's variables. -/
def renderEnvironmentFile (target : Target) (values : List (Text × Literal)) (voc : Vocabulary) :
    Except Fault Text := do
  return "// Generated by monux for the '" ++ target.name ++
    "' target. Run `monux env build` to regenerate.\n" ++
    "export const environment = " ++ (← (Literal.object values).print voc 0) ++ ";\n"

/-- The number of elements that two lists share at their starts. -/
def commonLength {α : Type} [BEq α] : List α → List α → Nat
  | a :: as, b :: bs => if a == b then commonLength as bs + 1 else 0
  | _, _ => 0

/-- The import path of a module, without its extension, as seen from a directory. -/
def relativeImport (fromDir modulePath : Path) : Text :=
  let source := fromDir.components
  let goal := modulePath.withoutExtension.components
  let common := commonLength source goal
  let parts :=
    List.replicate (source.length - common) (['.', '.'] : Text) ++
      (goal.drop common).map Path.Component.text
  let joined := ['/'].intercalate parts
  if List.isPrefixOf ['.', '.'] joined then joined else "./" ++ joined

end Scaffold.Env
