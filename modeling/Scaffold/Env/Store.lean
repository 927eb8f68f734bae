import Scaffold.Edit
import Scaffold.Env.Project
import Scaffold.Env.Validation
import Scaffold.Script.Splice

/-!
# The environment of a workspace

The edits of the environment model, the environment files and the files of projects.  Each edit
first computes the documents that it changes, from the disk as it is, and saves them when nothing is
wrong; so an edit that is refused has changed nothing.
-/

namespace Scaffold.Env

open Script

/-! ## Reading -/

/-- The environment model. -/
def readModel (l : Layout) (d : Disk) : Except Fault Model := do
  Model.read (← d.openDocument l.environmentModel) l.vocabulary

/-- The entries of the environment file; none when there is no such file. -/
def readDotEnv (l : Layout) (d : Disk) : Except Fault DotEnv := do
  return .ofDocument (← d.openOrEmpty l.envFile)

/-- The value of a variable for a target. -/
def getVariable (l : Layout) (key : Text) (target : Target) (d : Disk) :
    Except Fault (Option Setting) := do
  let model ← readModel l d
  resolve model (← readDotEnv l d) key target

/-- All that is wrong with the environment of a workspace. -/
def validateWorkspace (l : Layout) (d : Disk) : Except Fault (List Finding) := do
  if d.contains l.envFile then
    let model ← readModel l d
    return validate model (← readDotEnv l d)
  else return [⟨none, .fileDoesNotExist, l.envFile.text ++ " does not exist"⟩]

/-- The keys that a project selects. -/
def projectKeys (l : Layout) (project : Path) (d : Disk) : Except Fault (List Text) := do
  readProjectKeys (← d.openDocument (l.projectModel project)) l.vocabulary

/-- The projects in the project directories, those with a model file, as paths from the root. -/
def projects (l : Layout) (d : Disk) : List Path :=
  Path.sort <|
    ((l.projectDirs.flatMap d.directoriesIn).filter fun p => d.contains (l.projectModel p)).map
      fun p => (Path.relativeTo? l.root p).getD p

/-! ## Adding variables -/

/-- The document of the environment model; one without lines counts as a model without
variables. -/
def openModel (l : Layout) (d : Disk) : Except Fault Document := do
  let document ← d.openOrEmpty l.environmentModel
  return if document.lines.isEmpty then document.setContent skeleton else document

/-- The model of a document, provided that neither it nor an environment file has the key. -/
def checkNew (l : Layout) (key : Text) (document : Document) (envFiles : List Document) :
    Except Fault Model := do
  let model ← Model.read document l.vocabulary
  if model.contains key then .error (.duplicateKey key document.path)
  else
    match envFiles.find? fun file => (DotEnv.ofDocument file).contains key with
    | some file => .error (.duplicateKey key file.path)
    | none => return model

/-- Refuses a value that is not of its declared type or that no line can hold. -/
def checkValue (v : StaticVariable) : Except Fault Unit :=
  match v.value with
  | some value =>
    if value.type != v.type || List.contains value.text '\n' then
      .error (.invalidValue v.key value.text v.type)
    else .ok ()
  | none => .ok ()

/-- The documents that adding a static variable changes: the model, the environment file and the
shared one, where the value stands only if it is public. -/
def staticAdded (l : Layout) (v : StaticVariable) (isPublic : Bool) (d : Disk) :
    Except Fault (List Document) := do
  checkKey v.key
  let model ← openModel l d
  let env ← d.openOrEmpty l.envFile
  let shared ← d.openOrEmpty l.publicEnvFile
  let _ ← checkNew l v.key model [env, shared]
  checkValue v
  let raw := v.value.map Setting.text
  let model ← model.appendToLiteral VariableKind.static.marker .semicolon [v.toDeclaration.render]
  let (_, env) := env.appendLines [DotEnv.entryLine v.key raw]
  let (_, shared) := shared.appendLines [DotEnv.entryLine v.key (raw.filter fun _ => isPublic)]
  return [model, env, shared]

/-- Refuses a calculation that has no value for some target, refers to what is no static variable,
or has values of another type than its variable. -/
def checkCalculation (model : Model) (v : CalculatedVariable) : Except Fault Unit :=
  let declared (key : Text) : Option ValueType := (model.static? key).map (·.type)
  match v.value.missing, v.value.references.find? fun r => (model.static? r).isNone,
    (v.value.exprs.filterMap (Expr.type? declared)).find? (· != v.type) with
  | target :: targets, _, _ => .error (.incompleteCalculation v.key (target :: targets))
  | [], some reference, _ => .error (.unresolvedReference v.key reference)
  | [], none, some type => .error (.calculationType v.key v.type type)
  | [], none, none => .ok ()

/-- The indentation of the line that opens the calculations. -/
def schemaIndent (d : Document) : Nat :=
  ((d.lines.find? fun line => Text.contains schemaMarker line).map indentOf).getD 0

/-- The model with a calculated variable more. -/
def calculatedAdded (l : Layout) (v : CalculatedVariable) (d : Disk) : Except Fault Document := do
  checkKey v.key
  let document ← openModel l d
  let env ← d.openOrEmpty l.envFile
  let model ← checkNew l v.key document [env]
  checkCalculation model v
  let document ←
    document.appendToLiteral VariableKind.calculated.marker .semicolon [v.toDeclaration.render]
  let indent := schemaIndent document + indentStep
  document.appendToLiteral schemaMarker .comma [v.key ++ ": " ++ v.value.render indent]

/-! ## Projects -/

/-- The model file of a project, with its path, that selects the keys too. -/
def projectWithKeys (l : Layout) (project : Path) (keys : List Text) (d : Disk) :
    Except Fault (Path × Text) := do
  let model ← readModel l d
  match keys.find? fun key => !model.contains key with
  | some key => .error (.notDeclared key)
  | none =>
    let path := l.projectModel project
    if d.contains path then
      let document ← d.openDocument path
      let (_, document) ←
        document.addArrayItems l.vocabulary projectMarker (keys.map Literal.string)
      return (path, document.content)
    else
      let importPath := relativeImport (path.parent?.getD ".") l.environmentModel
      return (path, ← renderProjectModel importPath keys l.vocabulary)

/-- A value as a literal; a variable without a value is undefined. -/
def literalOf : Option Setting → Literal
  | some (.string t) => .string t
  | some (.number x) => .number x
  | some (.boolean b) => .boolean b
  | none => .undefined

/-- The generated file of a project, with its path. -/
def builtProject (l : Layout) (project : Path) (target : Target) (d : Disk) :
    Except Fault (Path × Text) := do
  let model ← readModel l d
  let env ← readDotEnv l d
  let values ← (← projectKeys l project d).mapM fun key => do
    return (key, literalOf (← resolve model env key target))
  return (l.projectFile project, ← renderEnvironmentFile target values l.vocabulary)

/-! ## Edits -/

/-- Saves documents in order. -/
def saveAll (documents : List Document) : Edit Unit :=
  documents.forM fun document => do let _ ← Edit.save document

/-- Makes the model and the environment file where they are missing; a new environment file starts
as the shared one. -/
def init (l : Layout) : Edit (List Change) := do
  let model ← Edit.createIfMissing l.environmentModel skeleton
  let shared ← Edit.look (Disk.openOrEmpty l.publicEnvFile)
  let env ← Edit.createIfMissing l.envFile shared.content
  return [(l.environmentModel, model), (l.envFile, env)]

/-- Declares a static variable and stores its value. -/
def addStatic (l : Layout) (v : StaticVariable) (isPublic : Bool) : Edit Unit := do
  saveAll (← Edit.look (staticAdded l v isPublic))

/-- Declares a calculated variable with its calculation. -/
def addCalculated (l : Layout) (v : CalculatedVariable) : Edit Unit := do
  saveAll [← Edit.look (calculatedAdded l v)]

/-- Writes a file that has been computed from the disk. -/
def writeComputed (file : Disk → Except Fault (Path × Text)) : Edit Change := do
  let (path, content) ← Edit.look file
  return (path, ← Edit.writeIfChanged path content)

/-- Lets a project select keys. -/
def setupProject (l : Layout) (project : Path) (keys : List Text) : Edit Change :=
  writeComputed (projectWithKeys l project keys)

/-- Writes the generated file of a project. -/
def build (l : Layout) (project : Path) (target : Target) : Edit Change :=
  writeComputed (builtProject l project target)

/-- Writes the generated files of all projects, up to the first that fails. -/
def buildAll (l : Layout) (target : Target) : Edit (List Change) := do
  (projects l (← get)).mapM fun project => build l project target

end Scaffold.Env
