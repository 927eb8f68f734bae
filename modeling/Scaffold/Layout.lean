import Scaffold.Config
import Scaffold.Script.Vocabulary
import Scaffold.Target

/-!
# Layouts

Where the files of a workspace stand: the paths of the configuration below the root.
-/

namespace Scaffold

/-- The root of a workspace with its configuration. -/
structure Layout where
  root : Path
  config : Config := {}
  deriving DecidableEq, Repr

namespace Layout

/-- The environment file. -/
def envFile (l : Layout) : Path := l.root.join l.config.envFile

/-- The environment file that is shared. -/
def publicEnvFile (l : Layout) : Path := l.root.join l.config.publicEnvFile

/-- The environment model. -/
def environmentModel (l : Layout) : Path := l.root.join l.config.environmentModel

/-- The settings file of the script compiler. -/
def tsconfig (l : Layout) : Path := l.root.join l.config.tsconfig

/-- The compose file of a target. -/
def composeFile (l : Layout) (target : Target) : Path :=
  (l.root.join l.config.composeDir).join ⟨target.composeFileName⟩

/-- The directories that hold projects. -/
def projectDirs (l : Layout) : List Path := l.config.projectDirs.map l.root.join

/-- The directory of a project. -/
def projectDir (l : Layout) (project : Path) : Path := l.root.join project

/-- The model file of a project. -/
def projectModel (l : Layout) (project : Path) : Path :=
  (l.projectDir project).join l.config.projectModel

/-- The generated file of a project. -/
def projectFile (l : Layout) (project : Path) : Path :=
  (l.projectDir project).join l.config.projectFile

/-- The files of the workspace itself. -/
def files (l : Layout) : List Path :=
  [l.envFile, l.publicEnvFile, l.environmentModel, l.tsconfig] ++ Target.all.map l.composeFile

/-- The files of a project. -/
def projectFiles (l : Layout) (project : Path) : List Path :=
  [l.projectModel project, l.projectFile project]

/-- The strings with a source text of their own. -/
def vocabulary (l : Layout) : Script.Vocabulary := .ofList l.config.opaqueExpressions

end Layout

end Scaffold
