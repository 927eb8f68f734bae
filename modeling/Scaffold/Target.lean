import Scaffold.Text.Basic

/-!
# Deployment targets

A workspace is deployed to four targets.  Each has a compose file of its own, and the name of that
file names the target as well.
-/

namespace Scaffold

/-- Where a workspace is deployed. -/
inductive Target where
  | dev
  | local
  | stage
  | prod
  deriving DecidableEq, Repr

namespace Target

/-- Every target, in deployment order. -/
def all : List Target := [.dev, .local, .stage, .prod]

/-- Every target is listed. -/
theorem mem_all (t : Target) : t ∈ all := by cases t <;> decide

/-- The name of a target. -/
def name : Target → Text
  | .dev => "dev"
  | .local => "local"
  | .stage => "stage"
  | .prod => "prod"

/-- The name of the compose file of a target. -/
def composeFileName : Target → Text
  | .dev => "dev.docker-compose.yaml"
  | .local => "local.docker-compose.yaml"
  | .stage => "stage.docker-compose.yaml"
  | .prod => "docker-compose.yaml"

/-- The target of the given name. -/
def ofName? (name : Text) : Option Target := all.find? fun t => t.name == name

/-- The target whose compose file has the given name. -/
def ofComposeFileName? (fileName : Text) : Option Target :=
  all.find? fun t => t.composeFileName == fileName

/-- `true` when the target is served over TLS. -/
def usesTls : Target → Bool
  | .stage | .prod => true
  | _ => false

/-- The target a text names, by its name in any letter case or by its compose file; blanks around
the text do not count. -/
def read? (t : Text) : Option Target :=
  let t := t.trim
  (ofName? (Text.lower t)).orElse fun _ => ofComposeFileName? t

end Target

end Scaffold
