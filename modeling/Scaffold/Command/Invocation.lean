import Scaffold.Command.Grammar
import Scaffold.Env.ValueType
import Scaffold.Path
import Scaffold.Target

/-!
# Invocations

The commands of the program, the grammar of their arguments and what a command line asks for.
-/

namespace Scaffold.Command

/-- A command on the environment of a workspace. -/
inductive EnvCommand where
  | init
  | get (key : Text) (target : Target)
  | validate
  | addStatic (key : Text) (value : Option Text) (type : Env.ValueType) (isPublic required : Bool)
  | build (target : Target) (project : Option Path)
  | project (project : Path) (keys : List Text)
  deriving DecidableEq, Repr

/-- What a new service runs. -/
inductive ServiceSource where
  | image (name : Text)
  | build (context : Text)
  deriving DecidableEq, Repr

/-- A command on the compose files of a workspace. -/
inductive ComposeCommand where
  | labels (name : Text) (port : Nat) (target : Target) (subDomain : Option Text)
  | addService (name : Text) (source : ServiceSource) (devPort prodPort : Option Nat)
    (isPublic : Bool) (subDomain : Option Text) (only : Option Target)
  | addVolume (name : Text) (only : Option Target)
  | addNetwork (name : Text) (only : Option Target)
  | databases (target : Target)
  deriving DecidableEq, Repr

/-- What the program can do. -/
inductive Action where
  | version
  | env (c : EnvCommand)
  | compose (c : ComposeCommand)
  deriving DecidableEq, Repr

/-- The projects that an action names. -/
def Action.projects : Action → List Path
  | .env (.build _ project) => project.toList
  | .env (.project project _) => [project]
  | _ => []

/-- What a command line asks for. -/
structure Invocation where
  root : Path
  /-- Answers are data and not text. -/
  json : Bool
  action : Action
  deriving DecidableEq, Repr

/-! ## Values -/

/-- The largest port. -/
def maxPort : Nat := 65535

/-- The port that decimal digits stand for, with or without a sign. -/
def readPort? (t : Text) : Option Nat :=
  let (negative, digits) := Decimal.readSign t
  let n := Decimal.digitsValue digits
  if digits.isEmpty || !digits.all Char.isDigit || maxPort < n || (negative && n != 0) then none
  else some n

/-- A value that some reader must accept. -/
def checkRead {α : Type} (read? : Text → Option α) (t : Text) : Option Usage :=
  if (read? t).isSome then none else some .valueValidation

/-- A path, which must not be empty. -/
def checkPath (t : Text) : Option Usage := if t.isEmpty then some .invalidValue else none

/-- How much is logged. -/
def levels : List (Text × Text) := [
  ("trace", "Show all logs (trace level)"),
  ("debug", "Show debug and above"),
  ("info", "Show info and above"),
  ("warn", "Show warnings and above (default)"),
  ("error", "Show errors only")]

/-- How the log is written. -/
def logFormats : List (Text × Text) := [
  ("pretty", "Pretty-printed human-readable format"),
  ("compact", "Compact single-line format"),
  ("json", "Structured JSON format")]

/-! ## Grammar -/

/-- A named parameter with any text. -/
def textParameter (name : String) (about : Text) : Parameter :=
  { name := name, role := .named, about }

/-- A positional parameter that is required. -/
def required (name : String) (about : Text) : Parameter :=
  { name := name, role := .positional false, required := true, about }

/-- A flag. -/
def flag (name : String) (about : Text) : Parameter := { name := name, role := .flag, about }

/-- A named parameter whose value must be one of several words. -/
def wordParameter (name : String) (words : List (Text × Text)) (about : Text) : Parameter where
  name := name
  role := .named
  check := fun t => if (words.lookup t).isSome then none else some .invalidValue
  about := about
  words := words

/-- A deployment target. -/
def targetParameter (about : Text) : Parameter :=
  { name := "target", short := some 't', role := .named, check := checkRead Target.read?, about }

/-- The deployment target, that of development when there is none. -/
def oneTarget : Parameter :=
  { targetParameter "Deployment target (dev, local, stage, prod)" with fallback := Target.dev.name }

/-- The only target whose file changes. -/
def onlyTarget : Parameter := targetParameter "Only change this target's file"

/-- A port. -/
def portParameter (name : String) (about : Text) : Parameter :=
  { name := name, role := .named, check := checkRead readPort?, about }

/-- The sub-domain of a service. -/
def subDomainParameter : Parameter := textParameter "sub-domain" "Sub-domain to route"

/-- The variable of the process environment that names the workspace. -/
def rootVariable : String := "MONUX_ROOT"

/-- The parameters that stand anywhere on the command line. -/
def globalParameters : List Parameter := Grammar.ranked [
  { name := "root"
    role := .named
    check := checkPath
    about := "Workspace root directory"
    environment := rootVariable.toList
    fallback := some "." },
  { wordParameter "level" levels "Set logging level" with
    short := some 'l'
    fallback := some "warn" },
  { wordParameter "log-format" logFormats "Log output format" with fallback := some "compact" },
  flag "json" "Emit JSON envelope instead of text"]

/-- A command with its own parameters. -/
def leaf (name : String) (about : Text) (parameters : List Parameter) : Grammar :=
  { name := name, about, parameters := Grammar.ranked parameters ++ globalParameters }

/-- The commands on the environment. -/
def envGrammar : Grammar where
  name := "env"
  about := "Environment variable operations"
  parameters := globalParameters
  subcommands := [
    leaf "init" "Create the environment model and .env if missing" [],
    leaf "get" "Resolve one variable for a target" [required "key" "Variable key", oneTarget],
    leaf "validate" "Check .env against the environment model" [],
    leaf "add-static" "Declare a static variable and store its value" [
      required "key" "Variable key (snake_case)",
      { name := "value"
        role := .positional false
        about := "Value written to \x60.env\x60; omitted leaves the entry empty" },
      { name := "type"
        role := .named
        check := checkRead Env.ValueType.ofText?
        about := "string, number or boolean"
        valueName := some "VAR_TYPE"
        fallback := Env.ValueType.string.name },
      flag "public" "Also write the value to .env.public",
      flag "optional" "Declare the variable as optional"],
    leaf "build" "Generate environment.ts files" [
      oneTarget,
      { name := "project"
        short := some 'p'
        role := .named
        check := checkPath
        about := "Only build this project" }],
    leaf "project" "Select the variables a project uses" [
      { required "project" "Project directory relative to the root" with check := checkPath },
      { required "keys" "Variable keys to expose" with role := .positional true }]]

/-- The commands on the compose files. -/
def composeGrammar : Grammar where
  name := "compose"
  about := "docker-compose operations"
  parameters := globalParameters
  subcommands := [
    leaf "labels" "Print the traefik labels for a service" [
      required "name" "Service name",
      { portParameter "port" "Container port" with required := true },
      oneTarget,
      subDomainParameter],
    { leaf "add-service" "Add a service to the compose files" [
        required "name" "Service name",
        textParameter "image" "Image to run",
        textParameter "build" "Build context",
        portParameter "dev-port" "Host port published in the dev file",
        portParameter "prod-port" "Port the container listens on",
        flag "public" "Route the service through traefik",
        subDomainParameter,
        onlyTarget] with
      alternatives := some ("image", "build") },
    leaf "add-volume" "Add a named volume" [required "name" "Volume name", onlyTarget],
    leaf "add-network" "Add a named network" [required "name" "Network name", onlyTarget],
    leaf "databases" "List database services" [
      { targetParameter "Compose file to inspect" with fallback := Target.prod.name }]]

/-- The name of the program. -/
def programName : Text := "monux"

/-- The whole command line. -/
def grammar : Grammar where
  name := programName
  about := "Scaffold and maintain a TypeScript monorepo deployed with docker-compose"
  parameters := globalParameters
  subcommands := [leaf "version" "Show version information" [], envGrammar, composeGrammar]
  hasVersion := true

/-! ## Meaning -/

namespace Values

/-- The value of a parameter. -/
def text? (vs : Values) (name : String) : Option Text := (vs.lookup name.toList).bind List.head?

/-- The value of a parameter that has one. -/
def text (vs : Values) (name : String) : Text := (vs.text? name).getD []

/-- All values of a parameter. -/
def texts (vs : Values) (name : String) : List Text :=
  vs.flatMap fun (n, ts) => if n == name then ts else []

/-- A flag stands on the command line. -/
def isSet (vs : Values) (name : String) : Bool := (vs.lookup name.toList).isSome

/-- The target, when there is one. -/
def target? (vs : Values) : Option Target := (vs.text? "target").bind Target.read?

/-- The port of a parameter, when it has one. -/
def port? (vs : Values) (name : String) : Option Nat := (vs.text? name).bind readPort?

end Values

/-- What a subcommand on the environment asks for. -/
def EnvCommand.ofValues? (name : String) (vs : Values) : Option EnvCommand :=
  let target := vs.target?.getD .dev
  match name with
  | "init" => some .init
  | "get" => some (.get (vs.text "key") target)
  | "validate" => some .validate
  | "add-static" =>
    let type := ((vs.text? "type").bind Env.ValueType.ofText?).getD .string
    some <|
      .addStatic (vs.text "key") (vs.text? "value") type (vs.isSet "public") !vs.isSet "optional"
  | "build" => some (.build target ((vs.text? "project").map Path.mk))
  | "project" => some (.project ⟨vs.text "project"⟩ (vs.texts "keys"))
  | _ => none

/-- What a subcommand on the compose files asks for. -/
def ComposeCommand.ofValues? (name : String) (vs : Values) : Option ComposeCommand :=
  match name with
  | "labels" =>
    let port := (vs.port? "port").getD 0
    some (.labels (vs.text "name") port (vs.target?.getD .dev) (vs.text? "sub-domain"))
  | "add-service" =>
    let source : ServiceSource :=
      match vs.text? "image" with
      | some image => .image image
      | none => .build (vs.text "build")
    some <|
      .addService (vs.text "name") source (vs.port? "dev-port") (vs.port? "prod-port")
        (vs.isSet "public") (vs.text? "sub-domain") vs.target?
  | "add-volume" => some (.addVolume (vs.text "name") vs.target?)
  | "add-network" => some (.addNetwork (vs.text "name") vs.target?)
  | "databases" => some (.databases (vs.target?.getD .prod))
  | _ => none

/-- The action that the names of subcommands lead to. -/
def Action.ofValues? (path : List Text) (vs : Values) : Option Action :=
  match path.map String.ofList with
  | ["version"] => some .version
  | ["env", name] => (EnvCommand.ofValues? name vs).map .env
  | ["compose", name] => (ComposeCommand.ofValues? name vs).map .compose
  | _ => none

/-- What a command line asks for.  `root` is the workspace when the command line names none. -/
def Invocation.read (root : Path) (args : List Text) : Except Usage Invocation := do
  let (path, vs) ← grammar.read args
  match Action.ofValues? path vs with
  | some action =>
    return { root := ((vs.text? "root").map Path.mk).getD root, json := vs.isSet "json", action }
  | none => .error .missingSubcommand

end Scaffold.Command
