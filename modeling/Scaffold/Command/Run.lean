import Scaffold.Command.Invocation
import Scaffold.Compose.Store
import Scaffold.Env.Store
import Scaffold.Json.Printer

/-!
# Running commands

What a command does to the disk and what it answers, as text and as data, and how an answer or a
fault is shown: on the output, and as the exit code.
-/

namespace Scaffold.Command

/-- The answer of a command. -/
inductive Outcome where
  | done (text : Text) (data : Json)
  /-- The environment is not valid. -/
  | invalid (findings : List Env.Finding)

/-- The version of the program. -/
def programVersion : Text := "0.4.0"

/-- What the program is. -/
def programTitle : Text := "Command-line interface for monux workspaces"

/-! ## Answers -/

/-- An object of texts and other values. -/
def object (entries : List (String × Json)) : Json :=
  .object (entries.map fun (key, value) => ((key : Text), value))

/-- A line for each text, and the texts as data. -/
def Outcome.ofTexts (texts : List Text) : Outcome :=
  .done (Text.joinLines texts) (.array (texts.map .text))

/-- The changed files, as paths from the root. -/
def Outcome.ofChanges (root : Path) (changes : List Change) : Outcome :=
  let shown := changes.map fun (path, status) => ((Path.relativeTo? root path).getD path, status)
  .done
    (Text.joinLines (shown.map fun (path, status) => status.name ++ ' ' :: path.text))
    (.array (shown.map fun (path, status) =>
      object [("path", .text path.text), ("status", .text status.name)]))

/-- A value as data. -/
def settingJson : Option Env.Setting → Json
  | none => .null
  | some (.string t) => .text t
  | some (.number x) => .fraction x
  | some (.boolean b) => .boolean b

/-- A finding as data. -/
def findingJson (f : Env.Finding) : Json :=
  object [("key", (f.key.map Json.text).getD .null), ("reason", .text f.reason.name),
    ("message", .text f.message)]

/-- The name and version of the program. -/
def versionOutcome : Outcome :=
  .done (programName ++ ' ' :: programVersion ++ " - " ++ programTitle)
    (object [("name", .text programName), ("version", .text programVersion)])

/-! ## Commands -/

/-- Runs a command on the environment. -/
def EnvCommand.run (l : Layout) : EnvCommand → Edit Outcome
  | .init => do return .ofChanges l.root (← Env.init l)
  | .get key target => do
    let value ← Edit.look (Env.getVariable l key target)
    return .done ((value.map Env.Setting.text).getD [])
      (object [("key", .text key), ("target", .text target.name), ("value", settingJson value)])
  | .validate => do
    match ← Edit.look (Env.validateWorkspace l) with
    | [] => return .done "Environment is valid" (object [("errors", .array [])])
    | findings => return .invalid findings
  | .addStatic key raw type isPublic required => do
    let value ← Edit.look fun _ => raw.mapM (Env.coerce type key)
    Env.addStatic l { key, required, type, value } isPublic
    return .done ("Added " ++ key)
      (object [("key", .text key), ("type", .text type.name), ("public", .boolean isPublic)])
  | .build target (some path) => do return .ofChanges l.root [← Env.build l path target]
  | .build target none => do return .ofChanges l.root (← Env.buildAll l target)
  | .project path keys => do return .ofChanges l.root [← Env.setupProject l path keys]

/-- The service that a command adds. -/
def ServiceSource.service (name : Text) : ServiceSource → Compose.Service
  | .image text => { name, image := some text }
  | .build text => { name, build := some text }

/-- Runs a command on the compose files. -/
def ComposeCommand.run (l : Layout) : ComposeCommand → Edit Outcome
  | .labels name port target subDomain => do
    return .ofTexts (← Edit.look fun _ => Compose.labels name port target subDomain)
  | .addService name source devPort prodPort isPublic subDomain only => do
    let exposure : Compose.Exposure := { devPort, prodPort, isPublic, subDomain }
    return .ofChanges l.root (← Compose.addService l (source.service name) exposure only)
  | .addVolume name only => do return .ofChanges l.root (← Compose.addVolume l name only)
  | .addNetwork name only => do return .ofChanges l.root (← Compose.addNetwork l name only)
  | .databases target => do
    return .ofTexts ((← Edit.look (Compose.definition l target)).databases.map (·.name))

/-- The layout of the workspace at a root, which must be a directory. -/
def workspace (root : Path) : Edit Layout := do
  if (← get).isDirectory root then Edit.look (Layout.load root)
  else throw (.rootNotDirectory root)

/-- Runs what a command line asks for. -/
def Invocation.run (i : Invocation) : Edit Outcome := do
  match i.action with
  | .version => return versionOutcome
  | .env c => c.run (← workspace i.root)
  | .compose c => c.run (← workspace i.root)

/-! ## Showing answers -/

/-- The exit code of an answer. -/
def Outcome.exitCode : Outcome → Nat
  | .done .. => 0
  | .invalid _ => 1

/-- The exit code of a fault: one of the command line and the configuration, or one of the files of
the workspace. -/
def faultExitCode : Fault → Nat
  | .rootNotDirectory _ | .toml _ => 2
  | _ => 3

/-- The data of an invalid environment. -/
def invalidJson (findings : List Env.Finding) : Json :=
  object [("status", .text "invalid"), ("errors", .array (findings.map findingJson))]

/-- What an answer prints. -/
def Outcome.output (json : Bool) : Outcome → Text
  | .done text data =>
    if json then (object [("status", .text "ok"), ("data", data)]).compact ++ ['\n']
    else if text.isEmpty then []
    else text ++ ['\n']
  | .invalid findings =>
    if json then (invalidJson findings).compact ++ ['\n']
    else findings.flatMap fun f => f.text ++ ['\n']

/-- What a fault prints as data. -/
def faultOutput (json : Bool) (f : Fault) : Text :=
  if json then
    (object [("status", .text "error"),
      ("error", object [("code", .text f.code), ("message", .text f.message)])]).compact ++ ['\n']
  else []

/-- A report of something that went wrong: its stable name, what it is and what helps. -/
def reportText (code message : Text) (help : Option Text) : Text :=
  code ++ ['\n'] ++ message ++ ['\n'] ++
    match help with
    | some help => "help: " ++ help ++ ['\n']
    | none => []

/-- What an answer reports beside the output, when the output holds no data. -/
def Outcome.report (json : Bool) : Outcome → Text
  | .done .. => []
  | .invalid findings =>
    if json then []
    else
      reportText "monux::cli::invalid"
        ("Environment is invalid: " ++ Text.ofNat findings.length ++ " problem(s) found")
        (some "Fix the listed variables in .env or the environment model")

/-- What a fault reports beside the output, when the output holds no data. -/
def faultReport (json : Bool) (f : Fault) : Text :=
  if json then [] else reportText f.code f.message f.help?

end Scaffold.Command
