import Scaffold.Json.Reader
import Scaffold.Path
import Scaffold.Toml.Reader

/-!
# The configuration

Where a workspace keeps its files, relative to its root, and which strings have a source text of
their own.  Every setting has a default.  A configuration is written in TOML, where a setting that
is unknown, stands twice or has a value of the wrong type is refused, or given as data.
-/

namespace Scaffold

/-- The name of the configuration file. -/
def configFileName : Path := "monux.toml"

/-- The settings of a workspace. -/
structure Config where
  envFile : Path := ".env"
  publicEnvFile : Path := ".env.public"
  environmentModel : Path := "environment.global-model.ts"
  projectDirs : List Path := ["apps", "libs"]
  projectModel : Path := "src/environment/environment.model.ts"
  projectFile : Path := "src/environment/environment.ts"
  composeDir : Path := "."
  tsconfig : Path := "tsconfig.base.json"
  /-- Strings with a source text of their own, ordered by string. -/
  opaqueExpressions : List (Text × Text) := []
  deriving DecidableEq, Repr

namespace Config

/-- The value of a setting. -/
inductive Setting where
  | path (p : Path)
  | paths (ps : List Path)
  | table (entries : List (Text × Text))

/-- The names of the settings, in the order in which they are written. -/
def names : List String := [
  "env-file", "public-env-file", "global-environment-model", "project-dirs",
  "project-environment-model", "project-environment-file", "compose-dir", "tsconfig",
  "opaque-expressions"]

/-- The name of the setting that holds a table. -/
def tableName : Text := "opaque-expressions"

/-- The entries ordered by key, the last entry of each key. -/
def sortEntries (entries : List (Text × Text)) : List (Text × Text) :=
  (entries.foldl (fun table (k, v) => Table.insert k v table) []).mergeSort fun a b =>
    Text.le a.1 b.1

/-- The configuration with one setting changed; `none` when the setting is unknown or takes
another type of value. -/
def set? (c : Config) (name : Text) (value : Setting) : Option Config :=
  match String.ofList name, value with
  | "env-file", .path p => some { c with envFile := p }
  | "public-env-file", .path p => some { c with publicEnvFile := p }
  | "global-environment-model", .path p => some { c with environmentModel := p }
  | "project-dirs", .paths ps => some { c with projectDirs := ps }
  | "project-environment-model", .path p => some { c with projectModel := p }
  | "project-environment-file", .path p => some { c with projectFile := p }
  | "compose-dir", .path p => some { c with composeDir := p }
  | "tsconfig", .path p => some { c with tsconfig := p }
  | "opaque-expressions", .table es => some { c with opaqueExpressions := sortEntries es }
  | _, _ => none

/-- The configuration with the given settings; `none` when one stands twice. -/
def ofSettings? (settings : List (Text × Setting)) : Option Config :=
  let names := settings.map Prod.fst
  if names.eraseDups.length == names.length then
    settings.foldlM (fun c (name, value) => c.set? name value) {}
  else none

/-! ## TOML -/

/-- The text of a value. -/
def textOf? : Toml.Value → Option Text
  | .text t => some t
  | _ => none

/-- The entries of an inline table of texts; `none` when a key stands twice. -/
def tableOf? (entries : List (List Text × Toml.Value)) : Option (List (Text × Text)) := do
  let entries ← entries.mapM fun (key, value) => do
    match key with
    | [k] => return (k, ← textOf? value)
    | _ => none
  let keys := entries.map Prod.fst
  if keys.eraseDups.length == keys.length then some entries else none

/-- The only key of the table that stands for a date or time. -/
def dateTimeKey : Text := "$__toml_private_datetime"

/-- The setting of a value. -/
def settingOf? : Toml.Value → Option Setting
  | .text t => some (.path ⟨t⟩)
  | .dateTime d => some (.table [(dateTimeKey, d.text)])
  | .array items => (items.mapM textOf?).map fun ts => .paths (ts.map Path.mk)
  | .table entries => Setting.table <$> tableOf? entries

/-- What has been read of a document: the settings with a value of their own, the entries of the
table that were assigned one by one, and whether its header has been read. -/
structure Draft where
  settings : List (Text × Setting) := []
  entries : List (Text × Text) := []
  inTable : Bool := false

/-- The draft with an entry of the table; `none` when its key already has one. -/
def Draft.bind? (d : Draft) (key : Text) (value : Toml.Value) : Option Draft := do
  if (d.entries.lookup key).isSome then none
  else return { d with entries := d.entries ++ [(key, ← textOf? value)] }

/-- The draft after one more statement.  Only the table has a header, once, and only its entries
are assigned by longer keys. -/
def Draft.add? (d : Draft) : Toml.Statement → Option Draft
  | .header key =>
    if key == [tableName] && !d.inTable && d.entries.isEmpty then some { d with inTable := true }
    else none
  | .assign key value =>
    match d.inTable, key with
    | true, [key] => d.bind? key value
    | false, [name] => do return { d with settings := d.settings ++ [(name, ← settingOf? value)] }
    | false, [name, key] => if name == tableName then d.bind? key value else none
    | _, _ => none

/-- All settings of a draft; a table that was assigned in parts is one of them. -/
def Draft.all (d : Draft) : List (Text × Setting) :=
  if d.inTable || !d.entries.isEmpty then d.settings ++ [(tableName, .table d.entries)]
  else d.settings

/-- Reads a configuration file. -/
def read? (t : Text) : Option Config := do
  let statements ← Toml.read? t
  let draft ← statements.foldlM Draft.add? {}
  ofSettings? draft.all

/-! ## Data -/

/-- The text of a JSON string. -/
def jsonText? : Json → Option Text
  | .text t => some t
  | _ => none

/-- The setting of a JSON value. -/
def settingOfJson? : Json → Option Setting
  | .text t => some (.path ⟨t⟩)
  | .array items => (items.mapM jsonText?).map fun ts => .paths (ts.map Path.mk)
  | .object entries =>
    Setting.table <$> entries.mapM fun (key, value) => do
      return (key, ← jsonText? value)
  | _ => none

/-- The configuration of a JSON value whose entries stand as they were written: an object by name,
or an array with the settings in their order. -/
def ofJson? : Json → Option Config
  | .object entries => do
    ofSettings? (← entries.mapM fun (name, value) => do return (name, ← settingOfJson? value))
  | .array items => do
    if names.length < items.length then none
    else
      let settings ← items.mapM settingOfJson?
      ofSettings? ((names.map String.toList).zip settings)
  | _ => none

/-- The data of a configuration. -/
def toJson (c : Config) : Json :=
  let path (p : Path) : Json := .text p.text
  let values : List Json := [
    path c.envFile, path c.publicEnvFile, path c.environmentModel,
    .array (c.projectDirs.map path), path c.projectModel, path c.projectFile, path c.composeDir,
    path c.tsconfig, .object (c.opaqueExpressions.map fun (k, v) => (k, .text v))]
  .object ((names.map String.toList).zip values)

end Config

end Scaffold
