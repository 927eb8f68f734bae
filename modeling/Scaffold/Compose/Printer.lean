import Scaffold.Compose.Definition
import Scaffold.Json.Printer
import Scaffold.Yaml.Printer

/-!
# Writing compose files

Sections stand apart by an empty line: first the settings that are kept as they stand, then
services, volumes and networks.  `Definition.toJson?` is the same content as data.
-/

namespace Scaffold.Compose

open Yaml (writeText)
open Yaml.Value (indentStep nestedEntries)

/-! ## YAML -/

/-- A setting with a text, when there is one. -/
def renderText (key : Text) : Option Text → Text
  | some t => Text.spaces (2 * indentStep) ++ key ++ [':', ' '] ++ writeText t ++ ['\n']
  | none => []

/-- A setting with a list of texts, unless it is empty. -/
def renderList (key : Text) (items : List Text) : Text :=
  if items.isEmpty then []
  else
    Text.spaces (2 * indentStep) ++ key ++ [':', '\n'] ++
      items.flatMap fun item =>
        Text.spaces (3 * indentStep) ++ ['-', ' '] ++ writeText item ++ ['\n']

/-- A service below its name. -/
def Service.render (s : Service) : Text :=
  Text.spaces indentStep ++ writeText s.name ++ [':', '\n'] ++
    renderText "image" s.image ++ renderText "build" s.build ++
    nestedEntries (2 * indentStep) s.extra ++
    renderList "ports" (s.ports.map Port.render) ++
    renderList "volumes" (s.volumes.map Mount.render) ++
    renderList "networks" s.networks ++
    renderList "environment" (s.environment.map Entry.render) ++
    renderList "labels" s.labels

/-- The section of the services. -/
def renderServices (services : List Service) : Text :=
  if services.isEmpty then "services: \x7b\x7d\n"
  else "services:\n" ++ services.flatMap Service.render

/-- The section of a list of names, unless it is empty. -/
def renderNames (key : Text) (names : List Text) : List Text :=
  if names.isEmpty then []
  else
    [key ++ [':', '\n'] ++
      names.flatMap fun name => Text.spaces indentStep ++ writeText name ++ [':', '\n']]

/-- The text of a compose file. -/
def Definition.render (d : Definition) : Text :=
  ['\n'].intercalate <|
    d.extra.map (fun setting => nestedEntries 0 [setting]) ++ [renderServices d.services] ++
      renderNames "volumes" d.volumes ++ renderNames "networks" d.networks

/-! ## JSON -/

/-- The text of a key in JSON; collections, tagged values and null cannot be keys. -/
def jsonKey? : Yaml.Value → Option Text
  | .text t => some t
  | .boolean b => some (Text.ofBool b)
  | .whole n => some (Text.ofInt n)
  | .fraction x => Json.fractionText? x
  | _ => none

mutual

/-- A YAML value as JSON; a tag becomes the only key of an object. -/
def json? : Yaml.Value → Option Json
  | .null => some .null
  | .boolean b => some (.boolean b)
  | .whole n => some (.whole n)
  | .fraction x => some (.fraction x)
  | .text t => some (.text t)
  | .sequence items => (jsonItems? items).map .array
  | .mapping entries => (jsonEntries? entries).map .object
  | .tagged name value => (json? value).map fun v => .object [('!' :: name, v)]

/-- The items as JSON. -/
def jsonItems? : List Yaml.Value → Option (List Json)
  | [] => some []
  | item :: items => return (← json? item) :: (← jsonItems? items)

/-- The entries as JSON. -/
def jsonEntries? : List (Yaml.Value × Yaml.Value) → Option (List (Text × Json))
  | [] => some []
  | (key, value) :: entries =>
    return (← jsonKey? key, ← json? value) :: (← jsonEntries? entries)

end

/-- A field with a value, when there is one. -/
def jsonField (key : String) (value : Option Json) : List (Text × Json) :=
  (value.map ((key : Text), ·)).toList

/-- A field with a list, unless it is empty. -/
def jsonList (key : String) (items : List Json) : List (Text × Json) :=
  if items.isEmpty then [] else [((key : Text), .array items)]

/-- A text, or null. -/
def jsonText? (t : Option Text) : Json := (t.map Json.text).getD .null

/-- The field of the other settings, unless there are none. -/
def jsonExtra? (extra : Settings) : Option (List (Text × Json)) :=
  if extra.isEmpty then some []
  else (jsonEntries? extra).map fun entries => [("extra".toList, .object entries)]

/-- A mount as JSON. -/
def Mount.toJson (m : Mount) : Json :=
  .object (("path".toList, .text m.path) :: jsonField "mount" (m.target.map .text))

/-- An environment variable as JSON. -/
def Entry.toJson (e : Entry) : Json :=
  .object [("key".toList, .text e.key), ("value".toList, jsonText? e.value)]

/-- A port as JSON. -/
def Port.toJson (p : Port) : Json :=
  .object [("external".toList, jsonText? p.external), ("internal".toList, .text p.internal)]

/-- A service as JSON. -/
def Service.toJson? (s : Service) : Option Json := do
  let extra ← jsonExtra? s.extra
  return .object <|
    [("name".toList, .text s.name)] ++ jsonField "image" (s.image.map .text) ++
      jsonField "build" (s.build.map .text) ++ jsonList "volumes" (s.volumes.map Mount.toJson) ++
      jsonList "networks" (s.networks.map .text) ++
      jsonList "environment" (s.environment.map Entry.toJson) ++
      jsonList "labels" (s.labels.map .text) ++ jsonList "ports" (s.ports.map Port.toJson) ++ extra

/-- The definition as JSON; none when a setting has a key that JSON cannot write. -/
def Definition.toJson? (d : Definition) : Option Json := do
  let services ← d.services.mapM Service.toJson?
  let extra ← jsonExtra? d.extra
  return .object <|
    [("services".toList, .array services), ("volumes".toList, .array (d.volumes.map .text)),
      ("networks".toList, .array (d.networks.map .text))] ++ extra

end Scaffold.Compose
