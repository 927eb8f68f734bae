import Scaffold.Compose.Definition
import Scaffold.Fault
import Scaffold.Yaml.Reader

/-!
# Reading compose files

A setting may be written in several shapes: environment, labels and networks as a list or as a
mapping, and every text also as a number or boolean.  Reading brings them to one shape.  The long
syntax of ports and volumes is refused, because it could not be written back.
-/

namespace Scaffold.Compose

open Yaml (Value)

namespace Service

/-- The text of a setting that must be one. -/
def readText (service field : Text) (v : Value) : Except Fault Text :=
  match v.scalarText? with
  | some t => .ok t
  | none => .error (.invalidService service (.notString field))

/-- The texts of a setting that must be a list of them. -/
def readTexts (service field : Text) : Value → Except Fault (List Text)
  | .null => .ok []
  | .sequence items => items.mapM fun item =>
    match item.scalarText? with
    | some t => .ok t
    | none => .error (.invalidService service (.longSyntax field))
  | _ => .error (.invalidService service (.notList field))

/-- The entries of a setting that may be a mapping or a list of texts with equals signs.  A value
that is no text counts as missing. -/
def readEntries (service field : Text) : Value → Except Fault (List Entry)
  | .mapping entries => entries.mapM fun (key, value) => do
    return ⟨← readText service field key, value.scalarText?⟩
  | v => do return (← readTexts service field v).map Entry.read

/-- The service with one more setting. -/
def addSetting (s : Service) (key value : Value) : Except Fault Service := do
  let field := key.text?.getD []
  if field == "image" then
    return { s with image := some (← readText s.name field value) }
  else if field == "build" && value.text?.isSome then
    return { s with build := value.scalarText? }
  else if field == "volumes" then
    return { s with volumes := (← readTexts s.name field value).map Mount.read }
  else if field == "ports" then
    return { s with ports := (← readTexts s.name field value).map Port.read }
  else if field == "labels" then
    return { s with labels := (← readEntries s.name field value).map Entry.render }
  else if field == "environment" then
    return { s with environment := ← readEntries s.name field value }
  else if field == "networks" then
    return { s with networks := (← readEntries s.name field value).map Entry.key }
  else return { s with extra := s.extra ++ [(key, value)] }

/-- A service of the given name. -/
def ofValue (name : Text) : Value → Except Fault Service
  | .null => .ok { name }
  | .mapping settings =>
    settings.foldlM (fun s (key, value) => s.addSetting key value) { name }
  | _ => .error (.invalidService name .notMapping)

end Service

namespace Definition

/-- The services, by name. -/
def readServices (path : Path) : Value → Except Fault (List Service)
  | .null => .ok []
  | .mapping entries => entries.mapM fun (key, value) =>
    match key.scalarText? with
    | some name => Service.ofValue name value
    | none => .error (.structuralMismatch path .serviceNameNotString)
  | _ => .error (.structuralMismatch path .servicesNotMapping)

/-- The names of volumes or networks. -/
def readNames (path : Path) (field : Text) (v : Value) : Except Fault (List Text) :=
  let name (v : Value) : Except Fault Text :=
    match v.scalarText? with
    | some t => .ok t
    | none => .error (.structuralMismatch path (.nameNotString field))
  match v with
  | .null => .ok []
  | .mapping entries => entries.mapM fun (key, _) => name key
  | .sequence items => items.mapM name
  | _ => .error (.structuralMismatch path (.namesNotMapping field))

/-- The definition with one more section. -/
def addSection (path : Path) (d : Definition) (key value : Value) : Except Fault Definition := do
  let field := key.text?.getD []
  if field == "services" then return { d with services := ← readServices path value }
  else if field == "volumes" then return { d with volumes := ← readNames path field value }
  else if field == "networks" then return { d with networks := ← readNames path field value }
  else return { d with extra := d.extra ++ [(key, value)] }

/-- A definition; a section for services is required. -/
def ofValue (path : Path) : Value → Except Fault Definition
  | .mapping sections => do
    let d ← sections.foldlM (fun d (key, value) => addSection path d key value) {}
    if sections.any (fun (key, _) => key.text? == some "services".toList) then return d
    else .error (.structuralMismatch path .noServices)
  | _ => .error (.structuralMismatch path .rootNotMapping)

/-- Reads the compose file at a path. -/
def read (path : Path) (t : Text) : Except Fault Definition :=
  match Yaml.read? t with
  | some v => ofValue path v
  | none => .error (.yaml path)

end Definition

end Scaffold.Compose
