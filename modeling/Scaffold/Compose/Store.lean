import Scaffold.Compose.Printer
import Scaffold.Compose.Reader
import Scaffold.Compose.Routing
import Scaffold.Edit

/-!
# The compose files of a workspace

Each target has a compose file.  An edit reads the files of all targets that it is meant for,
changes their definitions and writes them when nothing is wrong with any of them.
-/

namespace Scaffold.Compose

/-- The compose file at a path. -/
def definitionAt (path : Path) (d : Disk) : Except Fault Definition := do
  Definition.read path (← d.openDocument path).content

/-- The definition of a target; an empty one when there is no such file. -/
def definition (l : Layout) (target : Target) (d : Disk) : Except Fault Definition :=
  if d.contains (l.composeFile target) then definitionAt (l.composeFile target) d else .ok {}

/-- How a service is made known. -/
structure Exposure where
  /-- The port of the host in development. -/
  devPort : Option Nat := none
  /-- The port of the service itself. -/
  prodPort : Option Nat := none
  /-- The service is routed outside development. -/
  isPublic : Bool := false
  /-- The sub-domain; the root domain when there is none. -/
  subDomain : Option Text := none
  deriving DecidableEq, Repr

/-- The service as it stands in the file of a target: development publishes its port, the other
targets route it. -/
def Service.exposed (s : Service) (e : Exposure) (target : Target) : Except Fault Service :=
  if target = .dev then
    match e.devPort with
    | some port =>
      let published : Port := ⟨some (Text.ofNat port), Text.ofNat (e.prodPort.getD port)⟩
      .ok { s with ports := s.ports ++ [published] }
    | none => .ok s
  else if e.isPublic then
    match e.prodPort <|> e.devPort with
    | some port => do
      return { s with labels := s.labels ++ (← Compose.labels s.name port target e.subDomain) }
    | none => .error (.invalidService s.name .publicWithoutPort)
  else .ok s

/-- The targets that an edit is meant for: the given one, or all. -/
def targetsOf : Option Target → List Target
  | some target => [target]
  | none => Target.all

/-- The changed compose files of the targets, with their paths. -/
def changed (l : Layout) (only : Option Target)
    (change : Target → Definition → Except Fault Definition) (d : Disk) :
    Except Fault (List (Path × Text)) :=
  (targetsOf only).mapM fun target => do
    return (l.composeFile target, (← change target (← definition l target d)).render)

/-- The definition of a target with a service more, whose name must be new. -/
def Definition.addService (l : Layout) (s : Service) (e : Exposure) (target : Target)
    (d : Definition) : Except Fault Definition := do
  if (d.service? s.name).isSome then .error (.duplicateService s.name (l.composeFile target))
  else return { d with services := d.services ++ [← s.exposed e target] }

/-- The names with one more, unless it is among them. -/
def addName (name : Text) (names : List Text) : List Text :=
  if names.contains name then names else names ++ [name]

/-- Changes the compose files of the targets. -/
def edit (l : Layout) (only : Option Target)
    (change : Target → Definition → Except Fault Definition) : Edit (List Change) := do
  Edit.writeAll (← Edit.look (changed l only change))

/-- Adds a service. -/
def addService (l : Layout) (s : Service) (e : Exposure) (only : Option Target) :
    Edit (List Change) := do
  Edit.look fun _ => checkSubDomain e.subDomain
  edit l only (Definition.addService l s e)

/-- Adds a named volume. -/
def addVolume (l : Layout) (name : Text) (only : Option Target) : Edit (List Change) :=
  edit l only fun _ d => .ok { d with volumes := addName name d.volumes }

/-- Adds a named network. -/
def addNetwork (l : Layout) (name : Text) (only : Option Target) : Edit (List Change) :=
  edit l only fun _ d => .ok { d with networks := addName name d.networks }

end Scaffold.Compose
