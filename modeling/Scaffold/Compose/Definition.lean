import Scaffold.Yaml.Value

/-!
# Compose definitions

What a compose file says, as far as the workspace edits it: services with their volumes, networks,
environment, labels and ports, the named volumes and networks, and all other settings as they stand.

Three settings have a short syntax, a text divided at a separator: `Mount.render_read`,
`Entry.render_read` and `Port.render_read` say that a text is written as it was read.
-/

namespace Scaffold.Compose

/-- Settings that are kept as they stand, by key. -/
abbrev Settings := List (Yaml.Value × Yaml.Value)

/-- A volume or path, and where a service mounts it. -/
structure Mount where
  path : Text
  target : Option Text
  deriving DecidableEq, Repr

/-- A variable of a service's environment; one without a value is passed through from outside. -/
structure Entry where
  key : Text
  value : Option Text
  deriving DecidableEq, Repr

/-- A published port: the outer side with an optional address, and the side of the service. -/
structure Port where
  external : Option Text
  internal : Text
  deriving DecidableEq, Repr

/-- A service. -/
structure Service where
  name : Text
  image : Option Text := none
  build : Option Text := none
  volumes : List Mount := []
  networks : List Text := []
  environment : List Entry := []
  labels : List Text := []
  ports : List Port := []
  extra : Settings := []

/-- A compose file. -/
structure Definition where
  services : List Service := []
  volumes : List Text := []
  networks : List Text := []
  extra : Settings := []

/-! ## Short syntax -/

/-- Two texts with a separator between them, when there is a second one. -/
def joinPair (separator : Char) (first : Text) : (second : Option Text) → Text
  | some second => first ++ separator :: second
  | none => first

/-- A mount: the path ends at the first colon. -/
def Mount.read (t : Text) : Mount :=
  match Text.breakOn? [':'] t with
  | some (path, target) => ⟨path, some target⟩
  | none => ⟨t, none⟩

/-- The short syntax of a mount. -/
def Mount.render (m : Mount) : Text := joinPair ':' m.path m.target

/-- An environment variable: the key ends at the first equals sign. -/
def Entry.read (t : Text) : Entry :=
  match Text.breakOn? ['='] t with
  | some (key, value) => ⟨key, some value⟩
  | none => ⟨t, none⟩

/-- The short syntax of an environment variable. -/
def Entry.render (e : Entry) : Text := joinPair '=' e.key e.value

/-- A port: the side of the service follows the last colon. -/
def Port.read (t : Text) : Port :=
  match Text.breakOnLast? ':' t with
  | some (external, internal) => ⟨some external, internal⟩
  | none => ⟨none, t⟩

/-- The short syntax of a port. -/
def Port.render (p : Port) : Text :=
  match p.external with
  | some external => external ++ ':' :: p.internal
  | none => p.internal

/-- A mount is written as it was read. -/
theorem Mount.render_read (t : Text) : (Mount.read t).render = t := by
  unfold Mount.read
  split
  · rename_i h
    simpa [Mount.render, joinPair] using Text.append_of_breakOn? h
  · rfl

/-- A variable is written as it was read. -/
theorem Entry.render_read (t : Text) : (Entry.read t).render = t := by
  unfold Entry.read
  split
  · rename_i h
    simpa [Entry.render, joinPair] using Text.append_of_breakOn? h
  · rfl

/-- A port is written as it was read. -/
theorem Port.render_read (t : Text) : (Port.read t).render = t := by
  unfold Port.read
  split
  · rename_i h
    exact Text.append_of_breakOnLast? h
  · rfl

/-! ## Databases -/

/-- What the names of the images of database engines start with. -/
def databaseEngines : List Text := ["postgres", "mysql", "mariadb", "mongo"]

/-- The name of an image behind its registry and owner. -/
def imageName (image : Text) : Text := ((Text.breakOnLast? '/' image).map (·.2)).getD image

/-- A service runs the image of a database engine. -/
def Service.isDatabase (s : Service) : Bool :=
  s.build.isNone &&
    s.image.any fun image => databaseEngines.any fun engine => engine.isPrefixOf (imageName image)

namespace Definition

/-- The service with a name. -/
def service? (d : Definition) (name : Text) : Option Service :=
  d.services.find? fun s => s.name == name

/-- The services that run a database engine. -/
def databases (d : Definition) : List Service := d.services.filter Service.isDatabase

end Definition

/-! ## Comparing -/

/-- Two services say the same; the order of their other settings does not count. -/
def Service.same (a b : Service) : Bool :=
  a.name == b.name && a.image == b.image && a.build == b.build && a.volumes == b.volumes &&
    a.networks == b.networks && a.environment == b.environment && a.labels == b.labels &&
    a.ports == b.ports && Yaml.Value.mapping a.extra == .mapping b.extra

instance : BEq Service := ⟨Service.same⟩

/-- Two definitions say the same; the order of their other settings does not count. -/
def Definition.same (a b : Definition) : Bool :=
  a.services == b.services && a.volumes == b.volumes && a.networks == b.networks &&
    Yaml.Value.mapping a.extra == .mapping b.extra

instance : BEq Definition := ⟨Definition.same⟩

end Scaffold.Compose
