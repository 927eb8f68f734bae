import Scaffold.Disk
import Scaffold.Document
import Scaffold.Layout

/-!
# Edits

Reading and writing files with the faults that may arise.  A file is written only if its content
changes, so an edit that has been made before changes nothing.

An `Edit` works on a disk and may fail; what it has written before it fails stays written.  Most
edits of the library therefore first read and compute everything that they write.
-/

namespace Scaffold

/-- What has happened to a file. -/
inductive Status where
  | created
  | updated
  | unchanged
  deriving DecidableEq, Repr

/-- The word for a status. -/
def Status.name : Status → Text
  | .created => "Created"
  | .updated => "Updated"
  | .unchanged => "Unchanged"

/-- A file and what has happened to it. -/
abbrev Change := Path × Status

/-! ## Reading -/

namespace Disk

/-- The text of a file that is known to exist. -/
def read (action : FileAction) (p : Path) (d : Disk) : Except Fault Text :=
  match d.text? p with
  | some t => .ok t
  | none => .error (.fileAccess p action)

/-- The document at a path. -/
def openDocument (p : Path) (d : Disk) : Except Fault Document :=
  if d.contains p then (d.read .readingFile p).map (.ofContent p) else .error (.fileNotFound p)

/-- The document at a path, an empty one when nothing stands there. -/
def openOrEmpty (p : Path) (d : Disk) : Except Fault Document :=
  if d.contains p then d.openDocument p else .ok (.ofContent p [])

end Disk

/-- The layout of the workspace at a root, with its configuration if there is one. -/
def Layout.load (root : Path) (d : Disk) : Except Fault Layout := do
  let path := root.join configFileName
  if d.contains path then
    match Config.read? (← d.read .readingConfig path) with
    | some config => return { root, config }
    | none => .error (.toml path)
  else return { root }

/-! ## Writing -/

/-- A change of a disk that may fail. -/
abbrev Edit := ExceptT Fault (StateM Disk)

namespace Edit

/-- An edit that changes nothing. -/
def look {α : Type} (read : Disk → Except Fault α) : Edit α := do
  liftExcept (read (← get))
where
  /-- A result as an edit. -/
  liftExcept {α : Type} : Except Fault α → Edit α
    | .ok a => pure a
    | .error e => throw e

/-- Makes the directories that lead to a file. -/
def makeParents (p : Path) : Edit Unit := do
  match p.parent? with
  | none => return
  | some parent =>
    if parent.text.isEmpty then return
    let (made, d) := (← get).makeDirectories parent
    set d
    if !made then throw (.fileAccess parent .creatingDirectory)

/-- Writes a file and the directories that lead to it. -/
def overwrite (p : Path) (t : Text) : Edit Unit := do
  makeParents p
  match (← get).write? p (.text t) with
  | some d => set d
  | none => throw (.fileAccess p .writingFile)

/-- Writes a file unless it holds the text already. -/
def writeIfChanged (p : Path) (t : Text) : Edit Status := do
  if (← get).contains p then
    if (← look (Disk.read .readingFile p)) == t then return .unchanged
    else
      overwrite p t
      return .updated
  else
    overwrite p t
    return .created

/-- Writes a file unless something stands at its path already. -/
def createIfMissing (p : Path) (t : Text) : Edit Status := do
  if (← get).contains p then return .unchanged else writeIfChanged p t

/-- Writes a document to its path. -/
def save (d : Document) : Edit Status := writeIfChanged d.path d.content

/-- Writes files in order. -/
def writeAll (files : List (Path × Text)) : Edit (List Change) :=
  files.mapM fun (p, t) => do return (p, ← writeIfChanged p t)

end Edit

end Scaffold
