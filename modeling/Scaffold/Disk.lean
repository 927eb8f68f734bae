import Scaffold.Path
import Scaffold.Table

/-!
# Disks

The files and directories that a workspace is read from and written to, as a table from locations
to what stands there.  A path is followed step by step from the home directory, or from the root,
and every step but the last must lead to a directory.

What is written at one location changes no other; `get?_put` says so.
-/

namespace Scaffold

/-- A place in the tree of directories: the names that lead to it from the root. -/
abbrev Location := List Text

/-- What a file holds; bytes that are no text are kept as they are. -/
inductive FileContent where
  | text (t : Text)
  | binary (bytes : List UInt8)
  deriving DecidableEq, Repr

/-- What stands at a location. -/
inductive DiskEntry where
  | directory
  | file (content : FileContent)
  deriving DecidableEq, Repr

/-- Files and directories, and the directory where relative paths start. -/
structure Disk where
  home : Location
  entries : List (Location × DiskEntry)
  deriving DecidableEq, Repr

namespace Disk

/-! ## Locations -/

/-- What stands at a location; the root is a directory. -/
def get? (d : Disk) (l : Location) : Option DiskEntry :=
  if l.isEmpty then some .directory else d.entries.lookup l

/-- The most bytes that a name may have. -/
def maxNameLength : Nat := 255

/-- One step of a path, from a directory. -/
def step? (d : Disk) (l : Location) (segment : Text) : Option Location :=
  if d.get? l != some .directory then none
  else if Path.isFiller segment then some l
  else if segment == ['.', '.'] then some l.dropLast
  else if maxNameLength < segment.byteLength then none
  else some (l ++ [segment])

/-- No path may be empty or hold the character zero. -/
def isUsable (p : Path) : Bool := !p.text.isEmpty && !List.contains p.text '\x00'

/-- Where a path leads; something need not stand there. -/
def locate? (d : Disk) (p : Path) : Option Location :=
  if isUsable p then p.segments.foldlM d.step? (if p.isAbsolute then [] else d.home) else none

/-! ## Reading -/

/-- What stands where a path leads. -/
def entryAt? (d : Disk) (p : Path) : Option DiskEntry := (d.locate? p).bind d.get?

/-- Something stands where the path leads. -/
def contains (d : Disk) (p : Path) : Bool := (d.entryAt? p).isSome

/-- The path leads to a directory. -/
def isDirectory (d : Disk) (p : Path) : Bool := d.entryAt? p == some .directory

/-- The text of the file that the path leads to. -/
def text? (d : Disk) (p : Path) : Option Text :=
  match d.entryAt? p with
  | some (.file (.text t)) => some t
  | _ => none

/-- The paths of the directories in the directory that a path leads to. -/
def directoriesIn (d : Disk) (p : Path) : List Path :=
  match d.locate? p with
  | none => []
  | some l =>
    d.entries.filterMap fun (m, entry) =>
      match m.getLast? with
      | some name =>
        if m.dropLast == l && entry == .directory then some (p.join ⟨name⟩) else none
      | none => none

/-! ## Writing -/

/-- The disk with something at a location. -/
def put (d : Disk) (l : Location) (entry : DiskEntry) : Disk :=
  { d with entries := Table.insert l entry d.entries }

/-- Writes a file, unless the path leads nowhere or to a directory. -/
def write? (d : Disk) (p : Path) (content : FileContent) : Option Disk := do
  let l ← d.locate? p
  if d.get? l == some .directory then none else some (d.put l (.file content))

/-- Makes a directory where the path leads; one that exists is left alone. -/
def makeDirectory? (d : Disk) (p : Path) : Option Disk := do
  let l ← d.locate? p
  match d.get? l with
  | some .directory => some d
  | some (.file _) => none
  | none => some (d.put l .directory)

/-- Makes the directory that a path leads to and those on the way to it; `false` when that is not
possible, though some of them may have been made. -/
def makeDirectories (p : Path) (d : Disk) : Bool × Disk :=
  go (p.segments.length + 1) p d
where
  /-- Each round looks at a path with fewer components. -/
  go : Nat → Path → Disk → Bool × Disk
    | 0, _, d => (false, d)
    | n + 1, p, d =>
      match d.makeDirectory? p with
      | some d => (true, d)
      | none =>
        match p.parent? with
        | none => (false, d)
        | some parent =>
          if !isUsable p || parent.text.isEmpty then (false, d)
          else
            let (made, d) := go n parent d
            match made, d.makeDirectory? p with
            | true, some d => (true, d)
            | _, _ => (false, d)

/-- Removes what stands where a path leads, and what stands below it. -/
def remove (d : Disk) (p : Path) : Disk :=
  match d.locate? p with
  | some l => { d with entries := d.entries.filter fun e => !l.isPrefixOf e.1 }
  | none => d

/-- Putting something at a location changes no other one. -/
theorem get?_put (d : Disk) {l : Location} (m : Location) (entry : DiskEntry) (h : l ≠ []) :
    (d.put l entry).get? m = if m == l then some entry else d.get? m := by
  unfold put get?
  cases m with
  | nil => cases l <;> simp_all
  | cons => simp [Table.lookup_insert]

end Disk

end Scaffold
