import Scaffold.Command.Help

/-!
# The program

The program copies what a command may look at from the file system to a `Disk`, runs the command
there, and writes back what it has changed.  All decisions are made on the disk; this module only
carries contents to and fro.
-/

namespace Scaffold.Shell

open Command

/-! ## From the file system -/

/-- The location that a path of the file system leads to from the root. -/
def locationOf (path : String) : Location :=
  (path.toList.splitOn '/').filter fun name => !Path.isFiller name

/-- The path of a location in the file system. -/
def systemPath (l : Location) : String := String.ofList ('/' :: ['/'].intercalate l)

/-- The content of a file; one that cannot be read counts as no text. -/
def readContent (l : Location) : IO FileContent := do
  try
    let bytes ← IO.FS.readBinFile (systemPath l)
    match String.fromUTF8? bytes with
    | some t => return .text t.toList
    | none => return .binary bytes.toList
  catch _ => return .binary []

/-- The disk with what really stands at a location. -/
def copyEntry (d : Disk) (l : Location) : IO Disk := do
  let path := (← IO.currentDir) / systemPath l
  if ← path.isDir then return d.put l .directory
  else if ← path.pathExists then return d.put l (.file (← readContent l))
  else return d

/-- The disk with what really stands on the way along a path. -/
def copyPath (d : Disk) (p : Path) : IO Disk := do
  let mut d := d
  let mut here := if p.isAbsolute then [] else d.home
  for segment in p.segments do
    match d.step? here segment with
    | none => return d
    | some next =>
      here := next
      d ← copyEntry d next
  return d

/-- The disk with the directories that a directory really holds, and the files of a project in each
of them. -/
def copyProjects (l : Layout) (d : Disk) (directory : Path) : IO Disk := do
  let mut d ← copyPath d directory
  if d.isDirectory directory then
    let system := (← IO.currentDir) / String.ofList directory.text
    for entry in ← system.readDir do
      let project := directory.join ⟨entry.fileName.toList⟩
      d ← copyPath d project
      if d.isDirectory project then
        d ← (l.projectFiles project).foldlM copyPath d
  return d

/-- The part of the file system that an invocation may look at. -/
def copyDisk (i : Invocation) : IO Disk := do
  let home := locationOf (← IO.currentDir).toString
  let d ← copyPath { home, entries := [] } ⟨(systemPath home).toList⟩
  let d ← copyPath d (i.root.join configFileName)
  match Layout.load i.root d with
  | .error _ => return d
  | .ok l =>
    let paths := l.files ++ i.action.projects.flatMap l.projectFiles
    l.projectDirs.foldlM (copyProjects l) (← paths.foldlM copyPath d)

/-! ## To the file system -/

/-- Writes what one disk holds and the other does not. -/
def writeChanges (before after : Disk) : IO Unit := do
  for (l, entry) in after.entries do
    if before.get? l != some entry then
      match entry with
      | .directory => IO.FS.createDirAll (systemPath l)
      | .file (.text t) => IO.FS.writeFile (systemPath l) (String.ofList t)
      | .file (.binary _) => pure ()

/-! ## Running -/

/-- Shows an answer and gives the exit code. -/
def finish (output report : Text) (exitCode : Nat) : IO UInt32 := do
  IO.print (String.ofList output)
  IO.eprint (String.ofList report)
  return UInt32.ofNat exitCode

/-- Carries out an invocation. -/
def run (i : Invocation) : IO UInt32 := do
  let before ← copyDisk i
  let (answer, after) := i.run.run before
  try
    writeChanges before after
    match answer with
    | .ok outcome => finish (outcome.output i.json) (outcome.report i.json) outcome.exitCode
    | .error fault =>
      finish (faultOutput i.json fault) (faultReport i.json fault) (faultExitCode fault)
  catch e => finish [] (toString e ++ "\n").toList 3

end Scaffold.Shell

open Scaffold Scaffold.Command in
/-- The entry point: the workspace is the one that the command line, or else the process
environment, names. -/
def main (args : List String) : IO UInt32 := do
  let root := (← IO.getEnv rootVariable).getD "."
  match Invocation.read ⟨root.toList⟩ (args.map String.toList) with
  | .ok i => Shell.run i
  | .error usage => Shell.finish usage.output usage.report usage.exitCode
