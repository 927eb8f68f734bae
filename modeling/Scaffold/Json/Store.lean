import Scaffold.Edit
import Scaffold.Json.Printer
import Scaffold.Json.Reader

/-!
# Settings files

Partial updates of the JSON files of a workspace: a patch is merged into the object that a file
holds, and the file is written anew with one entry a line.
-/

namespace Scaffold.Json

/-- The text of a settings file. -/
def render (v : Json) : Text := v.pretty 0 ++ ['\n']

/-- The text of a file with a patch merged in. -/
def patched (path : Path) (patch : Json) (d : Disk) : Except Fault Text := do
  if d.contains path then
    match read? (← d.read .readingJson path) with
    | none => .error (.json path)
    | some v =>
      if v.isObject then return (merge v patch).render
      else .error (.structuralMismatch path .rootNotObject)
  else .error (.fileNotFound path)

/-- Merges a patch into the object that a file holds. -/
def updateFile (path : Path) (patch : Json) : Edit Status := do
  Edit.writeIfChanged path (← Edit.look (patched path patch))

/-- The patch that lets a module name stand for source files. -/
def aliasPatch (name : Text) (files : List Text) : Json :=
  .object [("compilerOptions".toList,
    .object [("paths".toList, .object [(name, .array (files.map .text))])])]

/-- Lets a module name stand for source files. -/
def addAlias (l : Layout) (name : Text) (files : List Text) : Edit Status :=
  updateFile l.tsconfig (aliasPatch name files)

end Scaffold.Json
