import Scaffold.Script.Splice

/-!
# Import statements

Adding named imports to a document.  An import statement is a line that starts with `import`,
together with the lines of its braces and a `from` line behind them.  Names are merged into the
first statement that imports names from the same module; otherwise a statement is added behind the
last one, or at the top.
-/

namespace Scaffold.Script

/-- The module of a `from` clause that starts a text. -/
def fromClauseAt? (t : Text) : Option Text := do
  let isMark (c : Char) : Bool := c == '\'' || c == '"'
  let t ← List.isPrefixOf? "from".toList t
  match t.dropWhile isBlank with
  | [] => none
  | q :: rest =>
    let name := rest.takeWhile fun c => !isMark c
    if (t.head?.any isBlank) && isMark q && !name.isEmpty && name.length < rest.length then
      some name
    else none

/-- The module of the first `from` clause of a line. -/
def fromClause? : Text → Option Text
  | [] => none
  | c :: t => (fromClauseAt? (c :: t)).orElse fun _ => fromClause? t

/-- An import statement of a document. -/
structure ImportStatement where
  /-- The last line of the statement. -/
  endLine : Nat
  modulePath : Option Text
  /-- The braces with the imported names. -/
  names : Option Region
  deriving DecidableEq, Repr

namespace ImportStatement

/-- `true` for a line that starts an import statement. -/
def starts (line : Text) : Bool :=
  let line := line.trimStart
  List.isPrefixOf "import ".toList line || List.isPrefixOf "import\x7b".toList line

/-- The line with a number that must be there; there is no going on without it. -/
def lineAt (lines : List Text) (index : Nat) : Except Fault Text :=
  match lines[index]? with
  | some line => .ok line
  | none => .error (.lineMissing index lines.length)

/-- The statement on line `index` with the braces that were found, and the line behind these when
the clause stands there. -/
def withNames (lines : List Text) (index : Nat) (names : Option Region) :
    Except Fault ImportStatement := do
  let lastLine := (names.map Region.endLine).getD index
  let clause := fromClause? (← lineAt lines lastLine)
  let continues :=
    clause.isNone &&
      lines[lastLine + 1]?.any fun next => List.isPrefixOf "from".toList next.trimStart
  let endLine := if continues then lastLine + 1 else lastLine
  return { endLine, modulePath := fromClause? (← lineAt lines endLine), names }

/-- The statement that starts on line `index`. -/
def ofLine (lines : List Text) (index : Nat) (line : Text) : Except Fault ImportStatement := do
  if line.any (· == '\x7b') then
    withNames lines index (some (← Region.locateFrom lines ['\x7b'] index))
  else withNames lines index none

/-- The statements from line `index` on; `fuel` bounds the number of lines left. -/
def collect (lines : List Text) : (fuel index : Nat) → Except Fault (List ImportStatement)
  | 0, _ => .ok []
  | fuel + 1, index =>
    match lines[index]? with
    | none => .ok []
    | some line =>
      if starts line then do
        let statement ← ofLine lines index line
        return statement :: (← collect lines fuel (statement.endLine + 1))
      else collect lines fuel (index + 1)

/-- The import statements of a document, in order. -/
def ofDocument (d : Document) : Except Fault (List ImportStatement) :=
  (collect d.lines (d.lines.length + 1) 0).mapError (Fault.inFile d.path)

end ImportStatement

end Scaffold.Script

namespace Scaffold.Document

open Script

/-- The names, a comma and a blank between two of them. -/
def nameList (names : List Text) : Text := [',', ' '].intercalate names

/-- Adds names to the braces of an import, on the same line when they stand on one line. -/
def mergeNames (d : Document) (braces : Region) (existing missing : List Text) :
    Except Fault Document :=
  if braces.startLine == braces.endLine then
    d.spliceText braces.startOffset braces.content.byteLength
      ("\x7b " ++ nameList (existing ++ missing) ++ " \x7d")
  else d.extend braces .comma missing

/-- Adds an import statement behind the last of `statements`, or at the top. -/
def insertImport (d : Document) (statements : List ImportStatement) (line : Text) :
    Except Fault Document :=
  match statements.getLast? with
  | some last => d.insertLines (last.endLine + 1) [line]
  | none =>
    if d.lines.head?.any fun first => !first.trim.isEmpty then d.insertLines 0 [line, []]
    else d.insertLines 0 [line]

/-- Imports names from a module.  The answer is `false`, and nothing changes, when the first
statement that imports names from it already has them all. -/
def addImport (d : Document) (names : List Text) (modulePath : Text) :
    Except Fault (Bool × Document) := do
  let statements ← ImportStatement.ofDocument d
  let braces := statements.findSome? fun s =>
    if s.modulePath == some modulePath then s.names else none
  match braces with
  | some braces =>
    let existing := entriesOf braces.inner
    let missing := names.filter fun name => !existing.contains name
    if missing.isEmpty then return (false, d)
    return (true, ← d.mergeNames braces existing missing)
  | none =>
    let line := "import \x7b " ++ nameList names ++ " \x7d from '" ++ modulePath ++ "';"
    return (true, ← d.insertImport statements line)

end Scaffold.Document
