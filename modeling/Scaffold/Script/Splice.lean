import Scaffold.Document
import Scaffold.Script.Literal.Reader
import Scaffold.Script.Region

/-!
# Splicing literals

Edits of a document that add to a literal behind a marker and leave all other text as it is.  New
entries stand on lines of their own at the end of the literal, four blanks deeper than the line
that opens it, and the separator they need is put behind the last code, before the comments that
follow it.
-/

namespace Scaffold.Script

/-- What separates the entries of a literal. -/
inductive Delimiter where
  | comma
  | semicolon
  deriving DecidableEq, Repr

/-- The separator itself. -/
def Delimiter.char : Delimiter → Char
  | comma => ','
  | semicolon => ';'

/-- A text divided behind its last code: blanks and comments follow. -/
def breakAfterCode (t : Text) : Text × Text :=
  let vs := (scan t).reverse
  (textOf (vs.dropWhile Visit.isSkipped).reverse, textOf (vs.takeWhile Visit.isSkipped).reverse)

namespace Region

/-- The region behind the first marker of a document. -/
def ofDocument (d : Document) (marker : Text) : Except Fault Region :=
  (locate d.lines marker).mapError (Fault.inFile d.path)

end Region

/-- How deep a line stands: the bytes of its leading blanks. -/
def indentOf (line : Text) : Nat := Text.byteLength (line.takeWhile isBlank)

/-- How deep the line stands that opens a region. -/
def Region.indent (r : Region) (d : Document) : Nat := ((d.lines[r.startLine]?).map indentOf).getD 0

/-- The old entries, followed by the separator that a further entry needs. -/
def closeEntries (delimiter : Delimiter) (body : Text) : Text :=
  let (code, trailing) := breakAfterCode body
  -- members of a type may also be separated by commas
  let delimited :=
    code.getLast? == some delimiter.char ||
      (delimiter == .semicolon && code.getLast? == some ',')
  if code.isEmpty || delimited then body else code ++ delimiter.char :: trailing

/-- New entries on lines of their own. -/
def newEntries (delimiter : Delimiter) (indent : Nat) (entries : List Text) : Text :=
  let line (entry : Text) : Text := '\n' :: Text.spaces indent ++ entry
  match delimiter with
  | .comma => [','].intercalate (entries.map line)
  | .semicolon => entries.flatMap fun entry => line entry ++ [';']

/-- The literal of a region with entries added at its end. -/
def Region.extended (r : Region) (indent : Nat) (delimiter : Delimiter) (entries : List Text) :
    Text :=
  r.content.take 1 ++ closeEntries delimiter r.inner.trimEnd ++
    newEntries delimiter (indent + indentStep) entries ++ '\n' :: Text.spaces indent ++
    r.content.drop (r.content.length - 1)

end Scaffold.Script

namespace Scaffold.Document

open Script

/-- Adds entries to the literal of a region. -/
def extend (d : Document) (r : Region) (delimiter : Delimiter) (entries : List Text) :
    Except Fault Document :=
  d.spliceText r.startOffset r.content.byteLength (r.extended (r.indent d) delimiter entries)

/-- Adds entries to the literal behind a marker. -/
def appendToLiteral (d : Document) (marker : Text) (delimiter : Delimiter) (entries : List Text) :
    Except Fault Document := do
  if entries.isEmpty then return d
  let region ← Region.ofDocument d marker
  d.extend region delimiter entries

/-- The items that are neither in an array nor earlier in the list. -/
def newItems (seen : List Literal) : List Literal → List Literal
  | [] => []
  | item :: items =>
    if seen.contains item then newItems seen items else item :: newItems (seen ++ [item]) items

/-- Adds the items that are not there yet to the array behind a marker; the answer says whether
there were any. -/
def addArrayItems (d : Document) (voc : Vocabulary) (marker : Text) (items : List Literal) :
    Except Fault (Bool × Document) := do
  let region ← Region.ofDocument d marker
  match Literal.read voc region.content with
  | .array existing =>
    let sources ← (newItems existing items).mapM (Literal.print voc (region.indent d + indentStep))
    if sources.isEmpty then return (false, d)
    return (true, ← d.extend region .comma sources)
  | _ => throw (.unexpectedRegion marker .array)

/-- Adds an entry to the object behind a marker.  The answer is `false`, and nothing changes, when
the key already has an equal value; a different value is refused. -/
def addObjectEntry (d : Document) (voc : Vocabulary) (marker key : Text) (value : Literal) :
    Except Fault (Bool × Document) := do
  let region ← Region.ofDocument d marker
  if !region.isObject then throw (.unexpectedRegion marker .object)
  match (Literal.read voc region.content).get? key with
  | some current =>
    if current == value then return (false, d) else throw (.duplicateEntry marker key)
  | none =>
    let source ← value.print voc (region.indent d + indentStep)
    return (true, ← d.extend region .comma [keyText key ++ ": " ++ source])

end Scaffold.Document
