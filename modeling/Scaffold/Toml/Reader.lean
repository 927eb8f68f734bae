import Scaffold.Toml.DateTime
import Scaffold.Toml.String

/-!
# Reading TOML

A document is a list of statements: table headers and assignments of a value to a dotted key.  Only
strings, dates and times, arrays and inline tables are read as values.  A document with a number or
a boolean, or with an array of tables, is refused, because no setting takes one.
-/

namespace Scaffold.Toml

/-- A value of a document. -/
inductive Value where
  | text (t : Text)
  | dateTime (d : DateTime)
  | array (items : List Value)
  | table (entries : List (List Text × Value))

/-- A line of a document that says something. -/
inductive Statement where
  | header (key : List Text)
  | assign (key : List Text) (value : Value)

/-- The text without leading blanks of one line. -/
def skipBlanks (t : Text) : Text := t.dropWhile fun c => c == ' ' || c == '\t'

/-- The text behind the end of a line: an optional comment and a newline, or nothing at all. -/
def lineTail? (t : Text) : Option Text :=
  let t := match skipBlanks t with
    | '#' :: t => t.dropWhile isPlain
    | t => t
  match t with
  | [] => some []
  | t => newlineTail? t

/-- The text without the blanks, comments and newlines that may stand between values. -/
def skipSpace : (fuel : Nat) → Text → Option Text
  | 0, t => some t
  | fuel + 1, t =>
    match skipBlanks t with
    | [] => some []
    | '#' :: t => (lineTail? ('#' :: t)).bind (skipSpace fuel)
    | t =>
      match newlineTail? t with
      | some t => skipSpace fuel t
      | none => some t

/-- The text behind the space between values. -/
def spaceTail? (t : Text) : Option Text := skipSpace (t.length + 1) t

/-- A character of a bare key. -/
def isBareKeyChar (c : Char) : Bool := c.isAlphanum || c == '_' || c == '-'

/-- The simple key that starts a text, and the rest. -/
def readSimpleKey? (t : Text) : Option (Text × Text) :=
  match readString? true t with
  | some r => some r
  | none =>
    let key := t.takeWhile isBareKeyChar
    if key.isEmpty then none else some (key, t.dropWhile isBareKeyChar)

/-- The dotted key that starts a text, and the rest behind its blanks. -/
def readKey? : (fuel : Nat) → Text → Option (List Text × Text)
  | 0, _ => none
  | fuel + 1, t => do
    let (key, t) ← readSimpleKey? (skipBlanks t)
    match skipBlanks t with
    | '.' :: t =>
      let (keys, t) ← readKey? fuel t
      return (key :: keys, t)
    | t => return ([key], t)

mutual

/-- The value that starts a text, and the rest. -/
def readValue? : (fuel : Nat) → Text → Option (Value × Text)
  | 0, _ => none
  | fuel + 1, t =>
    match t with
    | '[' :: t => (readItems? fuel t).map fun (items, t) => (.array items, t)
    | '\x7b' :: t => (readEntries? fuel t).map fun (entries, t) => (.table entries, t)
    | t =>
      match readString? false t with
      | some (s, t) => some (.text s, t)
      | none => (readDateTime? t).map fun (d, t) => (.dateTime d, t)

/-- The items up to the bracket that closes an array, and the rest. -/
def readItems? : (fuel : Nat) → Text → Option (List Value × Text)
  | 0, _ => none
  | fuel + 1, t => do
    match ← spaceTail? t with
    | ']' :: t => return ([], t)
    | t =>
      let (item, t) ← readValue? fuel t
      match ← spaceTail? t with
      | ',' :: t =>
        let (items, t) ← readItems? fuel t
        return (item :: items, t)
      | ']' :: t => return ([item], t)
      | _ => none

/-- The entries up to the brace that closes an inline table, and the rest. -/
def readEntries? : (fuel : Nat) → Text → Option (List (List Text × Value) × Text)
  | 0, _ => none
  | fuel + 1, t => do
    match ← spaceTail? t with
    | '\x7d' :: t => return ([], t)
    | t =>
      let (key, t) ← readKey? (t.length + 1) t
      let t ← List.isPrefixOf? ['='] t
      let (value, t) ← readValue? fuel (skipBlanks t)
      match ← spaceTail? t with
      | ',' :: t =>
        let (entries, t) ← readEntries? fuel t
        return ((key, value) :: entries, t)
      | '\x7d' :: t => return ([(key, value)], t)
      | _ => none

end

/-- The statement that starts a text, and the rest behind the end of its line. -/
def readStatement? (t : Text) : Option (Statement × Text) := do
  match t with
  | '[' :: t =>
    let (key, t) ← readKey? (t.length + 1) t
    let t ← List.isPrefixOf? [']'] t
    return (.header key, ← lineTail? t)
  | t =>
    let (key, t) ← readKey? (t.length + 1) t
    let t ← List.isPrefixOf? ['='] t
    let (value, t) ← readValue? (2 * t.length + 2) (skipBlanks t)
    return (.assign key value, ← lineTail? t)

/-- The statements of a text; each takes up some of it. -/
def readStatements? : (fuel : Nat) → Text → Option (List Statement)
  | 0, _ => none
  | fuel + 1, t => do
    match ← spaceTail? t with
    | [] => return []
    | t =>
      let (statement, t) ← readStatement? t
      return statement :: (← readStatements? fuel t)

/-- Reads a document; a byte order mark in front of it does not count. -/
def read? (t : Text) : Option (List Statement) :=
  let t := match t with
    | '\ufeff' :: t => t
    | t => t
  readStatements? (t.length + 1) t

end Scaffold.Toml
