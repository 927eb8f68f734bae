import Scaffold.Fault

/-!
# Documents

A document is a text file in memory: its lines and whether the last one ends in a newline.  Edits
are by line or by byte span; one that does not fit the document is refused and changes nothing.

`content_ofContent` says that taking a text apart into a document and putting it together again
gives the text back.
-/

namespace Scaffold

/-- A text file in memory. -/
structure Document where
  path : Path
  lines : List Text
  /-- The last line ends in a newline. -/
  endsLine : Bool
  deriving DecidableEq, Repr

namespace Document

/-- The document that holds a text.  An empty text has no lines. -/
def ofContent (path : Path) (content : Text) : Document :=
  if content.isEmpty then ⟨path, [], true⟩
  else if content.getLast? == some '\n' then ⟨path, Text.lines content.dropLast, true⟩
  else ⟨path, Text.lines content, false⟩

/-- The text of a document. -/
def content (d : Document) : Text :=
  if d.endsLine && !d.lines.isEmpty then Text.joinLines d.lines ++ ['\n']
  else Text.joinLines d.lines

/-- The document with its text replaced. -/
def setContent (d : Document) (content : Text) : Document := ofContent d.path content

/-- Taking a text apart and putting it together again gives the text back. -/
theorem content_ofContent (path : Path) (t : Text) : (ofContent path t).content = t := by
  have join_lines (u : Text) : Text.joinLines (Text.lines u) = u :=
    List.intercalate_splitOn '\n'
  have lines_ne (u : Text) : (Text.lines u).isEmpty = false := by
    simp [Text.lines]
  unfold ofContent
  split
  · simp_all [content, Text.joinLines]
  · split
    · next h =>
      obtain ⟨init, rfl⟩ := List.getLast?_eq_some_iff.1 (by simpa using h)
      simp [content, join_lines, lines_ne]
    · simp [content, join_lines]

/-! ## Lines -/

/-- Adds lines at the end.  Nothing changes, and the answer is `false`, when the document already
ends in these lines. -/
def appendLines (d : Document) (new : List Text) : Bool × Document :=
  if new.isEmpty || new.isSuffixOf d.lines then (false, d)
  else (true, { d with lines := d.lines ++ new })

/-- Adds lines at the start.  Nothing changes, and the answer is `false`, when the document already
starts with these lines. -/
def prependLines (d : Document) (new : List Text) : Bool × Document :=
  if new.isEmpty || new.isPrefixOf d.lines then (false, d)
  else (true, { d with lines := new ++ d.lines })

/-- Adds lines before the line with the given number. -/
def insertLines (d : Document) (index : Nat) (new : List Text) : Except Fault Document :=
  if d.lines.length < index then .error (.lineOutOfRange d.path index index d.lines.length)
  else .ok { d with lines := d.lines.take index ++ new ++ d.lines.drop index }

/-- Replaces the lines from `start` to `stop`, both included. -/
def replaceLines (d : Document) (start stop : Nat) (new : List Text) : Except Fault Document :=
  if stop < start || d.lines.length ≤ stop then
    .error (.lineOutOfRange d.path start stop d.lines.length)
  else .ok { d with lines := d.lines.take start ++ new ++ d.lines.drop (stop + 1) }

/-! ## Text -/

/-- Replaces a text that stands in the document exactly once, counted without overlaps. -/
def replaceOnce (d : Document) (exact replacement : Text) : Except Fault Document :=
  let occurrences := if exact.isEmpty then 0 else Text.countApart exact 0 d.content
  match occurrences, Text.breakOn? exact d.content with
  | 1, some (before, after) => .ok (d.setContent (before ++ replacement ++ after))
  | n, _ => .error (.ambiguousReplacement d.path n)

/-- The largest position that can be spoken of. -/
def maxOffset : Nat := Nat.pow 2 64 - 1

/-- Replaces `length` bytes from byte `offset` on. -/
def spliceText (d : Document) (offset length : Nat) (replacement : Text) :
    Except Fault Document :=
  let stop := min (offset + length) maxOffset
  let outside := Fault.structuralMismatch d.path (.spanOutside offset stop)
  match d.content.cutAt? offset with
  | none => .error outside
  | some (before, rest) =>
    match rest.cutAt? length with
    | none => .error outside
    | some (_, after) => .ok (d.setContent (before ++ replacement ++ after))

end Document

end Scaffold
