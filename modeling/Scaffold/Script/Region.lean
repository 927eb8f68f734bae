import Scaffold.Fault
import Scaffold.Script.Slice

/-!
# Regions

A region is the literal that an edit works on: the text from an opening bracket to the bracket that
closes it, with its place among the lines of a file.  `Region.locateFrom` finds it by a marker, a
text that stands on a line: a marker that ends in a bracket opens the region itself, behind any
other marker the first bracket or brace of code does.
-/

namespace Scaffold.Script

/-- A bracketed literal and where it stands. -/
structure Region where
  /-- The literal with both brackets. -/
  content : Text
  /-- The lines of the opening and of the closing bracket. -/
  startLine : Nat
  endLine : Nat
  /-- The byte position of the opening bracket in the lines joined by newlines. -/
  startOffset : Nat
  deriving DecidableEq, Repr

/-- The first line from number `first` on that holds a text. -/
def findLine? (lines : List Text) (needle : Text) (first : Nat) : Option Nat :=
  ((lines.drop first).findIdx? (Text.contains needle)).map (first + ·)

namespace Region

/-- The byte position behind the closing bracket. -/
def endOffset (r : Region) : Nat := r.startOffset + r.content.byteLength

/-- The text between the brackets. -/
def inner (r : Region) : Text := (r.content.drop 1).dropLast

def isArray (r : Region) : Bool := r.content.head? == some '['

def isObject (r : Region) : Bool := r.content.head? == some '\x7b'

/-- The text divided before the bracket that a marker stands for; `before` and `after` are the
texts around the marker. -/
def openAt? (before marker after : Text) : Option (Text × Text) :=
  let kept := marker.trimEnd
  if kept.getLast? == some '[' || kept.getLast? == some '\x7b' then
    some (before ++ kept.dropLast, marker.drop (kept.length - 1) ++ after)
  else
    (breakAtOpening? after).map fun (skipped, literal) => (before ++ marker ++ skipped, literal)

/-- The region that starts a text, where `before` is all that stands in front of it. -/
def atStart? (before text : Text) : Option Region :=
  (bracketed? text).map fun (literal, _) =>
    let startLine := before.count '\n'
    { content := literal
      startLine
      endLine := startLine + literal.dropLast.count '\n'
      startOffset := before.byteLength }

/-- The region behind the first marker from line `first` on. -/
def locateFrom (lines : List Text) (marker : Text) (first : Nat) : Except Fault Region :=
  match findLine? lines marker first with
  | none => .error (.markerNotFound marker none)
  | some line =>
    let (head, rest) := ((lines[line]?.bind (Text.breakOn? marker)).getD ([], []))
    let before := (lines.take line).flatMap (· ++ ['\n']) ++ head
    let after := rest ++ (lines.drop (line + 1)).flatMap ('\n' :: ·)
    match (openAt? before marker after).bind fun (before, text) => atStart? before text with
    | some region => .ok region
    | none => .error (.unbalanced marker line none)

/-- The region behind the first marker. -/
def locate (lines : List Text) (marker : Text) : Except Fault Region := locateFrom lines marker 0

end Region

end Scaffold.Script
