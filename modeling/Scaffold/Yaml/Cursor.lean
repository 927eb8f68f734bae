import Scaffold.Text.Basic

/-!
# Places in a YAML text

YAML reads layout: what a character means depends on the column it stands in.  A `Cursor` is a
place in a text, the characters that follow it together with the line and column it stands at.

Line breaks have several spellings.  `unifyBreaks` writes the common ones as newlines before
anything else is read; the two separators of Unicode remain, because scalars keep them.
-/

namespace Scaffold.Yaml

/-! ## Characters -/

/-- A character that ends a line, after `unifyBreaks`. -/
def isBreak (c : Char) : Bool := c == '\n' || c == '\u2028' || c == '\u2029'

/-- A space or a tab. -/
def isGap (c : Char) : Bool := c == ' ' || c == '\t'

/-- A character of anchors, tag handles and directive names. -/
def isNameChar (c : Char) : Bool := c.isAlphanum || c == '_' || c == '-'

/-- A character that a YAML text may hold: no control character but tab, line feed, carriage return
and next line, no surrogate and none of the two last code points of the first plane. -/
def isAllowed (c : Char) : Bool :=
  let n := c.toNat
  c == '\t' || c == '\n' || c == '\r' || (0x20 ≤ n && n ≤ 0x7E) || n == 0x85 ||
    (0xA0 ≤ n && n ≤ 0xFFFD) || 0x10000 ≤ n

/-- The text with its line feeds, carriage returns, pairs of both and next lines as newlines. -/
def unifyBreaks : Text → Text
  | [] => []
  | '\r' :: '\n' :: t => '\n' :: unifyBreaks t
  | '\r' :: t => '\n' :: unifyBreaks t
  | '\x85' :: t => '\n' :: unifyBreaks t
  | c :: t => c :: unifyBreaks t

/-- A word ends before a blank, before a line break and at the end of the text. -/
def endsWord : Text → Bool
  | [] => true
  | c :: _ => isGap c || isBreak c

/-- A line ends before a line break and at the end of the text. -/
def endsLine : Text → Bool
  | [] => true
  | c :: _ => isBreak c

/-! ## Places -/

/-- A line and a column, both counted from zero. -/
structure Position where
  line : Nat := 0
  column : Nat := 0
  deriving DecidableEq, Repr

/-- The place behind a character. -/
def Position.after (p : Position) (c : Char) : Position :=
  if isBreak c then ⟨p.line + 1, 0⟩ else ⟨p.line, p.column + 1⟩

/-- A place in a text and the characters behind it. -/
structure Cursor where
  position : Position
  rest : Text
  deriving DecidableEq, Repr

/-- The cursor behind the next `n` characters. -/
def Cursor.skip : (n : Nat) → Cursor → Cursor
  | 0, c => c
  | _, ⟨p, []⟩ => ⟨p, []⟩
  | n + 1, ⟨p, c :: t⟩ => skip n ⟨p.after c, t⟩

/-- The cursor at the first character without `p`. -/
def Cursor.skipWhile (p : Char → Bool) (c : Cursor) : Cursor :=
  c.skip (c.rest.takeWhile p).length

/-- The cursor at the end of its line. -/
def Cursor.skipLine (c : Cursor) : Cursor := c.skipWhile fun x => !isBreak x

/-- The cursor behind a byte order mark that starts a line; the mark takes a column of its own. -/
def Cursor.skipMark (c : Cursor) : Cursor :=
  if c.position.column == 0 && c.rest.head? == some '\ufeff' then c.skip 1 else c

/-- A document marker: three dashes or dots that fill the first word of a line. -/
def isMarker (p : Position) (t : Text) : Bool :=
  p.column == 0 &&
    match t with
    | '-' :: '-' :: '-' :: t => endsWord t
    | '.' :: '.' :: '.' :: t => endsWord t
    | _ => false

/-! ## Gaps -/

/-- Blanks and line breaks between two words of a scalar. -/
structure Gap where
  /-- The blanks in front of the first line break. -/
  blanks : Text := []
  /-- What the first line break writes; nothing when it is escaped. -/
  first : Option Text := none
  /-- The line breaks behind the first one. -/
  more : Text := []
  deriving DecidableEq, Repr

namespace Gap

/-- A gap that is entered by an escaped line break. -/
def escaped : Gap := { first := some [] }

/-- A gap holds a line break. -/
def crosses (g : Gap) : Bool := g.first.isSome

/-- The gap with one blank or line break more; blanks at the start of a line do not count. -/
def push (g : Gap) (c : Char) : Gap :=
  match g.first with
  | none => if isBreak c then { g with first := some [c] } else { g with blanks := g.blanks ++ [c] }
  | some _ => if isBreak c then { g with more := g.more ++ [c] } else g

/-- What a gap writes: blanks stand as they are, and of line breaks a single newline becomes a space
and the first of several newlines is dropped. -/
def text (g : Gap) : Text :=
  match g.first with
  | none => g.blanks
  | some ['\n'] => if g.more.isEmpty then [' '] else g.more
  | some first => first ++ g.more

end Gap

end Scaffold.Yaml
