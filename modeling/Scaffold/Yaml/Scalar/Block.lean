import Scaffold.Yaml.Cursor

/-!
# Block scalars

A block scalar holds the indented lines below its header, as they stand or folded into paragraphs.
The header says how deep the lines are indented, unless the first of them shows it, and which line
breaks behind the last line count.
-/

namespace Scaffold.Yaml

/-- Which line breaks behind the last line of a block scalar count. -/
inductive Chomp where
  | none
  | one
  | all
  deriving DecidableEq, Repr

/-- The header of a block scalar behind its indicator. -/
structure BlockHeader where
  chomp : Chomp := .one
  /-- How much deeper than the collection around it the scalar is indented. -/
  indent : Option Nat := none
  deriving DecidableEq, Repr

/-- The chomping that a sign asks for. -/
def Chomp.ofSign? : Char → Option Chomp
  | '-' => some .none
  | '+' => some .all
  | _ => Option.none

/-- The chomping sign that starts a text, and the rest. -/
def readChomp? : Text → Option (Chomp × Text)
  | c :: t => (Chomp.ofSign? c).map (·, t)
  | [] => none

/-- The indentation digit that starts a text, if there is one, and the rest. -/
def readIndent : Text → Option Nat × Text
  | c :: t => if c.isDigit then (some (c.toNat - '0'.toNat), t) else (none, c :: t)
  | [] => (none, [])

/-- The header of a block scalar, a sign and a digit in either order, and the rest. -/
def readBlockHeader? (t : Text) : Option (BlockHeader × Text) :=
  let (header, rest) : BlockHeader × Text :=
    match readChomp? t with
    | some (chomp, t) =>
      let (indent, t) := readIndent t
      (⟨chomp, indent⟩, t)
    | none =>
      let (indent, t) := readIndent t
      match indent, readChomp? t with
      | some indent, some (chomp, t) => (⟨chomp, some indent⟩, t)
      | indent, _ => (⟨.one, indent⟩, t)
  if header.indent == some 0 then none else some (header, rest)

/-- Empty lines and the indentation of the line behind them: their line breaks, the deepest column
they reach and the cursor behind.  Spaces belong to the indentation up to column `indent`, all of
them when it is not known yet, and tabs never do. -/
def readIndentation? (indent : Option Nat) (deepest : Nat) (p : Position) :
    Text → Option (Text × Nat × Cursor)
  | [] => some ([], deepest, ⟨p, []⟩)
  | c :: t =>
    let inside := indent.all (p.column < ·)
    if inside && c == ' ' then readIndentation? indent (max deepest (p.column + 1)) (p.after c) t
    else if inside && c == '\t' then none
    else if isBreak c then
      (readIndentation? indent deepest (p.after c) t).map fun (breaks, r) => (c :: breaks, r)
    else some ([], deepest, ⟨p, c :: t⟩)

/-- What stands between two lines of a block scalar. -/
structure LineGap where
  /-- The line break of the line in front. -/
  first : Text := []
  /-- The line breaks of empty lines. -/
  more : Text := []
  /-- The line in front is indented deeper than the scalar. -/
  behindBlank : Bool := false
  deriving DecidableEq, Repr

/-- What a gap writes in front of a line.  In a folded scalar a newline between two lines that are
not indented deeper becomes a space, and is dropped in front of empty lines. -/
def LineGap.text (g : LineGap) (folded beforeBlank : Bool) : Text :=
  if folded && g.first == ['\n'] && !g.behindBlank && !beforeBlank then
    if g.more.isEmpty then [' '] else g.more
  else g.first ++ g.more

/-- The lines of a block scalar from behind `gap` on, the gap behind the last one and the cursor
there. -/
def readBlockLines? (folded : Bool) (indent : Nat) :
    (fuel : Nat) → (gap : LineGap) → Cursor → Option (Text × LineGap × Cursor)
  | 0, _, _ => none
  | fuel + 1, gap, ⟨p, t⟩ =>
    if p.column == indent && !t.isEmpty then do
      let blank := t.head?.any isGap
      let line := t.takeWhile fun c => !isBreak c
      let behindLine := (Cursor.mk p t).skipLine
      let first := behindLine.rest.take 1
      let next := behindLine.skip 1
      let (more, _, next) ← readIndentation? (some indent) 0 next.position next.rest
      let (lines, last, c) ← readBlockLines? folded indent fuel ⟨first, more, blank⟩ next
      return (gap.text folded blank ++ line ++ lines, last, c)
    else some ([], gap, ⟨p, t⟩)

/-- The block scalar whose indicator has been read; the collection around it is indented in front of
column `floor`. -/
def readBlock? (folded : Bool) (floor : Nat) (c : Cursor) : Option (Text × Cursor) := do
  let (header, rest) ← readBlockHeader? c.rest
  let c := (c.skip (c.rest.length - rest.length)).skipWhile isGap
  let c := if c.rest.head? == some '#' then c.skipLine else c
  if !endsLine c.rest then none
  else
    let c := c.skip 1
    let known := header.indent.map (· + (floor - 1))
    let (more, deepest, c) ← readIndentation? known 0 c.position c.rest
    let indent := known.getD (max deepest (max floor 1))
    let (lines, last, c) ← readBlockLines? folded indent (c.rest.length + 1) ⟨[], more, false⟩ c
    let tail :=
      match header.chomp with
      | .none => []
      | .one => last.first
      | .all => last.first ++ last.more
    return (lines ++ tail, c)

end Scaffold.Yaml
