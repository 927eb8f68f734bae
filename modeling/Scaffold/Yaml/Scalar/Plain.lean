import Scaffold.Yaml.Cursor

/-!
# Plain scalars

A plain scalar has no quotes: it ends where its words could be taken for structure.  It may go on
over several lines, as long as they are indented behind the collection around it.
-/

namespace Scaffold.Yaml

/-- A scalar that has been read. -/
structure PlainScalar where
  text : Text
  /-- A line break stands between the scalar and the cursor. -/
  crosses : Bool
  cursor : Cursor
  deriving DecidableEq, Repr

/-- The scalar with a text in front of it. -/
def PlainScalar.behind (t : Text) (s : PlainScalar) : PlainScalar := { s with text := t ++ s.text }

/-- A flow indicator ends plain scalars inside flow collections. -/
def isFlowIndicator (c : Char) : Bool :=
  c == ',' || c == '[' || c == ']' || c == '\x7b' || c == '\x7d'

/-- A character that ends a plain scalar where it stands; `t` follows it. -/
def endsPlain (flow : Bool) (c : Char) (t : Text) : Bool :=
  (c == ':' && endsWord t) || (flow && isFlowIndicator c)

/-- Inside a flow collection a colon must not touch an indicator that follows it. -/
def isStrayColon (flow : Bool) (c : Char) (t : Text) : Bool :=
  flow && c == ':' &&
    match t with
    | d :: _ => isFlowIndicator d || d == '?'
    | [] => false

/-- The rest of a plain scalar, from behind `gap` on.  Outside flow collections its lines start at
column `floor` or behind it; nowhere may a tab stand in front of that column. -/
def readPlain? (flow : Bool) (floor : Nat) (gap : Gap) (p : Position) :
    Text → Option PlainScalar
  | [] => some ⟨[], gap.crosses, ⟨p, []⟩⟩
  | c :: t =>
    if isGap c || isBreak c then
      if gap.crosses && c == '\t' && p.column < floor then none
      else readPlain? flow floor (gap.push c) (p.after c) t
    else if isMarker p (c :: t) || (gap != {} && (c == '#' || (!flow && p.column < floor))) then
      some ⟨[], gap.crosses, ⟨p, c :: t⟩⟩
    else if isStrayColon flow c t then none
    else if endsPlain flow c t then some ⟨[], gap.crosses, ⟨p, c :: t⟩⟩
    else (readPlain? flow floor {} (p.after c) t).map (·.behind (gap.text ++ [c]))

end Scaffold.Yaml
