import Scaffold.Yaml.Scalar.Block
import Scaffold.Yaml.Scalar.Plain
import Scaffold.Yaml.Scalar.Quoted
import Scaffold.Yaml.Tag

/-!
# Tokens

A YAML text as a list of tokens, in which the indentation of block collections has become explicit
brackets.  Only the colon behind a key shows that it is one, so a token that may start a key is
remembered as a `Candidate`; when the colon comes, a key token, and the start of a mapping if one
is due, are put in front of it.
-/

namespace Scaffold.Yaml

/-- A token. -/
inductive Token where
  | directive (d : Directive)
  | documentStart
  | documentEnd
  -- block collections
  | blockSequence
  | blockMapping
  | blockEnd
  | dash
  -- flow collections
  | openList
  | closeList
  | openMap
  | closeMap
  | comma
  -- keys and values
  | key
  | value
  -- nodes
  | reference (name : Text)
  | anchor (name : Text)
  | tag (t : Tag)
  | scalar (plain : Bool) (t : Text)
  deriving DecidableEq, Repr

/-- A token that may turn out to start a key. -/
structure Candidate where
  /-- Nothing but a key may stand here. -/
  required : Bool
  /-- The number of tokens in front of it. -/
  before : Nat
  position : Position
  deriving DecidableEq, Repr

/-- The longest distance between the start of a key and its colon. -/
def maxKeyLength : Nat := 1024

/-- A candidate that has been left behind: its line is over or its colon would come too late. -/
def Candidate.isStale (k : Candidate) (p : Position) : Bool :=
  k.position.line < p.line || k.position.column + maxKeyLength < p.column

/-- The state between two tokens. -/
structure Scanner where
  cursor : Cursor
  /-- The columns of the open block collections, innermost first. -/
  columns : List Nat := []
  /-- The candidate of the collection around the cursor. -/
  candidate : Option Candidate := none
  /-- The candidates of the collections around each open flow collection, innermost first. -/
  outer : List (Option Candidate) := []
  /-- A key may start at the cursor. -/
  keyAllowed : Bool := true
  /-- The tokens, last first. -/
  tokens : List Token := []
  deriving DecidableEq, Repr

namespace Scanner

/-- The cursor is inside a flow collection. -/
def inFlow (s : Scanner) : Bool := !s.outer.isEmpty

/-- The first column behind the one of the innermost block collection. -/
def floor (s : Scanner) : Nat :=
  match s.columns with
  | [] => 0
  | column :: _ => column + 1

/-- The scanner with one token more. -/
def emit (token : Token) (s : Scanner) : Scanner := { s with tokens := token :: s.tokens }

/-! ## Blanks -/

/-- The cursor behind blanks, comments and line breaks, and whether a line break was among them.
Tabs are blanks only where no key may start, and a byte order mark only where a line starts. -/
def skipBlanks (flow : Bool) : (fuel : Nat) → (keyAllowed : Bool) → Cursor → Bool × Cursor
  | 0, keyAllowed, c => (keyAllowed, c)
  | fuel + 1, keyAllowed, c =>
    let c := c.skipMark
    let c := c.skipWhile fun x => x == ' ' || (x == '\t' && (flow || !keyAllowed))
    let c := if c.rest.head? == some '#' then c.skipLine else c
    match c.rest with
    | x :: _ =>
      if isBreak x then skipBlanks flow fuel (keyAllowed || !flow) (c.skip 1) else (keyAllowed, c)
    | [] => (keyAllowed, c)

/-- The scanner at the start of its next token. -/
def toToken (s : Scanner) : Scanner :=
  let (keyAllowed, cursor) :=
    skipBlanks s.inFlow (s.cursor.rest.length + 1) s.keyAllowed s.cursor
  { s with cursor, keyAllowed }

/-! ## Candidates -/

/-- The candidate unless it has been left behind; a required one may not be. -/
def freshCandidate? (p : Position) : Option Candidate → Option (Option Candidate)
  | none => some none
  | some k => if k.isStale p then if k.required then none else some none else some (some k)

/-- The scanner without the candidates that have been left behind. -/
def dropStale? (s : Scanner) : Option Scanner := do
  let candidate ← freshCandidate? s.cursor.position s.candidate
  let outer ← s.outer.mapM (freshCandidate? s.cursor.position)
  return { s with candidate, outer }

/-- The scanner without the candidate around the cursor, which then is no key. -/
def dropCandidate? (s : Scanner) : Option Scanner :=
  if s.candidate.any (·.required) then none else some { s with candidate := none }

/-- The scanner in front of a token that may start a key. -/
def saveCandidate? (s : Scanner) : Option Scanner :=
  if s.keyAllowed then do
    let required := !s.inFlow && s.floor == s.cursor.position.column + 1
    let s ← s.dropCandidate?
    return { s with candidate := some ⟨required, s.tokens.length, s.cursor.position⟩ }
  else some s

/-! ## Block collections -/

/-- Ends the block collections at column `floor` and behind it. -/
def closeTo (floor : Nat) (s : Scanner) : Scanner :=
  if s.inFlow then s
  else
    let ended := s.columns.takeWhile (floor ≤ ·)
    { s with
      columns := s.columns.drop ended.length
      tokens := List.replicate ended.length .blockEnd ++ s.tokens }

/-- A collection at `column` lies deeper than the open ones. -/
def opensAt (s : Scanner) (column : Nat) : Bool := !s.inFlow && s.floor ≤ column

/-- Starts a block collection at the cursor, if it lies deeper than the open ones. -/
def openBlock (token : Token) (s : Scanner) : Scanner :=
  let column := s.cursor.position.column
  if s.opensAt column then { s.emit token with columns := column :: s.columns } else s

/-- Makes a candidate a key, and starts a mapping with it if one is due. -/
def takeKey (k : Candidate) (s : Scanner) : Scanner :=
  let since := s.tokens.take (s.tokens.length - k.before)
  let before := s.tokens.drop (s.tokens.length - k.before)
  let column := k.position.column
  if s.opensAt column then
    { s with
      columns := column :: s.columns
      tokens := since ++ .key :: .blockMapping :: before }
  else { s with tokens := since ++ .key :: before }

/-! ## Tokens of several kinds -/

/-- The scanner behind `n` characters that make one token. -/
def take (n : Nat) (token : Token) (s : Scanner) : Scanner :=
  { s.emit token with cursor := s.cursor.skip n }

/-- The scanner behind a token that ends at a cursor. -/
def takeTo (c : Cursor) (token : Token) (s : Scanner) : Scanner :=
  { s.emit token with cursor := c }

/-- A document marker ends all block collections. -/
def marker? (token : Token) (s : Scanner) : Option Scanner := do
  let s ← (s.closeTo 0).dropCandidate?
  return { s.take 3 token with keyAllowed := false }

/-- A directive fills its line and ends all block collections. -/
def directive? (s : Scanner) : Option Scanner := do
  let s ← (s.closeTo 0).dropCandidate?
  let (d, rest) ← readDirective? (s.cursor.rest.drop 1)
  let c := (s.cursor.skip (s.cursor.rest.length - rest.length)).skipWhile isGap
  let c := if c.rest.head? == some '#' then c.skipLine else c
  if endsLine c.rest then
    return { s.takeTo (c.skip 1) (.directive d) with keyAllowed := false }
  else none

/-- A bracket that opens a flow collection may start a key. -/
def openFlow? (token : Token) (s : Scanner) : Option Scanner := do
  let s ← s.saveCandidate?
  return { s.take 1 token with
    outer := s.candidate :: s.outer, candidate := none, keyAllowed := true }

/-- A bracket that closes a flow collection; one without a partner is left to the reader of
nodes. -/
def closeFlow? (token : Token) (s : Scanner) : Option Scanner := do
  let s ← s.dropCandidate?
  return {
    s.take 1 token with
    candidate := s.outer.head?.join
    outer := s.outer.tail
    keyAllowed := false }

/-- A comma between the members of a flow collection. -/
def comma? (s : Scanner) : Option Scanner := do
  let s ← s.dropCandidate?
  return { s.take 1 .comma with keyAllowed := true }

/-- A dash in front of an item.  One in a flow collection is left to the reader of nodes. -/
def dash? (s : Scanner) : Option Scanner := do
  if !s.inFlow && !s.keyAllowed then none
  else
    let s ← (s.openBlock .blockSequence).dropCandidate?
    return { s.take 1 .dash with keyAllowed := true }

/-- A question mark in front of a key. -/
def key? (s : Scanner) : Option Scanner := do
  if !s.inFlow && !s.keyAllowed then none
  else
    let s ← (s.openBlock .blockMapping).dropCandidate?
    return { s.take 1 .key with keyAllowed := !s.inFlow }

/-- A colon in front of a value; the candidate, if there is one, is its key. -/
def value? (s : Scanner) : Option Scanner :=
  match s.candidate with
  | some k =>
    let s := s.takeKey k
    some { s.take 1 .value with candidate := none, keyAllowed := false }
  | none =>
    if !s.inFlow && !s.keyAllowed then none
    else
      let s := s.openBlock .blockMapping
      some { s.take 1 .value with keyAllowed := !s.inFlow }

/-- A character that may follow the name of an anchor. -/
def endsName (t : Text) : Bool := endsWord t || t.head?.any ("?:,]%@\x7d\x60".contains ·)

/-- A name behind `&` or `*`. -/
def name? (token : Text → Token) (s : Scanner) : Option Scanner := do
  let s ← s.saveCandidate?
  let c := s.cursor.skip 1
  let name := c.rest.takeWhile isNameChar
  let c := c.skip name.length
  if name.isEmpty || !endsName c.rest then none
  else return { s.takeTo c (token name) with keyAllowed := false }

/-- A tag. -/
def tag? (s : Scanner) : Option Scanner := do
  let s ← s.saveCandidate?
  let (tag, rest) ← readTag? s.cursor.rest
  let c := s.cursor.skip (s.cursor.rest.length - rest.length)
  if endsWord rest || (s.inFlow && rest.head? == some ',') then
    return { s.takeTo c (.tag tag) with keyAllowed := false }
  else none

/-- A block scalar. -/
def block? (folded : Bool) (s : Scanner) : Option Scanner := do
  let s ← s.dropCandidate?
  let (t, c) ← readBlock? folded s.floor (s.cursor.skip 1)
  return { s.takeTo c (.scalar false t) with keyAllowed := true }

/-- A quoted scalar. -/
def quoted? (read? : Position → Text → Option (Text × Cursor)) (s : Scanner) : Option Scanner := do
  let s ← s.saveCandidate?
  let c := s.cursor.skip 1
  let (t, c) ← read? c.position c.rest
  return { s.takeTo c (.scalar false t) with keyAllowed := false }

/-- A plain scalar; a key may follow it on a new line. -/
def plain? (s : Scanner) : Option Scanner := do
  let s ← s.saveCandidate?
  let scalar ← readPlain? s.inFlow s.floor {} s.cursor.position s.cursor.rest
  return { s.takeTo scalar.cursor (.scalar true scalar.text) with keyAllowed := scalar.crosses }

/-! ## The next token -/

/-- A character that no plain scalar may start with. -/
def isIndicator (c : Char) : Bool := "?:,[]\x7b\x7d#&*!|>'\"%@\x60".contains c

/-- The scanner behind the token that `c` starts, the first character at the cursor; `t` follows. -/
def token? (c : Char) (t : Text) (s : Scanner) : Option Scanner :=
  let p := s.cursor.position
  let alone := s.inFlow || endsWord t
  if p.column == 0 && c == '%' then s.directive?
  else if isMarker p (c :: t) then s.marker? (if c == '-' then .documentStart else .documentEnd)
  else
    match c with
    | '[' => s.openFlow? .openList
    | '\x7b' => s.openFlow? .openMap
    | ']' => s.closeFlow? .closeList
    | '\x7d' => s.closeFlow? .closeMap
    | ',' => s.comma?
    | '*' => s.name? .reference
    | '&' => s.name? .anchor
    | '!' => s.tag?
    | '\'' => s.quoted? (readSingle? {})
    | '"' => s.quoted? (readDouble? (.words {}))
    | '-' => if endsWord t then s.dash? else s.plain?
    | '?' => if alone then s.key? else s.plain?
    | ':' => if alone then s.value? else s.plain?
    | '|' => if s.inFlow then none else s.block? false
    | '>' => if s.inFlow then none else s.block? true
    | c => if isGap c || isIndicator c then none else s.plain?

/-- The scanner behind its last token. -/
def end? (s : Scanner) : Option Scanner := (s.closeTo 0).dropCandidate?

/-- All tokens from the cursor on, in order. -/
def tokens? : (fuel : Nat) → Scanner → Option (List Token)
  | 0, _ => none
  | fuel + 1, s => do
    let s ← s.toToken.dropStale?
    let s := s.closeTo (s.cursor.position.column + 1)
    match s.cursor.rest with
    | [] => return (← s.end?).tokens.reverse
    | c :: t => tokens? fuel (← s.token? c t)

end Scanner

/-- The tokens of a text; none when it holds a character that is not allowed. -/
def Token.ofText? (t : Text) : Option (List Token) :=
  if t.all isAllowed then
    let t := unifyBreaks t
    Scanner.tokens? (t.length + 1) { cursor := ⟨{}, t⟩ }
  else none

end Scaffold.Yaml
