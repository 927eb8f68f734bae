import Scaffold.Text.Basic

/-!
# Scanning script text

One pass over TypeScript text that tells code from quoted text and comments and counts bracket
nesting.  Everything that cuts script text (`Script/Slice`) asks this pass and nothing else, so a
bracket, comma or colon inside a string or a comment is never taken for structure.

`scan` gives one `Visit` for each character.  An opening bracket is visited at the depth outside
it, and the bracket that closes it at the same depth.  `length_scanFrom` and `map_char_scanFrom`
say that the visits are the characters of the text, in order.
-/

namespace Scaffold.Script

/-- What a character belongs to. -/
inductive Lexeme where
  | code
  | quoted
  | comment
  deriving DecidableEq, Repr

/-- Where in a string or comment the scan stands. -/
inductive Mode where
  | code
  | quoted (quote : Char)
  | escaped (quote : Char)
  | lineComment
  | blockOpen
  | block
  | blockClose
  deriving DecidableEq, Repr

/-- The state of the scan between two characters. -/
structure ScanState where
  mode : Mode := .code
  depth : Nat := 0
  deriving DecidableEq, Repr

/-- A character with its class and the depth it stands at. -/
structure Visit where
  char : Char
  lexeme : Lexeme
  depth : Nat
  deriving DecidableEq, Repr

/-- The quotation marks that open a string or a template. -/
def isQuote (c : Char) : Bool := c == '\'' || c == '"' || c == '`'

/-- The brackets that raise the depth. -/
def isOpening (c : Char) : Bool := c == '[' || c == '\x7b' || c == '('

/-- The brackets that lower the depth. -/
def isClosing (c : Char) : Bool := c == ']' || c == '\x7d' || c == ')'

/-- The visit of `c` and the state behind it; `next` is the character that follows. -/
def ScanState.step (s : ScanState) (c : Char) (next : Option Char) : Visit × ScanState :=
  match s.mode with
  | .code =>
    if isQuote c then (⟨c, .quoted, s.depth⟩, { s with mode := .quoted c })
    else if c == '/' && next == some '/' then
      (⟨c, .comment, s.depth⟩, { s with mode := .lineComment })
    else if c == '/' && next == some '*' then
      (⟨c, .comment, s.depth⟩, { s with mode := .blockOpen })
    else if isOpening c then (⟨c, .code, s.depth⟩, { s with depth := s.depth + 1 })
    else if isClosing c then (⟨c, .code, s.depth - 1⟩, { s with depth := s.depth - 1 })
    else (⟨c, .code, s.depth⟩, s)
  | .quoted q =>
    (⟨c, .quoted, s.depth⟩,
      if c == '\\' then { s with mode := .escaped q }
      else if c == q then { s with mode := .code }
      else s)
  | .escaped q => (⟨c, .quoted, s.depth⟩, { s with mode := .quoted q })
  | .lineComment =>
    if c == '\n' then (⟨c, .code, s.depth⟩, { s with mode := .code })
    else (⟨c, .comment, s.depth⟩, s)
  | .blockOpen => (⟨c, .comment, s.depth⟩, { s with mode := .block })
  | .block =>
    (⟨c, .comment, s.depth⟩,
      if c == '*' && next == some '/' then { s with mode := .blockClose } else s)
  | .blockClose => (⟨c, .comment, s.depth⟩, { s with mode := .code })

/-- The visits of a text that is entered in state `s`. -/
def scanFrom (s : ScanState) : Text → List Visit
  | [] => []
  | c :: t => (s.step c t.head?).1 :: scanFrom (s.step c t.head?).2 t

/-- The visits of a text that is read from its start. -/
def scan (t : Text) : List Visit := scanFrom {} t

/-- A visit shows the character it was made for. -/
@[simp] theorem ScanState.char_step (s : ScanState) (c : Char) (next : Option Char) :
    (s.step c next).1.char = c := by
  unfold ScanState.step
  split <;> repeat' split
  all_goals rfl

/-- The visits are the characters of the text, in order. -/
@[simp] theorem map_char_scanFrom (s : ScanState) (t : Text) :
    (scanFrom s t).map Visit.char = t := by
  induction t generalizing s with
  | nil => rfl
  | cons c t ih => simp [scanFrom, ih]

/-- There is one visit for each character. -/
@[simp] theorem length_scanFrom (s : ScanState) (t : Text) :
    (scanFrom s t).length = t.length := by
  rw [← List.length_map Visit.char, map_char_scanFrom]

end Scaffold.Script
