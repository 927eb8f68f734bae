import Scaffold.Text.Basic

/-!
# Quoted strings and names

Strings are written between single quotes, with the characters that would end the literal or the
line escaped, and read back from single or double quotes.  `unquote?_quoted` says that reading
inverts writing for every text.
-/

namespace Scaffold.Script

/-! ## Strings -/

/-- A character as it stands between single quotes. -/
def escapeChar (c : Char) : Text :=
  match c with
  | '\\' => ['\\', '\\']
  | '\'' => ['\\', '\'']
  | '\n' => ['\\', 'n']
  | '\r' => ['\\', 'r']
  | '\t' => ['\\', 't']
  | c => [c]

/-- A text as a string literal. -/
def quoted (t : Text) : Text := '\'' :: t.flatMap escapeChar ++ ['\'']

/-- The character that an escape stands for. -/
def unescapeChar (c : Char) : Char :=
  match c with
  | 'n' => '\n'
  | 'r' => '\r'
  | 't' => '\t'
  | '0' => '\x00'
  | c => c

/-- The content of a string whose opening quote was `quote`.  The closing quote must be the last
character. -/
def unquoteFrom? (quote : Char) : Text → Option Text
  | [] => none
  | ['\\'] => none
  | '\\' :: c :: t => (unquoteFrom? quote t).map (unescapeChar c :: ·)
  | c :: t =>
    if c == quote then if t.isEmpty then some [] else none
    else (unquoteFrom? quote t).map (c :: ·)

/-- The content of a string literal in single or double quotes. -/
def unquote? : Text → Option Text
  | [] => none
  | c :: t => if c == '\'' || c == '"' then unquoteFrom? c t else none

theorem unquoteFrom?_cons {quote c : Char} (h : c ≠ '\\') (t : Text) :
    unquoteFrom? quote (c :: t) =
      if c == quote then if t.isEmpty then some [] else none
      else (unquoteFrom? quote t).map (c :: ·) := by
  rw [unquoteFrom?]
  · intro hc
    exact absurd hc h
  · intro _ _ hc
    exact absurd hc h

/-- An escaped character is read back as itself. -/
theorem unquoteFrom?_escapeChar (c : Char) (t : Text) :
    unquoteFrom? '\'' (escapeChar c ++ t) = (unquoteFrom? '\'' t).map (c :: ·) := by
  unfold escapeChar
  split
  iterate 5 rfl
  next h₁ h₂ _ _ _ =>
    rw [List.singleton_append, unquoteFrom?_cons h₁, if_neg (by simpa using h₂)]

/-- Reading a string literal inverts writing it. -/
theorem unquote?_quoted (t : Text) : unquote? (quoted t) = some t := by
  have body (t : Text) : unquoteFrom? '\'' (t.flatMap escapeChar ++ ['\'']) = some t := by
    induction t with
    | nil => rfl
    | cons c t ih => rw [List.flatMap_cons, List.append_assoc, unquoteFrom?_escapeChar, ih]; rfl
  simpa [unquote?, quoted] using body t

/-! ## Names -/

/-- A character that may start a name. -/
def isNameStart (c : Char) : Bool := c.isAlpha || c == '_' || c == '$'

/-- A character that may stand in a name. -/
def isNameChar (c : Char) : Bool := c.isAlphanum || c == '_' || c == '$'

/-- `true` for the names of ASCII letters, digits, underscores and dollar signs that start with no
digit. -/
def isIdentifier : Text → Bool
  | [] => false
  | c :: t => isNameStart c && t.all isNameChar

/-- A key of an object literal: bare when it is a name, quoted otherwise. -/
def keyText (key : Text) : Text := if isIdentifier key then key else quoted key

end Scaffold.Script
