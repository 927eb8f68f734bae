import Scaffold.Env.Flaw
import Scaffold.Script.Literal.Reader

/-!
# Expressions

The values that a calculation may return: a literal, the value of a static variable, or a template
that joins texts and values of static variables.  An expression is evaluated against a snapshot of
the static variables; `Expr.render` writes it as script text and `Expr.read` reads it back.
-/

namespace Scaffold.Env

/-! ## Snapshots -/

/-- The declared static variables with the values that are known. -/
abbrev Snapshot := List (Text × Option Setting)

namespace Snapshot

/-- Declares a variable; a value, when there is one, replaces the value it had. -/
def insert (s : Snapshot) (key : Text) (value : Option Setting) : Snapshot :=
  Table.insert key (value <|> (s.lookup key).join) s

/-- The value of a declared variable; an undeclared one is reported by its key. -/
def value (s : Snapshot) (key : Text) : Except Text (Option Setting) :=
  match s.lookup key with
  | some value => .ok value
  | none => .error key

end Snapshot

/-! ## Expressions -/

/-- A piece of a template. -/
inductive TemplatePart where
  | text (t : Text)
  | reference (key : Text)
  deriving DecidableEq, Repr

/-- What a calculation returns. -/
inductive Expr where
  | literal (value : Setting)
  | reference (key : Text)
  | template (parts : List TemplatePart)
  deriving BEq

/-- The variable that a piece of a template reads. -/
def TemplatePart.reference? : TemplatePart → Option Text
  | .text _ => none
  | .reference key => some key

/-- The text that a piece contributes; a variable without a value shows as `undefined`. -/
def TemplatePart.evaluate (s : Snapshot) : TemplatePart → Except Text Text
  | .text t => .ok t
  | .reference key =>
    (s.value key).map fun
      | some v => v.text
      | none => "undefined"

namespace Expr

/-- The variables that an expression reads, in order, repeats included. -/
def references : Expr → List Text
  | .literal _ => []
  | .reference key => [key]
  | .template parts => parts.filterMap TemplatePart.reference?

/-- The type of the value, when the types of the static variables are given. -/
def type? (declared : Text → Option ValueType) : Expr → Option ValueType
  | .literal v => some v.type
  | .reference key => declared key
  | .template _ => some .string

/-- The value of an expression, or the key of the first undeclared variable it reads. -/
def evaluate (s : Snapshot) : Expr → Except Text (Option Setting)
  | .literal v => .ok (some v)
  | .reference key => s.value key
  | .template parts =>
    (parts.mapM (TemplatePart.evaluate s)).map fun texts => some (.string texts.flatten)

end Expr

/-! ## Writing -/

/-- A text as it stands in a template. -/
def escapeTemplate : Text → Text
  | [] => []
  | '\\' :: t => '\\' :: '\\' :: escapeTemplate t
  | '`' :: t => '\\' :: '`' :: escapeTemplate t
  | '\n' :: t => '\\' :: 'n' :: escapeTemplate t
  | '\t' :: t => '\\' :: 't' :: escapeTemplate t
  | '$' :: '\x7b' :: t => '\\' :: '$' :: escapeTemplate ('\x7b' :: t)
  | c :: t => c :: escapeTemplate t

/-- The prefix of a reference to a static variable. -/
def referenceHead : Text := "env."

/-- A piece as it stands in a template. -/
def TemplatePart.render : TemplatePart → Text
  | .text t => escapeTemplate t
  | .reference key => "$\x7b" ++ referenceHead ++ key ++ ['\x7d']

/-- The script text of an expression. -/
def Expr.render : Expr → Text
  | .literal (.string t) => Script.quoted t
  | .literal v => v.text
  | .reference key => referenceHead ++ key
  | .template parts => '`' :: parts.flatMap TemplatePart.render ++ ['`']

/-! ## Reading -/

/-- A character of a key that a script may refer to. -/
def isReferenceChar (c : Char) : Bool := c.isAlphanum || c == '_'

/-- The key that a reference names. -/
def referenceKey? (t : Text) : Option Text :=
  (referenceHead.isPrefixOf? t).filter fun key => !key.isEmpty && key.all isReferenceChar

/-- The character that a template escape stands for. -/
def unescapeTemplate (c : Char) : Char :=
  match c with
  | 'n' => '\n'
  | 't' => '\t'
  | c => c

/-- The pieces with a character before them: it joins the text that comes first. -/
def consChar (c : Char) : List TemplatePart → List TemplatePart
  | .text t :: parts => .text (c :: t) :: parts
  | parts => .text [c] :: parts

/-- The pieces of the inside of a template. -/
def readTemplate : Text → Except Flaw (List TemplatePart)
  | [] => .ok []
  | ['\\'] => .error .trailingEscape
  | '\\' :: c :: t => return consChar (unescapeTemplate c) (← readTemplate t)
  | '`' :: _ => .error .bareBacktick
  | '$' :: '\x7b' :: t =>
    match _h : breakAt? (· == '\x7d') t with
    | none => .error .openInterpolation
    | some (inner, _, rest) =>
      match referenceKey? (Text.trim inner) with
      | none => .error (.interpolation inner)
      | some key => return .reference key :: (← readTemplate rest)
  | c :: t => return consChar c (← readTemplate t)
termination_by t => t.length
decreasing_by
  · simp only [List.length_cons]
    omega
  · have := (eq_append_of_breakAt? _h).1
    simp [this]
    omega
  · simp

/-- The inside of a template literal. -/
def templateInner? : Text → Option Text
  | '`' :: t => if t.getLast? == some '`' then some t.dropLast else none
  | _ => none

/-- Reads an expression. -/
def Expr.read (source : Text) : Except Flaw Expr :=
  let text := Script.trimCode source
  match templateInner? text with
  | some inner => Expr.template <$> readTemplate inner
  | none =>
    match referenceKey? text with
    | some key => .ok (.reference key)
    | none =>
      match Script.Literal.read {} text with
      | .string t => .ok (.literal (.string t))
      | .number x => .ok (.literal (.number x))
      | .boolean b => .ok (.literal (.boolean b))
      | _ => .error (.expression text)

end Scaffold.Env
