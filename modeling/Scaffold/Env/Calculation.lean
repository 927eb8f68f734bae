import Scaffold.Env.Expr
import Scaffold.Target
import Scaffold.Text.Word

/-!
# Calculations

A calculation gives a value for each target: one case for some targets and a fallback for the
others.  It is written as a function of `env` and `target` whose body is a `switch`, and read back
from that form, from a single `return`, or from a function that is one expression.

Of several cases for one target the first counts, and so does the first fallback.
-/

namespace Scaffold.Env

open Script

/-- The expressions of a calculation by target, and the one for all other targets. -/
structure Calculation where
  cases : Target → Option Expr := fun _ => none
  fallback : Option Expr := none

namespace Calculation

/-- Calculations are equal when they have equal cases and fallbacks. -/
protected def beq (a b : Calculation) : Bool :=
  Target.all.all (fun t => a.cases t == b.cases t) && a.fallback == b.fallback

instance : BEq Calculation := ⟨Calculation.beq⟩

/-- One expression for every target. -/
def uniform (e : Expr) : Calculation := { fallback := some e }

/-- The calculation with the given expression for a target. -/
def withCase (c : Calculation) (target : Target) (e : Expr) : Calculation :=
  { c with cases := fun t => if t = target then some e else c.cases t }

/-- The calculation with the given expression for all targets without a case. -/
def otherwise (c : Calculation) (e : Expr) : Calculation := { c with fallback := some e }

/-- The expression for a target. -/
def exprFor? (c : Calculation) (target : Target) : Option Expr := c.cases target <|> c.fallback

/-- The targets without an expression. -/
def missing (c : Calculation) : List Target :=
  Target.all.filter fun target => (c.exprFor? target).isNone

/-- All expressions: the cases in target order, then the fallback. -/
def exprs (c : Calculation) : List Expr := Target.all.filterMap c.cases ++ c.fallback.toList

/-- The variables that any expression reads. -/
def references (c : Calculation) : List Text := c.exprs.flatMap Expr.references

/-! ## Writing -/

/-- One line, `indent` blanks deep. -/
def line (indent : Nat) (t : Text) : Text := Text.spaces indent ++ t ++ ['\n']

/-- A label and what it returns. -/
def renderCase (indent : Nat) (label : Text) (e : Expr) : Text :=
  line (indent + 8) (label ++ [':']) ++ line (indent + 12) ("return " ++ e.render ++ [';'])

/-- The label of a target. -/
def caseLabel (target : Target) : Text := "case '" ++ target.name ++ ['\'']

/-- The lines of all cases and the fallback. -/
def renderCases (c : Calculation) (indent : Nat) : Text :=
  (Target.all.flatMap fun target =>
    match c.cases target with
    | some e => renderCase indent (caseLabel target) e
    | none => []) ++
  match c.fallback with
  | some e => renderCase indent "default" e
  | none => []

/-- The script text of a calculation whose last line stands `indent` blanks deep. -/
def render (c : Calculation) (indent : Nat) : Text :=
  "(env, target) => \x7b\n" ++ line (indent + 4) "switch (target) \x7b" ++ c.renderCases indent ++
    line (indent + 4) ['\x7d'] ++ Text.spaces indent ++ ['\x7d']

/-! ## Reading statements -/

/-- A label of a switch: a target, or `none` for the default. -/
abbrev Label := Option Target

/-- The calculation with an expression for a label, unless it already has one. -/
def addLabel (e : Expr) (c : Calculation) : Label → Calculation
  | some target => if (c.cases target).isSome then c else c.withCase target e
  | none => if c.fallback.isSome then c else c.otherwise e

/-- The target that the text behind `case` names. -/
def readTarget (label : Text) : Except Flaw Target :=
  match Literal.read {} label with
  | .string name =>
    match Target.read? name with
    | some target => .ok target
    | none => .error (.unknownTarget name)
  | _ => .error (.labelNotString (Text.trim label))

/-- The text behind `case`, when a label follows. -/
def caseTail? (t : Text) : Option Text :=
  (List.isPrefixOf? "case".toList t).filter fun after =>
    after.head?.any fun c => isBlank c || c == '\'' || c == '"'

/-- The text behind `default:`. -/
def defaultTail? (t : Text) : Option Text :=
  (List.isPrefixOf? "default".toList t).bind fun after =>
    List.isPrefixOf? [':'] (Text.trimStart after)

/-- The labels that start a statement, and the rest; a label takes up text, so the length of the
text bounds their number. -/
def readLabels : (fuel : Nat) → Text → Except Flaw (List Label × Text)
  | 0, t => .ok ([], t)
  | fuel + 1, t =>
    match caseTail? t with
    | some after =>
      match splitKeyValue? after with
      | none => .error .noColon
      | some (label, tail) => do
        let target ← readTarget label
        let (labels, rest) ← readLabels fuel (trimCode tail)
        return (some target :: labels, rest)
    | none =>
      match defaultTail? t with
      | some tail => do
        let (labels, rest) ← readLabels fuel (trimCode tail)
        return (none :: labels, rest)
      | none => .ok ([], t)

/-- The text behind `return`. -/
def returnTail? (t : Text) : Option Text :=
  (List.isPrefixOf? "return".toList t).filter fun after =>
    after.head?.any fun c => isBlank c || c == '`' || c == '\''

/-- The labels of a statement and the expression it returns for them; a `break` has no labels. -/
def readStatement (statement : Text) : Except Flaw (List Label × Option Expr) := do
  let (labels, rest) ← readLabels (statement.length + 1) statement
  if labels.isEmpty then
    if rest == "break" then return ([], none) else throw (.statement rest)
  match returnTail? rest with
  | none => throw (.noReturn rest)
  | some value => return (labels, some (← Expr.read value))

/-- The calculation with the cases of a statement. -/
def addStatement (c : Calculation) (statement : Text) : Except Flaw Calculation := do
  let (labels, e) ← readStatement statement
  match e with
  | none => return c
  | some e => return labels.foldl (addLabel e) c

/-- The statements of a switch body that hold code. -/
def statementsOf (body : Text) : List Text :=
  ((splitTopLevel ';' body).map trimCode).filter fun statement => !statement.isEmpty

/-- The calculation of a switch body. -/
def readCases (body : Text) : Except Flaw Calculation :=
  (statementsOf body).foldlM addStatement {}

/-! ## Reading functions -/

/-- The text behind a name that ends there. -/
def nameTail? (name t : Text) : Option Text :=
  (name.isPrefixOf? t).filter fun after => !after.head?.any isWord

/-- The body of an arrow function of `env` and, optionally, `target`. -/
def arrowBody? (t : Text) : Option Text := do
  let t ← List.isPrefixOf? ['('] t
  let t ← nameTail? "env" (t.dropWhile isBlank)
  let t := t.dropWhile fun c => c != ',' && c != ')'
  let t ← match t with
    | ',' :: t => (nameTail? "target" (t.dropWhile isBlank)).map (List.dropWhile (· != ')'))
    | t => some t
  let t ← List.isPrefixOf? [')'] t
  let t ← List.isPrefixOf? "=>".toList (t.dropWhile isBlank)
  return trimCode (t.dropWhile isBlank)

/-- The calculation of a switch, from behind the word `switch` on. -/
def readSwitch (t : Text) : Except Flaw Calculation :=
  match breakAtOpening? t with
  | none => .error .noSwitchBody
  | some (head, body) =>
    let discriminant := head.filter fun c => !isBlank c
    if discriminant != "(target)" then .error (.discriminant discriminant)
    else
      match bracketed? body with
      | none => .error .unbalancedSwitch
      | some (body, rest) =>
        let trailing := trimCode rest
        if !trailing.isEmpty && trailing != ";" then .error (.textAfterSwitch trailing)
        else readCases (body.drop 1).dropLast

/-- A text without the semicolons that end it. -/
def dropSemicolons (t : Text) : Text :=
  (t.trimEnd.reverse.dropWhile (· == ';')).reverse

/-- The calculation of a function body between its braces. -/
def readBlock (block : Text) : Except Flaw Calculation :=
  match List.isPrefixOf? "return ".toList block with
  | some value => uniform <$> Expr.read (dropSemicolons value)
  | none =>
    match List.isPrefixOf? "switch".toList block with
    | some rest => readSwitch rest
    | none => .error .noSwitch

/-- Reads a calculation. -/
def read (source : Text) : Except Flaw Calculation :=
  match arrowBody? (trimCode source) with
  | none => .error .noArrow
  | some body =>
    if body.head? == some '\x7b' then
      match bracketed? body with
      | none => .error .unbalancedBody
      | some (literal, []) => readBlock (trimCode (literal.drop 1).dropLast)
      | some _ => .error .textAfterBody
    else uniform <$> Expr.read body

end Calculation

end Scaffold.Env
