import Scaffold.Text.Basic

/-!
# Flaws of calculations

Why the text of a calculation cannot be read.  The wording of every flaw is `Flaw.message`.
-/

namespace Scaffold.Env

/-- The reason why a calculation or an expression is not read. -/
inductive Flaw where
  | trailingEscape
  | bareBacktick
  | openInterpolation
  | interpolation (inner : Text)
  | expression (source : Text)
  | noArrow
  | unbalancedBody
  | textAfterBody
  | noSwitch
  | noSwitchBody
  | discriminant (found : Text)
  | unbalancedSwitch
  | textAfterSwitch (found : Text)
  | noColon
  | labelNotString (label : Text)
  | unknownTarget (name : Text)
  | statement (found : Text)
  | noReturn (found : Text)
  | noEntry
  deriving DecidableEq, Repr

namespace Flaw

/-- The wording of a flaw. -/
def message : Flaw → Text
  | trailingEscape => "template ends with an escape"
  | bareBacktick => "unescaped backtick inside template literal"
  | openInterpolation => "unterminated `$\x7b` in template literal"
  | interpolation inner => "unsupported interpolation `$\x7b" ++ inner ++ "\x7d`"
  | expression source => "unsupported expression `" ++ source ++ "`"
  | noArrow => "expected an arrow function `(env, target) => ...`"
  | unbalancedBody => "unbalanced function body"
  | textAfterBody => "unexpected text after function body"
  | noSwitch => "expected `switch (target)` or a single `return`"
  | noSwitchBody => "missing switch body"
  | discriminant found => "expected `switch (target)`, found `switch " ++ found ++ "`"
  | unbalancedSwitch => "unbalanced switch body"
  | textAfterSwitch found => "unexpected `" ++ found ++ "` after switch"
  | noColon => "missing `:` after case label"
  | labelNotString label => "case label `" ++ label ++ "` is not a string"
  | unknownTarget name => "Unknown deployment target '" ++ name ++ "'"
  | statement found => "unexpected statement `" ++ found ++ "` in switch"
  | noReturn found => "expected `return` after case label, found `" ++ found ++ "`"
  | noEntry => "no entry in calculationSchemaFor"

end Flaw

end Scaffold.Env
