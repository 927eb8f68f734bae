import Scaffold.Document

/-!
# Environment files

The entries of a `.env` file: lines of the form `KEY=value`, possibly behind `export`.  Values are
taken as they stand, without quotes or escapes, and an empty value counts as none.  A key may stand
several times, and its last entry counts.
-/

namespace Scaffold.Env

/-- The entries of an environment file, in file order. -/
abbrev DotEnv := List (Text × Text)

namespace DotEnv

/-- The entry of a line, when the line is one: not empty, not a comment, with an equals sign behind
a key. -/
def entryOfLine? (line : Text) : Option (Text × Text) :=
  let line := line.trim
  if line.isEmpty || line.head? == some '#' then none
  else
    (breakAt? (· == '=') line).bind fun (key, _, value) =>
      let key := Text.trim (Text.dropLead "export " (Text.trim key))
      if key.isEmpty then none else some (key, value)

/-- The entries of a text. -/
def ofText (t : Text) : DotEnv := (Text.lines t).filterMap entryOfLine?

/-- The entries of a document. -/
def ofDocument (d : Document) : DotEnv := ofText d.content

/-- All keys, in file order, repeats included. -/
def keys (env : DotEnv) : List Text := env.map Prod.fst

/-- `true` when a key has an entry. -/
def contains (env : DotEnv) (key : Text) : Bool := env.keys.contains key

/-- The value of the last entry of a key; an empty value is none. -/
def get? (env : DotEnv) (key : Text) : Option Text :=
  (env.reverse.lookup key).filter fun value => !value.isEmpty

/-- The line of an entry. -/
def entryLine (key : Text) (value : Option Text) : Text := key ++ '=' :: value.getD []

end DotEnv

end Scaffold.Env
