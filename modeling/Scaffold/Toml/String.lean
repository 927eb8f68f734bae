import Scaffold.Text.Hex

/-!
# TOML strings

The four forms of string: basic and literal ones on one line between one quote, and on several
lines between three.  Basic strings know escapes, literal ones are taken as they stand.  A newline
right behind three opening quotes does not count, and up to two quotes may stand in front of three
closing ones.
-/

namespace Scaffold.Toml

/-- A character that may stand in a string or comment as it is. -/
def isPlain (c : Char) : Bool := c == '\t' || (0x20 ≤ c.toNat && c.toNat != 0x7F)

/-- The character that an escape stands for, from behind its backslash on, and the rest. -/
def readEscape? : Text → Option (Char × Text)
  | 'b' :: t => some ('\x08', t)
  | 't' :: t => some ('\t', t)
  | 'n' :: t => some ('\n', t)
  | 'f' :: t => some ('\x0c', t)
  | 'r' :: t => some ('\r', t)
  | 'e' :: t => some ('\x1b', t)
  | '"' :: t => some ('"', t)
  | '\\' :: t => some ('\\', t)
  | 'x' :: t => Text.readHexChar? 2 t
  | 'u' :: t => Text.readHexChar? 4 t
  | 'U' :: t => Text.readHexChar? 8 t
  | _ => none

/-- The text behind a newline that starts it. -/
def newlineTail? : Text → Option Text
  | '\n' :: t => some t
  | '\r' :: '\n' :: t => some t
  | _ => none

/-- The text without the blanks and newlines that start it. -/
def dropLines : Text → Text
  | ' ' :: t | '\t' :: t | '\n' :: t | '\r' :: '\n' :: t => dropLines t
  | t => t

/-- The text behind blanks that hold a newline, and all blanks and newlines that follow it. -/
def joinedLineTail? (t : Text) : Option Text :=
  (newlineTail? (t.dropWhile fun c => c == ' ' || c == '\t')).map dropLines

/-- The rest of a string on one line between `quote`s; `escapes` tells basic from literal ones. -/
def readLine? (quote : Char) (escapes : Bool) : (fuel : Nat) → Text → Option (Text × Text)
  | 0, _ => none
  | _, [] => none
  | fuel + 1, c :: t =>
    if c == quote then some ([], t)
    else if escapes && c == '\\' then do
      let (e, t) ← readEscape? t
      let (s, t) ← readLine? quote escapes fuel t
      return (e :: s, t)
    else if isPlain c then do
      let (s, t) ← readLine? quote escapes fuel t
      return (c :: s, t)
    else none

/-- The rest of a string on several lines between three `quote`s. -/
def readLines? (quote : Char) (escapes : Bool) : (fuel : Nat) → Text → Option (Text × Text)
  | 0, _ => none
  | _, [] => none
  | fuel + 1, c :: t =>
    if c == quote then
      let run := (c :: t).takeWhile (· == quote)
      if run.length < 3 then do
        let (s, t) ← readLines? quote escapes fuel ((c :: t).drop run.length)
        return (run ++ s, t)
      else
        let inside := min (run.length - 3) 2
        some (List.replicate inside quote, (c :: t).drop (inside + 3))
    else if escapes && c == '\\' then
      match joinedLineTail? t with
      | some t => readLines? quote escapes fuel t
      | none => do
        let (e, t) ← readEscape? t
        let (s, t) ← readLines? quote escapes fuel t
        return (e :: s, t)
    else if isPlain c || (newlineTail? (c :: t)).isSome then do
      let (s, t) ← readLines? quote escapes fuel t
      return (c :: s, t)
    else none

/-- The string that starts a text, and the rest.  Keys are strings on one line. -/
def readString? (key : Bool) (t : Text) : Option (Text × Text) :=
  match t with
  | c :: rest =>
    if c == '"' || c == '\'' then
      let escapes := c == '"'
      match List.isPrefixOf? [c, c, c] t with
      | some body =>
        if key then none
        else readLines? c escapes (body.length + 1) ((newlineTail? body).getD body)
      | none => readLine? c escapes (rest.length + 1) rest
    else none
  | [] => none

end Scaffold.Toml
