import Scaffold.Text.Hex
import Scaffold.Yaml.Cursor

/-!
# Tags and directives

A tag names the type of a node.  It is written with a handle, which a directive may bind to the
start of the full name, or in full between angle brackets.  Its escapes write bytes, which need not
make up a character.  The readers work inside one word, so they need no position.
-/

namespace Scaffold.Yaml

/-! ## Resource names -/

/-- The characters of a name; `none` stands for bytes in the form of a character that are none. -/
abbrev TagName := List (Option Char)

/-- The name that a text spells. -/
def TagName.ofText (t : Text) : TagName := t.map some

/-- The text of a name, all of whose bytes make up characters. -/
def TagName.text? (name : TagName) : Option Text := name.mapM id

/-- A name ends in front of its first null character. -/
def TagName.untilNull (name : TagName) : TagName := name.takeWhile (· != some '\x00')

/-- A character of the names that tags are made of; commas and square brackets only where they
cannot be structure. -/
def isNamePart (bracketed : Bool) (c : Char) : Bool :=
  isNameChar c || ";/?:@&=+$.!~*'()".contains c || (bracketed && ",[]".contains c)

/-- How many bytes the character has that starts with a byte, and the bits that this one gives. -/
def leadByte? (b : Nat) : Option (Nat × Nat) :=
  if b < 0x80 then some (1, b)
  else if 0xC0 ≤ b && b < 0xE0 then some (2, b % 0x20)
  else if 0xE0 ≤ b && b < 0xF0 then some (3, b % 0x10)
  else if 0xF0 ≤ b && b < 0xF8 then some (4, b % 0x08)
  else none

/-- The byte that a percent sign and two hexadecimal digits write, and the rest. -/
def readByte? : Text → Option (Nat × Text)
  | '%' :: t => Text.readHex? 2 t
  | _ => none

/-- The number that the given bits and `count` further bytes make, and the rest. -/
def readTailBytes? : (count : Nat) → (bits : Nat) → Text → Option (Nat × Text)
  | 0, bits, t => some (bits, t)
  | count + 1, bits, t => do
    let (b, t) ← readByte? t
    if b / 0x40 == 2 then readTailBytes? count (0x40 * bits + b % 0x40) t else none

/-- The character whose bytes are escaped, and the rest.  Bytes in the form of a character are none
when there is no character with their number or it has a shorter form. -/
def readEscapedChar? (t : Text) : Option (Option Char × Text) := do
  let (b, t) ← readByte? t
  let (count, bits) ← leadByte? b
  let (n, t) ← readTailBytes? (count - 1) bits t
  return ((Text.charOf? n).filter (·.utf8Size == count), t)

/-- The longest name that starts a text, its escapes resolved, and the rest. -/
def readName? (bracketed : Bool) : (fuel : Nat) → Text → Option (TagName × Text)
  | 0, _ => none
  | _, [] => some ([], [])
  | fuel + 1, c :: t =>
    if c == '%' then do
      let (x, t) ← readEscapedChar? (c :: t)
      let (name, t) ← readName? bracketed fuel t
      return (x :: name, t)
    else if isNamePart bracketed c then do
      let (name, t) ← readName? bracketed fuel t
      return (some c :: name, t)
    else some ([], c :: t)

/-! ## Tags -/

/-- A tag as it is written: a handle and what follows it; a tag written in full has no handle. -/
structure Tag where
  handle : Text
  suffix : TagName
  deriving DecidableEq, Repr

/-- The handle that starts a text, and the rest. -/
def readHandle? : Text → Option (Text × Text)
  | '!' :: t =>
    let name := t.takeWhile isNameChar
    match t.dropWhile isNameChar with
    | '!' :: t => some ('!' :: name ++ ['!'], t)
    | t => some ('!' :: name, t)
  | _ => none

/-- A name stands between two exclamation marks, or nothing does. -/
def isClosedHandle (handle : Text) : Bool := 1 < handle.length && handle.getLast? == some '!'

/-- The tag that starts a text, and the rest.  Without a closed handle the tag belongs to the
handle `!`; an exclamation mark alone is the full name of a tag. -/
def readTag? : Text → Option (Tag × Text)
  | '!' :: '<' :: t => do
    let (name, t) ← readName? true (t.length + 1) t
    match t with
    | '>' :: t => if name.isEmpty then none else some (⟨[], name.untilNull⟩, t)
    | _ => none
  | t => do
    let (handle, rest) ← readHandle? t
    let (suffix, rest) ← readName? false (rest.length + 1) rest
    if isClosedHandle handle then
      if suffix.isEmpty then none else some (⟨handle, suffix.untilNull⟩, rest)
    else
      match TagName.untilNull (.ofText (handle.drop 1) ++ suffix) with
      | [] => some (⟨[], .ofText ['!']⟩, rest)
      | suffix => some (⟨['!'], suffix⟩, rest)

/-- The starts of names that handles stand for. -/
abbrev Handles := List (Text × TagName)

/-- The full name of a tag that YAML itself defines. -/
def coreName (t : Text) : TagName := .ofText ("tag:yaml.org,2002:" ++ t)

/-- What the two handles stand for that need no directive. -/
def Handles.usual : Handles := [(['!'], .ofText ['!']), (['!', '!'], coreName [])]

/-- The full name of a tag; none when nothing says what its handle stands for. -/
def Tag.name? (handles : Handles) (tag : Tag) : Option TagName :=
  if tag.handle.isEmpty then some tag.suffix
  else (handles.lookup tag.handle).map (· ++ tag.suffix)

/-! ## Directives -/

/-- A line that says how to read the document behind it. -/
inductive Directive where
  | version (major minor : Nat)
  | handle (handle : Text) (start : TagName)
  deriving DecidableEq, Repr

/-- The number of at most nine digits that starts a text, and the rest. -/
def readVersionNumber? (t : Text) : Option (Nat × Text) :=
  let digits := t.takeWhile Char.isDigit
  if digits.isEmpty || 9 < digits.length then none
  else some (digits.foldl (fun n c => 10 * n + (c.toNat - '0'.toNat)) 0, t.dropWhile Char.isDigit)

/-- The directive that starts a text behind its percent sign, and the rest. -/
def readDirective? (t : Text) : Option (Directive × Text) := do
  let name := t.takeWhile isNameChar
  let t := t.dropWhile isNameChar
  let arguments := t.dropWhile isGap
  if !endsWord t then none
  else if name == "YAML" then
    let (major, t) ← readVersionNumber? arguments
    match t with
    | '.' :: t =>
      let (minor, t) ← readVersionNumber? t
      return (.version major minor, t)
    | _ => none
  else if name == "TAG" then
    let (handle, t) ← readHandle? arguments
    let (start, rest) ← readName? true (t.length + 1) (t.dropWhile isGap)
    if (isClosedHandle handle || handle == ['!']) && t.head?.any isGap && !start.isEmpty &&
        endsWord rest then
      return (.handle handle start.untilNull, rest)
    else none
  else none

end Scaffold.Yaml
