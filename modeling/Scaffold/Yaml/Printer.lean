import Scaffold.Yaml.Reader

/-!
# Writing YAML

Values are written over several lines, four blanks deeper for each level; collections inside an item
of a sequence, and those without members, are written on one line between brackets.

A string is written without quotes only if it is read back as the same string, and looks like
nothing else to readers of older versions of YAML.
-/

namespace Scaffold.Yaml

/-! ## Strings -/

/-- The character as it stands between double quotes. -/
def escapeChar : Char → Text
  | '"' => ['\\', '"']
  | '\\' => ['\\', '\\']
  | '\n' => ['\\', 'n']
  | '\t' => ['\\', 't']
  | '\r' => ['\\', 'r']
  | c => [c]

/-- A text between double quotes. -/
def quote (t : Text) : Text := '"' :: t.flatMap escapeChar ++ ['"']

/-- The words that some version of YAML takes for a boolean or null. -/
def reservedWords : List Text :=
  ["true", "false", "yes", "no", "on", "off", "y", "n", "null", "~"]

/-- A character that is never written at the start of a string without quotes. -/
def isLeadIndicator (c : Char) : Bool := "-?:,[]\x7b\x7d#&*!|>'\"%@\x60".contains c

/-- A character that is never written in a string without quotes. -/
def needsQuotes (c : Char) : Bool := ":#,[]\x7b\x7d\"'\\".contains c || isControl c

/-- A text looks like a number, perhaps one without digits or in another base. -/
def looksNumeric (t : Text) : Bool :=
  (Decimal.read? t).isSome || ['0', 'x'].isPrefixOf t || ['0', 'o'].isPrefixOf t ||
    Text.lower t == ".inf" || Text.lower t == ".nan"

/-- The text without quotes is read as the same string. -/
def readsBack (t : Text) : Bool :=
  match read? t with
  | some (.text u) => u == t
  | _ => false

/-- The string may be written without quotes. -/
def isPlainText (t : Text) : Bool :=
  match t with
  | [] => false
  | c :: _ =>
    Text.trim t == t && !isLeadIndicator c && !t.any needsQuotes &&
      !reservedWords.contains (Text.lower t) && !looksNumeric t && readsBack t

/-- A string. -/
def writeText (t : Text) : Text := if isPlainText t then t else quote t

/-! ## Values -/

namespace Value

mutual

/-- A value on one line. -/
def inline : Value → Text
  | .null => "null"
  | .boolean b => Text.ofBool b
  | .whole n => Text.ofInt n
  | .fraction x => fractionText x
  | .text t => writeText t
  | .sequence items => '[' :: inlineItems items ++ [']']
  | .mapping entries => '\x7b' :: inlineEntries entries ++ ['\x7d']
  | .tagged name value => '!' :: name ++ ' ' :: inline value

/-- The items with commas between them. -/
def inlineItems : List Value → Text
  | [] => []
  | [item] => inline item
  | item :: items => inline item ++ ", " ++ inlineItems items

/-- The entries with commas between them. -/
def inlineEntries : List (Value × Value) → Text
  | [] => []
  | [(key, value)] => inline key ++ ": " ++ inline value
  | (key, value) :: entries =>
    inline key ++ ": " ++ inline value ++ ", " ++ inlineEntries entries

end

/-- How much deeper each level is indented. -/
def indentStep : Nat := 4

mutual

/-- What follows a key and its colon at `indent`, to the end of the line or of the lines below. -/
def nested (indent : Nat) : Value → Text
  | .null => ['\n']
  | .sequence (item :: items) => '\n' :: nestedItems (indent + indentStep) (item :: items)
  | .mapping (entry :: entries) =>
    '\n' :: nestedEntries (indent + indentStep) (entry :: entries)
  | value => ' ' :: inline value ++ ['\n']

/-- The items at `indent`, each behind a dash. -/
def nestedItems (indent : Nat) : List Value → Text
  | [] => []
  | item :: items =>
    Text.spaces indent ++ ['-', ' '] ++ nestedItem indent item ++ nestedItems indent items

/-- An item behind its dash: the entries of a mapping stand below one another. -/
def nestedItem (indent : Nat) : Value → Text
  | .mapping ((key, value) :: entries) =>
    inline key ++ ':' :: nested (indent + 2) value ++ nestedEntries (indent + 2) entries
  | value => inline value ++ ['\n']

/-- The entries at `indent`. -/
def nestedEntries (indent : Nat) : List (Value × Value) → Text
  | [] => []
  | (key, value) :: entries =>
    Text.spaces indent ++ inline key ++ ':' :: nested indent value ++ nestedEntries indent entries

end

end Value

end Scaffold.Yaml
