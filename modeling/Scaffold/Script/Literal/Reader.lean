import Scaffold.Decimal.Text
import Scaffold.Script.Literal.Printer
import Scaffold.Script.Slice

/-!
# Reading literals

`Literal.read` reads any script text: a form it does not know is an expression, kept as source
text.  Comments around a value or an item are skipped, and a trailing comma adds no item.

The order of the forms matters, because one text may have several: the fixed words, then the
sources of the vocabulary, lazy imports, numbers, brackets, quotes.
-/

namespace Scaffold.Script

/-- The pieces of the inside of a literal that hold code. -/
def entriesOf (inner : Text) : List Text :=
  ((splitTopLevel ',' inner).map trimCode).filter fun entry => !entry.isEmpty

/-- The inside of a text that is one literal from the bracket `opening` on. -/
def enclosed? (opening : Char) (t : Text) : Option Text :=
  if t.head? == some opening then
    match bracketed? t with
    | some (literal, []) => some (literal.drop 1).dropLast
    | _ => none
  else none

/-- The import that a text writes in the form of `Literal.print`. -/
def lazyImport? (t : Text) : Option Literal := do
  let t ← lazyImportHead.isPrefixOf? t
  let plain (c : Char) : Bool := c != '\'' && c != '\\' && c != '\n'
  let modulePath := t.takeWhile plain
  let exportName ← lazyImportMiddle.isPrefixOf? (t.dropWhile plain)
  if exportName.getLast? == some ')' && isIdentifier exportName.dropLast && !modulePath.isEmpty then
    some (.lazyImport modulePath exportName.dropLast)
  else none

/-- The number that a text writes, with an optional minus sign. -/
def number? : Text → Option Float
  | '-' :: t => (Decimal.readMagnitude? t).map fun x => -x
  | t => Decimal.readMagnitude? t

/-- The value of a text that is one word, name or number. -/
def word? (voc : Vocabulary) (t : Text) : Option Literal :=
  if t.isEmpty || t == "undefined" then some .undefined
  else if t == "null" then some .null
  else if t == "true" then some (.boolean true)
  else if t == "false" then some (.boolean false)
  else
    match voc.text? t with
    | some s => some (.string s)
    | none =>
      match lazyImport? t with
      | some v => some v
      | none => (number? t).map .number

/-- The key of an entry: without its quotes, when it has any. -/
def keyOf (source : Text) : Text :=
  let key := trimCode source
  (unquote? key).getD key

theorem length_enclosed?_lt {opening : Char} {t inner : Text}
    (h : enclosed? opening t = some inner) : inner.length < t.length := by
  unfold enclosed? at h
  split at h
  · next hhead =>
    split at h
    · next literal hb =>
      cases h
      have ht := append_eq_of_bracketed? hb
      cases t with
      | nil => cases hhead
      | cons c t =>
        simp_all only [List.append_nil]
        simp only [List.drop_succ_cons, List.drop_zero, List.length_dropLast, List.length_cons]
        omega
    · simp at h
  · simp at h

theorem length_le_of_mem_entriesOf {inner entry : Text} (h : entry ∈ entriesOf inner) :
    entry.length ≤ inner.length := by
  obtain ⟨piece, hp, rfl⟩ := List.mem_map.1 (List.mem_filter.1 h).1
  exact Nat.le_trans (length_trimCode_le piece) (length_le_of_mem_splitTopLevel hp)

theorem length_splitKeyValue?_lt {entry key value : Text}
    (h : splitKeyValue? entry = some (key, value)) : value.length < entry.length := by
  simp [← append_eq_of_splitKeyValue? h]
  omega

namespace Literal

/-- The value of script text. -/
def read (voc : Vocabulary) (source : Text) : Literal :=
  let text := trimCode source
  match word? voc text with
  | some value => value
  | none =>
    match _hi : enclosed? '[' text with
    | some inner => .array ((entriesOf inner).attach.map fun ⟨item, _⟩ => read voc item)
    | none =>
      match _he : enclosed? '\x7b' text with
      | some inner =>
        .object ((entriesOf inner).attach.map fun ⟨entry, _⟩ =>
          match _hs : splitKeyValue? entry with
          | some (key, value) => (keyOf key, read voc value)
          | none => (entry, .expression entry))
      | none =>
        match unquote? text with
        | some s => .string s
        | none => .expression text
termination_by source.length
decreasing_by
  · have h₁ := length_enclosed?_lt _hi
    have h₂ := length_trimCode_le source
    have h₃ := length_le_of_mem_entriesOf ‹_›
    simp only [text] at h₁
    omega
  · have h₁ := length_enclosed?_lt _he
    have h₂ := length_trimCode_le source
    have h₃ := length_le_of_mem_entriesOf ‹_›
    have h₄ := length_splitKeyValue?_lt _hs
    simp only [text] at h₁
    omega

end Literal

end Scaffold.Script
