import Scaffold.Table
import Scaffold.Text.Basic

/-!
# Vocabularies

A vocabulary gives certain strings a source text of their own: such a string is written as its
source, without quotes, and the source is read back as the string.
-/

namespace Scaffold.Script

/-- Strings with a source text of their own, by string and by source. -/
structure Vocabulary where
  byText : List (Text × Text) := []
  bySource : List (Text × Text) := []
  deriving DecidableEq, Repr

namespace Vocabulary

/-- Gives a string a source text, in place of the one it had. -/
def insert (v : Vocabulary) (text source : Text) : Vocabulary where
  byText := Table.insert text source v.byText
  bySource :=
    Table.insert source text <|
      match v.byText.lookup text with
      | some previous => Table.erase previous v.bySource
      | none => v.bySource

/-- The vocabulary of a list of strings with their sources; a later pair counts. -/
def ofList (pairs : List (Text × Text)) : Vocabulary :=
  pairs.foldl (fun v (text, source) => v.insert text source) {}

/-- The source text of a string. -/
def source? (v : Vocabulary) (text : Text) : Option Text := v.byText.lookup text

/-- The string of a source text. -/
def text? (v : Vocabulary) (source : Text) : Option Text := v.bySource.lookup source

/-- The number of strings with a source text. -/
def size (v : Vocabulary) : Nat := v.byText.length

/-- The source of a string is the one it was given last. -/
@[simp] theorem source?_insert (v : Vocabulary) (text source t : Text) :
    (v.insert text source).source? t = if t == text then some source else v.source? t :=
  Table.lookup_insert ..

end Vocabulary

end Scaffold.Script
