import Scaffold.Table
import Scaffold.Text.Basic

/-!
# JSON values

The values of the settings files.  Whole numbers of at most 64 bits are kept exactly and all other
numbers as binary fractions.  The entries of an object keep the order in which their keys were
first written.
-/

namespace Scaffold

/-- A JSON value. -/
inductive Json where
  | null
  | boolean (b : Bool)
  | whole (n : Int)
  | fraction (x : Float)
  | text (t : Text)
  | array (items : List Json)
  | object (entries : List (Text × Json))
  deriving Inhabited

namespace Json

/-- The value of a key of an object. -/
def get? (key : Text) : Json → Option Json
  | .object entries => entries.lookup key
  | _ => none

/-- The word that a value writes: a string, or an object whose only key is the word, without a
value. -/
def word? : Json → Option Text
  | .text t => some t
  | .object [(t, .null)] => some t
  | _ => none

/-- `true` for objects. -/
def isObject : Json → Bool
  | .object _ => true
  | _ => false

end Json

/-! ## Repeated keys -/

namespace Json

mutual

/-- The value with one entry for each key: the place of the first and the value of the last. -/
def distinct : Json → Json
  | .array items => .array (distinctItems items)
  | .object entries => .object (distinctEntries [] entries)
  | value => value

/-- The items with one entry for each key of their objects. -/
def distinctItems : List Json → List Json
  | [] => []
  | item :: items => distinct item :: distinctItems items

/-- The entries laid over those already read. -/
def distinctEntries (read : List (Text × Json)) : List (Text × Json) → List (Text × Json)
  | [] => read
  | (key, value) :: entries => distinctEntries (Table.insert key (distinct value) read) entries

end

end Json

/-! ## Merging -/

namespace Json

mutual

/-- Lays `patch` over a value: where both are objects their entries are merged, everywhere else
the patch stands. -/
def merge (target : Json) : (patch : Json) → Json
  | .object patches =>
    match target with
    | .object entries => .object (mergeEntries entries patches)
    | _ => .object patches
  | patch => patch

/-- The entries with each patch laid over the entry of its key, or added as the last one. -/
def mergeEntries (entries : List (Text × Json)) : (patches : List (Text × Json)) →
    List (Text × Json)
  | [] => entries
  | (key, patch) :: patches =>
    let merged :=
      match entries.lookup key with
      | some value => merge value patch
      | none => patch
    mergeEntries (Table.insert key merged entries) patches

end

/-- A patch that is no object replaces the value. -/
theorem merge_of_not_isObject {target patch : Json} (h : patch.isObject = false) :
    merge target patch = patch := by
  cases patch <;> simp_all [merge, isObject]

/-- Nothing is merged with a value that is no object. -/
theorem merge_of_target_not_isObject {target patch : Json} (h : target.isObject = false) :
    merge target patch = patch := by
  cases patch <;> cases target <;> simp_all [merge, isObject]

end Json

end Scaffold
