import Scaffold.Table
import Scaffold.Yaml.Node

/-!
# Anchors

An anchor gives a node a name by which later references repeat it.  A node gets the number of the
names that are in use in front of it, and a reference means the number that its name stands for
where it is written.  So a name may be given again; and where two nodes have got one number, it
means the later one for every reference.
-/

namespace Scaffold.Yaml.Node

/-- The numbers of the names in use. -/
abbrev Names := List (Text × Nat)

/-- The number of a node with an anchor, and the names behind it. -/
def numberAnchor (names : Names) : Option Text → Option Nat × Names
  | none => (none, names)
  | some name => (some names.length, Table.insert name names.length names)

mutual

/-- The node with numbers for its anchors, and the names behind it; none when a reference has a
name that is not in use. -/
def number? (names : Names) : Node Text → Option (Node Nat × Names)
  | .reference name => (names.lookup name).map fun n => (.reference n, names)
  | .scalar anchor tag plain t =>
    let (anchor, names) := numberAnchor names anchor
    some (.scalar anchor tag plain t, names)
  | .sequence anchor tag items => do
    let (anchor, names) := numberAnchor names anchor
    let (items, names) ← numberItems? names items
    return (.sequence anchor tag items, names)
  | .mapping anchor tag entries => do
    let (anchor, names) := numberAnchor names anchor
    let (entries, names) ← numberEntries? names entries
    return (.mapping anchor tag entries, names)

/-- The items with numbers for their anchors. -/
def numberItems? (names : Names) : List (Node Text) → Option (List (Node Nat) × Names)
  | [] => some ([], names)
  | item :: items => do
    let (item, names) ← number? names item
    let (items, names) ← numberItems? names items
    return (item :: items, names)

/-- The entries with numbers for their anchors. -/
def numberEntries? (names : Names) : List (Node Text × Node Text) →
    Option (List (Node Nat × Node Nat) × Names)
  | [] => some ([], names)
  | (key, value) :: entries => do
    let (key, names) ← number? names key
    let (value, names) ← number? names value
    let (entries, names) ← numberEntries? names entries
    return ((key, value) :: entries, names)

end

/-- The nodes with anchors, the latest first. -/
abbrev Anchored := List (Nat × Node Nat)

/-- The anchored nodes with one more, if it has an anchor. -/
def anchoredNode (read : Anchored) (anchor : Option Nat) (node : Node Nat) : Anchored :=
  match anchor with
  | some n => (n, node) :: read
  | none => read

mutual

/-- The nodes with anchors in a node, behind those in front of it. -/
def anchored (read : Anchored) : Node Nat → Anchored
  | .reference _ => read
  | .scalar anchor tag plain t => anchoredNode read anchor (.scalar anchor tag plain t)
  | .sequence anchor tag items =>
    anchoredItems (anchoredNode read anchor (.sequence anchor tag items)) items
  | .mapping anchor tag entries =>
    anchoredEntries (anchoredNode read anchor (.mapping anchor tag entries)) entries

/-- The nodes with anchors in the items. -/
def anchoredItems (read : Anchored) : List (Node Nat) → Anchored
  | [] => read
  | item :: items => anchoredItems (anchored read item) items

/-- The nodes with anchors in the entries. -/
def anchoredEntries (read : Anchored) : List (Node Nat × Node Nat) → Anchored
  | [] => read
  | (key, value) :: entries => anchoredEntries (anchored (anchored read key) value) entries

end

mutual

/-- How many steps a node takes to write: one for a scalar or a reference, two around the members of
a collection. -/
def size {α : Type} : Node α → Nat
  | .reference _ => 1
  | .scalar .. => 1
  | .sequence _ _ items => sizeItems items + 2
  | .mapping _ _ entries => sizeEntries entries + 2

/-- The steps of the items. -/
def sizeItems {α : Type} : List (Node α) → Nat
  | [] => 0
  | item :: items => size item + sizeItems items

/-- The steps of the entries. -/
def sizeEntries {α : Type} : List (Node α × Node α) → Nat
  | [] => 0
  | (key, value) :: entries => size key + size value + sizeEntries entries

end

end Scaffold.Yaml.Node
