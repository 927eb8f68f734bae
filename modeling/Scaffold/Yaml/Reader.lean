import Scaffold.Yaml.Anchor
import Scaffold.Yaml.Scalar.Meaning

/-!
# Reading YAML

From the nodes of a document to its value: references are replaced by the nodes they mean, scalars
get their meaning, and tags with a name of the user's own are kept.  A key stands once in a mapping.

References make documents short that mean much, so their number is bounded, and so is the depth of
collections, which also ends the reading of a node that refers to itself.
-/

namespace Scaffold.Yaml

/-- The most collections that may stand inside one another. -/
def maxDepth : Nat := 128

/-- How often a document may follow references for each step that it takes to write. -/
def maxRepeats : Nat := 100

/-- The name of a tag of the user's own, which starts behind one exclamation mark, or behind two;
the mark alone is a name too.  A name that is no text does not count. -/
def ownTag? (tag : Option TagName) : Option Text := do
  match ← (← tag).text? with
  | ['!'] => some ['!']
  | '!' :: '!' :: c :: name => some (c :: name)
  | '!' :: name => some name
  | _ => none

/-- A reader that counts down the references that may still be followed. -/
abbrev Resolver := StateT Nat Option

/-- A reader of nodes. -/
abbrev NodeReader := Node Nat → Resolver Value

/-- The tag of a node. -/
def Node.tag? {α : Type} : Node α → Option TagName
  | .reference _ => none
  | .scalar _ tag _ _ => tag
  | .sequence _ tag _ => tag
  | .mapping _ tag _ => tag

namespace Value

/-- The entries in order, their parts read by `member`; no key may stand twice. -/
def ofEntries (member : NodeReader) (entries : List (Node Nat × Node Nat)) :
    Resolver (List (Value × Value)) :=
  entries.foldlM (fun read (k, v) => do
    let k ← member k
    if read.any (·.1 == k) then failure
    else return read ++ [(k, ← member v)]) []

/-- The value of a node that is no reference, as if its tag were `tag`.  `member?` reads what stands
inside a collection, unless no further collection may. -/
def ofContent (member? : Option NodeReader) (tag : Option TagName) : NodeReader
  | .reference _ => failure
  | .scalar _ _ plain t => ofScalar? tag plain t
  | .sequence _ _ items => do return .sequence (← items.mapM (← member?))
  | .mapping _ _ entries => do return .mapping (← ofEntries (← member?) entries)

/-- The value of a node that is no reference, with its tag. -/
def ofTagged (member? : Option NodeReader) (node : Node Nat) : Resolver Value :=
  match ownTag? node.tag? with
  | some name => return .tagged name (← ofContent member? none node)
  | none => ofContent member? node.tag? node

/-- The value of a node; a reference has that of the node it means. -/
def follow (anchored : Node.Anchored) (member? : Option NodeReader) : NodeReader
  | .reference n => do
    let left ← get
    let target ← anchored.lookup n
    if left == 0 then failure
    else
      set (left - 1)
      ofTagged member? target
  | node => ofTagged member? node

/-- The value of a node in which `depth` collections may stand inside one another. -/
def ofNode (anchored : Node.Anchored) : (depth : Nat) → NodeReader
  | 0 => follow anchored none
  | depth + 1 => follow anchored (some (ofNode anchored depth))

end Value

/-- Reads a text of at most one document. -/
def read? (t : Text) : Option Value := do
  let node ← Node.ofTokens? (← Token.ofText? t)
  let (node, _) ← node.number? []
  (Value.ofNode (node.anchored []) maxDepth node).run' (maxRepeats * node.size)

end Scaffold.Yaml
