import Scaffold.Yaml.Token

/-!
# Nodes

The tree that the tokens of a document write.  Scalars have no meaning yet, tags and anchors stand
beside their nodes, and a reference names an anchor.

A node that is left out is an empty plain scalar.  Every reader takes a bound on the number of
steps; of three nested steps at least one reads a token, so a multiple of the number of tokens is
enough.
-/

namespace Scaffold.Yaml

/-- A node whose anchors are known by labels of type `α`. -/
inductive Node (α : Type) where
  | reference (anchor : α)
  | scalar (anchor : Option α) (tag : Option TagName) (plain : Bool) (t : Text)
  | sequence (anchor : Option α) (tag : Option TagName) (items : List (Node α))
  | mapping (anchor : Option α) (tag : Option TagName) (entries : List (Node α × Node α))
  deriving Inhabited

namespace Node

/-- The node that is left out. -/
def empty {α : Type} : Node α := .scalar none none true []

/-! ## Properties -/

/-- The anchor and the tag in front of a node. -/
structure Properties where
  anchor : Option Text := none
  tag : Option Tag := none
  deriving DecidableEq, Repr

/-- The properties that start a list of tokens, in either order, and the rest. -/
def readProperties : List Token → Properties × List Token
  | .anchor name :: .tag t :: ts => ({ anchor := some name, tag := some t }, ts)
  | .anchor name :: ts => ({ anchor := some name }, ts)
  | .tag t :: .anchor name :: ts => ({ anchor := some name, tag := some t }, ts)
  | .tag t :: ts => ({ tag := some t }, ts)
  | ts => ({}, ts)

/-- The full name of the tag among the properties. -/
def Properties.tagName? (handles : Handles) (p : Properties) : Option (Option TagName) :=
  match p.tag with
  | none => some none
  | some tag => (tag.name? handles).map some

/-! ## Collections -/

/-- The next token is one of those. -/
def atAny (those : List Token) (ts : List Token) : Bool := ts.head?.any (those.contains ·)

/-- Where a node may stand: block collections are read only outside flow collections, and only a
value of a block mapping may be a sequence that is not indented. -/
structure Place where
  block : Bool
  unindented : Bool
  deriving DecidableEq, Repr

/-- A member of a block sequence, and the document itself. -/
def Place.item : Place := ⟨true, false⟩

/-- A member of a block mapping. -/
def Place.member : Place := ⟨true, true⟩

/-- A member of a flow collection. -/
def Place.flow : Place := ⟨false, false⟩

mutual

/-- The node that starts a list of tokens, and the rest. -/
def read? (handles : Handles) : (fuel : Nat) → Place → List Token →
    Option (Node Text × List Token)
  | 0, _, _ => none
  | fuel + 1, place, ts =>
    match ts with
    | .reference name :: ts => some (.reference name, ts)
    | ts => do
      let (properties, ts) := readProperties ts
      let anchor := properties.anchor
      let tag ← properties.tagName? handles
      match ts with
      | .scalar plain t :: ts => return (.scalar anchor tag plain t, ts)
      | .openList :: ts =>
        let (items, ts) ← readList? handles fuel true ts
        return (.sequence anchor tag items, ts)
      | .openMap :: ts =>
        let (entries, ts) ← readMap? handles fuel true ts
        return (.mapping anchor tag entries, ts)
      | ts =>
        if place.unindented && atAny [.dash] ts then
          let (items, ts) ← readUnindented? handles fuel ts
          return (.sequence anchor tag items, ts)
        else if place.block && atAny [.blockSequence] ts then
          let (items, ts) ← readSequence? handles fuel (ts.drop 1)
          return (.sequence anchor tag items, ts)
        else if place.block && atAny [.blockMapping] ts then
          let (entries, ts) ← readMapping? handles fuel (ts.drop 1)
          return (.mapping anchor tag entries, ts)
        else if anchor.isSome || tag.isSome then return (.scalar anchor tag true [], ts)
        else none

/-- The node that starts a list of tokens unless one of `ends` does, and the rest. -/
def readUnless? (handles : Handles) : (fuel : Nat) → (ends : List Token) → Place → List Token →
    Option (Node Text × List Token)
  | 0, _, _, _ => none
  | fuel + 1, ends, place, ts =>
    if atAny ends ts then some (empty, ts) else read? handles fuel place ts

/-- The items of a block sequence up to its end, and the rest. -/
def readSequence? (handles : Handles) : (fuel : Nat) → List Token →
    Option (List (Node Text) × List Token)
  | 0, _ => none
  | fuel + 1, ts =>
    match ts with
    | .dash :: ts => do
      let (item, ts) ← readUnless? handles fuel [.dash, .blockEnd] .item ts
      let (items, ts) ← readSequence? handles fuel ts
      return (item :: items, ts)
    | .blockEnd :: ts => some ([], ts)
    | _ => none

/-- The items of a block sequence that ends where no dash follows, and the rest. -/
def readUnindented? (handles : Handles) : (fuel : Nat) → List Token →
    Option (List (Node Text) × List Token)
  | 0, _ => none
  | fuel + 1, ts =>
    match ts with
    | .dash :: ts => do
      let (item, ts) ← readUnless? handles fuel [.dash, .key, .value, .blockEnd] .item ts
      let (items, ts) ← readUnindented? handles fuel ts
      return (item :: items, ts)
    | ts => some ([], ts)

/-- The entries of a block mapping up to its end, and the rest. -/
def readMapping? (handles : Handles) : (fuel : Nat) → List Token →
    Option (List (Node Text × Node Text) × List Token)
  | 0, _ => none
  | fuel + 1, ts =>
    match ts with
    | .key :: ts => do
      let (key, ts) ← readUnless? handles fuel [.key, .value, .blockEnd] .member ts
      let (value, ts) ← readValue? handles fuel [.key, .value, .blockEnd] .member ts
      let (entries, ts) ← readMapping? handles fuel ts
      return ((key, value) :: entries, ts)
    | .blockEnd :: ts => some ([], ts)
    | _ => none

/-- The value behind its colon, and the rest; without a colon the value is left out. -/
def readValue? (handles : Handles) : (fuel : Nat) → (ends : List Token) → Place → List Token →
    Option (Node Text × List Token)
  | 0, _, _, _ => none
  | fuel + 1, ends, place, ts =>
    match ts with
    | .value :: ts => readUnless? handles fuel ends place ts
    | ts => some (empty, ts)

/-- The items of a flow sequence up to its bracket, and the rest; all but the first follow a
comma.  An item may be a single entry of a mapping. -/
def readList? (handles : Handles) : (fuel : Nat) → (first : Bool) → List Token →
    Option (List (Node Text) × List Token)
  | 0, _, _ => none
  | fuel + 1, first, ts =>
    match ts with
    | .closeList :: ts => some ([], ts)
    | ts =>
      if !first && !atAny [.comma] ts then none
      else
        match if first then ts else ts.drop 1 with
        | .closeList :: ts => some ([], ts)
        | .key :: ts => do
          let (entry, ts) ← readPair? handles fuel ts
          let (items, ts) ← readList? handles fuel false ts
          return (.mapping none none [entry] :: items, ts)
        | ts => do
          let (item, ts) ← read? handles fuel .flow ts
          let (items, ts) ← readList? handles fuel false ts
          return (item :: items, ts)

/-- The entry of a mapping that is an item of a flow sequence, and the rest.  Where its key is left
out, the token in its place is passed over. -/
def readPair? (handles : Handles) : (fuel : Nat) → List Token →
    Option ((Node Text × Node Text) × List Token)
  | 0, _ => none
  | fuel + 1, ts => do
    let (key, ts) ←
      if atAny [.value, .comma, .closeList] ts then some (empty, ts.drop 1)
      else read? handles fuel .flow ts
    let (value, ts) ← readValue? handles fuel [.comma, .closeList] .flow ts
    return ((key, value), ts)

/-- The entries of a flow mapping up to its brace, and the rest; all but the first follow a comma.
A key without a mark has no value. -/
def readMap? (handles : Handles) : (fuel : Nat) → (first : Bool) → List Token →
    Option (List (Node Text × Node Text) × List Token)
  | 0, _, _ => none
  | fuel + 1, first, ts =>
    match ts with
    | .closeMap :: ts => some ([], ts)
    | ts =>
      if !first && !atAny [.comma] ts then none
      else
        match if first then ts else ts.drop 1 with
        | .closeMap :: ts => some ([], ts)
        | .key :: ts => do
          let (key, ts) ← readUnless? handles fuel [.value, .comma, .closeMap] .flow ts
          let (value, ts) ← readValue? handles fuel [.comma, .closeMap] .flow ts
          let (entries, ts) ← readMap? handles fuel false ts
          return ((key, value) :: entries, ts)
        | ts => do
          let (key, ts) ← read? handles fuel .flow ts
          let (entries, ts) ← readMap? handles fuel false ts
          return ((key, empty) :: entries, ts)

end

/-! ## Documents -/

/-- The directives that start a list of tokens, and the rest. -/
def readDirectives : List Token → List Directive × List Token
  | .directive d :: ts =>
    let (ds, ts) := readDirectives ts
    (d :: ds, ts)
  | ts => ([], ts)

/-- The handles that directives bind; a handle is bound once, and one version of YAML is named at
most. -/
def handlesOf? (versions : Nat) (bound : Handles) : List Directive → Option Handles
  | [] => some bound
  | .version major minor :: ds =>
    if versions == 0 && major == 1 && (minor == 1 || minor == 2) then
      handlesOf? (versions + 1) bound ds
    else none
  | .handle handle start :: ds =>
    if (bound.lookup handle).isSome then none
    else handlesOf? versions ((handle, start) :: bound) ds

/-- The only document that a list of tokens writes; a text without one stands for an empty
document. -/
def ofTokens? (ts : List Token) : Option (Node Text) := do
  let fuel := 3 * ts.length + 3
  let (node, rest) ←
    match ts with
    | [] => some (empty, [])
    | .directive _ :: _ | .documentStart :: _ =>
      let (ds, rest) := readDirectives ts
      let handles ← handlesOf? 0 [] ds
      match rest with
      | .documentStart :: rest =>
        if rest.isEmpty || atAny [.documentEnd] rest then some (empty, rest)
        else read? (handles ++ Handles.usual) fuel .item rest
      | _ => none
    | ts => read? Handles.usual fuel .item ts
  if rest.all (· == .documentEnd) then some node else none

end Node

end Scaffold.Yaml
