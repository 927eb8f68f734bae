import Scaffold.Text.Basic

/-!
# Paths

A path is kept as it was written, because messages show it, and read as a list of components.
Joining paths resolves nothing: `ws/./a` and `ws/a` are two paths with the same components.
Repeated slashes and dots between slashes are no components; a dot that starts a relative path is
one.
-/

namespace Scaffold

/-- A path, as it was written. -/
structure Path where
  text : Text
  deriving DecidableEq, Repr

instance : Coe String Path := ⟨fun s => ⟨s.toList⟩⟩

namespace Path

/-- A step of a path. -/
inductive Component where
  | root
  | here
  | up
  | name (n : Text)
  deriving DecidableEq, Repr

/-- The text of a component. -/
def Component.text : Component → Text
  | .root => "/"
  | .here => "."
  | .up => ".."
  | .name n => n

/-- `true` when the path starts at the root. -/
def isAbsolute (p : Path) : Bool := p.text.head? == some '/'

/-- The pieces between slashes; behind the root slash, when there is one. -/
def segments (p : Path) : List Text :=
  (if p.isAbsolute then p.text.drop 1 else p.text).splitOn '/'

/-- A piece between slashes that is no component. -/
def isFiller (segment : Text) : Bool := segment.isEmpty || segment == "."

/-- The component of a piece between slashes. -/
def componentOf (segment : Text) : Option Component :=
  if isFiller segment then none
  else if segment == ".." then some .up
  else some (.name segment)

/-- The components of a path. -/
def components (p : Path) : List Component :=
  match p.isAbsolute, p.segments with
  | true, segments => .root :: segments.filterMap componentOf
  | false, ['.'] :: segments => .here :: segments.filterMap componentOf
  | false, segments => segments.filterMap componentOf

/-- The path below `p` that `q` says; `q` itself when it starts at the root. -/
def join (p q : Path) : Path :=
  if q.isAbsolute then q
  else
    match p.text.getLast? with
    | none => q
    | some '/' => ⟨p.text ++ q.text⟩
    | some _ => ⟨p.text ++ '/' :: q.text⟩

/-- The path of the given pieces. -/
def ofSegments (absolute : Bool) (segments : List Text) : Path :=
  let body := ['/'].intercalate segments
  ⟨if absolute then '/' :: body else body⟩

/-- Removes the pieces at the end that are no component. -/
def trimFiller (absolute : Bool) : List Text → List Text
  | [] => []
  | segment :: segments =>
    -- a dot that starts a relative path stays
    let starts := !absolute && segment == "."
    let rest := (segments.reverse.dropWhile isFiller).reverse
    if rest.isEmpty && isFiller segment && !starts then [] else segment :: rest

/-- The path without its last component; `none` when there is none but the root. -/
def parent? (p : Path) : Option Path :=
  match trimFiller p.isAbsolute p.segments with
  | [] => none
  | segments => some (ofSegments p.isAbsolute (trimFiller p.isAbsolute segments.dropLast))

/-- The name that ends a path. -/
def fileName? (p : Path) : Option Text :=
  match p.components.getLast? with
  | some (.name n) => some n
  | _ => none

/-- What stands in front of the last dot of a name; the whole name when that is nothing or when there
is no dot. -/
def stem (name : Text) : Text :=
  match Text.breakOnLast? '.' name with
  | some ([], _) | none => name
  | some (stem, _) => stem

/-- The path without the extension of its last name.  A name that starts with its only dot has no
extension; of two dots in front of an extension both stay when the name ends the path. -/
def withoutExtension (p : Path) : Path :=
  match p.fileName? with
  | none => p
  | some _ =>
    let segments := trimFiller p.isAbsolute p.segments
    match segments.getLast? with
    | none => p
    | some n =>
      let kept := if stem n == ['.'] && segments == p.segments then ['.', '.'] else stem n
      ofSegments p.isAbsolute (segments.dropLast ++ [kept])

/-- Removes the first `n` components from the pieces of a relative path or of the body of an
absolute one. -/
def dropNames : (n : Nat) → List Text → List Text
  | 0, segments => segments
  | _ + 1, [] => []
  | n + 1, segment :: segments =>
    if isFiller segment then dropNames (n + 1) segments else dropNames n segments

/-- What follows the components of `base` in a path that starts with them. -/
def relativeTo? (base p : Path) : Option Path :=
  let count := base.components.length
  if base.components.isPrefixOf p.components then
    if count == 0 then some (ofSegments p.isAbsolute (trimFiller p.isAbsolute p.segments))
    else
      let leading := p.isAbsolute || p.components.head? == some .here
      let rest :=
        if leading then
          dropNames (count - 1) (if p.isAbsolute then p.segments else p.segments.drop 1)
        else dropNames count p.segments
      some (ofSegments false (trimEdges isFiller rest))
  else none

/-! ## Order -/

/-- The rank of a kind of component. -/
def Component.rank : Component → Nat
  | .root => 0
  | .here => 1
  | .up => 2
  | .name _ => 3

/-- The order of component lists: by kind, then by name, the shorter list first. -/
def leComponents : List Component → List Component → Bool
  | [], _ => true
  | _ :: _, [] => false
  | c :: cs, d :: ds =>
    if c = d then leComponents cs ds
    else
      match c, d with
      | .name n, .name m => Text.le n m
      | c, d => c.rank < d.rank

/-- Paths in the order of their components. -/
def sort (ps : List Path) : List Path :=
  ps.mergeSort fun p q => leComponents p.components q.components

end Path

end Scaffold
