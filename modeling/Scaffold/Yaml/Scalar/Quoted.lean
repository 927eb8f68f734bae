import Scaffold.Text.Hex
import Scaffold.Yaml.Cursor

/-!
# Quoted scalars

Between single quotes only the quote itself is special and stands for itself when it is written
twice.  Between double quotes a backslash starts an escape, also of a line break, which then writes
nothing.  Both forms may go on over several lines; no line may start with a document marker.
-/

namespace Scaffold.Yaml

/-- A text in front of what has been read. -/
def behind (t : Text) : Text × Cursor → Text × Cursor := fun (u, c) => (t ++ u, c)

/-! ## Single quotes -/

/-- The rest of a scalar between single quotes, from behind `gap` on. -/
def readSingle? (gap : Gap) (p : Position) : Text → Option (Text × Cursor)
  | [] => none
  | c :: t =>
    if isGap c || isBreak c then readSingle? (gap.push c) (p.after c) t
    else if isMarker p (c :: t) then none
    else if c == '\'' then
      match t with
      | '\'' :: t =>
        (readSingle? {} ((p.after c).after '\'') t).map (behind (gap.text ++ ['\'']))
      | t => some (gap.text, ⟨p.after c, t⟩)
    else (readSingle? {} (p.after c) t).map (behind (gap.text ++ [c]))

/-! ## Double quotes -/

/-- What an escape letter announces. -/
inductive Escape where
  | char (c : Char)
  /-- The number of a character in as many hexadecimal digits. -/
  | digits (count : Nat)
  deriving DecidableEq, Repr

/-- The escape of a letter. -/
def Escape.ofLetter? : Char → Option Escape
  | '0' => some (.char '\x00')
  | 'a' => some (.char '\x07')
  | 'b' => some (.char '\x08')
  | 't' | '\t' => some (.char '\t')
  | 'n' => some (.char '\n')
  | 'v' => some (.char '\x0b')
  | 'f' => some (.char '\x0c')
  | 'r' => some (.char '\r')
  | 'e' => some (.char '\x1b')
  | ' ' => some (.char ' ')
  | '"' => some (.char '"')
  | '/' => some (.char '/')
  | '\\' => some (.char '\\')
  | 'N' => some (.char '\x85')
  | '_' => some (.char '\xa0')
  | 'L' => some (.char '\u2028')
  | 'P' => some (.char '\u2029')
  | 'x' => some (.digits 2)
  | 'u' => some (.digits 4)
  | 'U' => some (.digits 8)
  | _ => none

/-- Where the reader of a double-quoted scalar stands. -/
inductive Within where
  /-- Between two characters, behind a gap. -/
  | words (gap : Gap)
  /-- Inside an escape, before as many hexadecimal digits. -/
  | number (left value : Nat)
  deriving DecidableEq, Repr

/-- The rest of a scalar between double quotes. -/
def readDouble? (w : Within) (p : Position) : Text → Option (Text × Cursor)
  | [] => none
  | c :: t =>
    match w with
    | .number left value => do
      let value := 16 * value + (← Text.hexValue? c)
      if left ≤ 1 then
        let x ← Text.charOf? value
        (readDouble? (.words {}) (p.after c) t).map (behind [x])
      else readDouble? (.number (left - 1) value) (p.after c) t
    | .words gap =>
      if isGap c || isBreak c then readDouble? (.words (gap.push c)) (p.after c) t
      else if isMarker p (c :: t) then none
      else if c == '"' then some (gap.text, ⟨p.after c, t⟩)
      else if c == '\\' then
        match t with
        | [] => none
        | e :: t =>
          let p := (p.after c).after e
          if isBreak e then (readDouble? (.words .escaped) p t).map (behind gap.text)
          else
            match Escape.ofLetter? e with
            | some (.char x) => (readDouble? (.words {}) p t).map (behind (gap.text ++ [x]))
            | some (.digits count) => (readDouble? (.number count 0) p t).map (behind gap.text)
            | none => none
      else (readDouble? (.words {}) (p.after c) t).map (behind (gap.text ++ [c]))

end Scaffold.Yaml
