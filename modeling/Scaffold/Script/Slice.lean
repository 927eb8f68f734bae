import Scaffold.Script.Scan

/-!
# Slices of script text

Cutting script text along its structure: at a separator outside all brackets, between a key and
its value, around the code without the comments beside it, and from a bracket to the one that
closes it.  Each cut is a cut of the list of visits, so the pieces are slices of the text
(`length_le_of_mem_splitTopLevel`, `length_trimCode_le`) and comments and strings never take part.
-/

namespace Scaffold.Script

/-- The text that a run of visits was made for. -/
def textOf (vs : List Visit) : Text := vs.map Visit.char

@[simp] theorem length_textOf (vs : List Visit) : (textOf vs).length = vs.length := by
  simp [textOf]

/-- Code outside all brackets. -/
def Visit.isTopLevel (v : Visit) : Bool := v.lexeme == .code && v.depth == 0

/-! ## Separators -/

/-- The pieces between the separators that are code outside all brackets. -/
def splitTopLevel (separator : Char) (t : Text) : List Text :=
  ((scan t).splitOnP fun v => v.char == separator && v.isTopLevel).map textOf

/-- The text before and after the first colon that is code outside all brackets. -/
def splitKeyValue? (t : Text) : Option (Text × Text) :=
  (breakAt? (fun v => v.char == ':' && v.isTopLevel) (scan t)).map fun (before, _, after) =>
    (textOf before, textOf after)

/-! ## Blanks and comments -/

/-- Blanks and comments, which may stand around code without meaning anything. -/
def Visit.isSkipped (v : Visit) : Bool := v.lexeme == .comment || isBlank v.char

/-- The text without the blanks and comments around its code. -/
def trimCode (t : Text) : Text := textOf (trimEdges Visit.isSkipped (scan t))

/-- Where the code of a text starts and ends, in bytes; `none` when there is no code. -/
def codeBounds? (t : Text) : Option (Nat × Nat) :=
  let start := Text.byteLength (textOf ((scan t).takeWhile Visit.isSkipped))
  let code := trimCode t
  if code.isEmpty then none else some (start, start + code.byteLength)

/-! ## Brackets -/

/-- A closing bracket of code that leaves all brackets. -/
def Visit.closesAll (v : Visit) : Bool := v.isTopLevel && isClosing v.char

/-- Divides a text that starts with an opening bracket behind the bracket that closes it. -/
def bracketed? (t : Text) : Option (Text × Text) :=
  match scan t with
  | [] => none
  | v :: vs =>
    if isOpening v.char then
      (breakAt? Visit.closesAll vs).map fun (body, w, rest) =>
        (v.char :: textOf body ++ [w.char], textOf rest)
    else none

/-- The byte position of the bracket that closes the one at byte position `start`. -/
def matchingClose? (t : Text) (start : Nat) : Option Nat := do
  let (_, tail) ← t.cutAt? start
  let (literal, _) ← bracketed? tail
  return start + literal.byteLength - 1

/-- The text before and from the first bracket or brace that opens in code. -/
def breakAtOpening? (t : Text) : Option (Text × Text) :=
  let opens (v : Visit) : Bool := v.lexeme == .code && (v.char == '[' || v.char == '\x7b')
  (breakAt? opens (scan t)).map fun (before, v, after) => (textOf before, textOf (v :: after))

/-- The byte position of the first bracket or brace that opens in code. -/
def firstOpening? (t : Text) : Option Nat :=
  (breakAtOpening? t).map fun (before, _) => before.byteLength

/-! ## Slices of the text -/

/-- A bracketed literal and the rest are the text. -/
theorem append_eq_of_bracketed? {t literal rest : Text} (h : bracketed? t = some (literal, rest)) :
    literal ++ rest = t := by
  have hscan : textOf (scan t) = t := map_char_scanFrom _ _
  unfold bracketed? at h
  split at h
  · simp at h
  · next v vs hs =>
    split at h
    · obtain ⟨⟨body, w, rest⟩, hb, he⟩ := Option.map_eq_some_iff.1 h
      cases he
      obtain ⟨rfl, -, -⟩ := eq_append_of_breakAt? hb
      rw [hs] at hscan
      simp [← hscan, textOf]
    · simp at h

/-- A key, its colon and its value are the text. -/
theorem append_eq_of_splitKeyValue? {t key value : Text}
    (h : splitKeyValue? t = some (key, value)) : key ++ ':' :: value = t := by
  have hscan : textOf (scan t) = t := map_char_scanFrom _ _
  obtain ⟨⟨before, v, after⟩, hb, he⟩ := Option.map_eq_some_iff.1 h
  cases he
  obtain ⟨hs, hv, -⟩ := eq_append_of_breakAt? hb
  obtain ⟨hc, -⟩ : v.char = ':' ∧ _ := by simpa using hv
  rw [hs] at hscan
  simp [← hscan, textOf, hc]

theorem length_trimCode_le (t : Text) : (trimCode t).length ≤ t.length := by
  simpa [trimCode, scan] using length_trimEdges_le Visit.isSkipped (scan t)

/-- A piece between separators is no longer than the whole list. -/
theorem length_le_of_mem_splitOnP {α : Type} {p : α → Bool} {l a : List α}
    (h : a ∈ l.splitOnP p) : a.length ≤ l.length := by
  induction l generalizing a with
  | nil => simp_all
  | cons x l ih =>
    rw [List.splitOnP_cons_eq_if_modifyHead] at h
    split at h
    · rcases List.mem_cons.1 h with rfl | h
      · simp
      · have := ih h
        simp
        omega
    · cases hs : l.splitOnP p with
      | nil => simp [hs] at h
      | cons b bs =>
        rw [hs, List.modifyHead_cons] at h
        rcases List.mem_cons.1 h with rfl | h
        · have := ih (a := b) (by simp [hs])
          simp
          omega
        · have := ih (a := a) (by simp [hs, h])
          simp
          omega

theorem length_le_of_mem_splitTopLevel {c : Char} {t piece : Text}
    (h : piece ∈ splitTopLevel c t) : piece.length ≤ t.length := by
  obtain ⟨vs, hvs, rfl⟩ := List.mem_map.1 h
  simpa [scan] using length_le_of_mem_splitOnP hvs

end Scaffold.Script
