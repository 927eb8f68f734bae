import Scaffold.Env.Store
import Scaffold.Proofs.Document.Lines
import Scaffold.Proofs.Env.Declaration

/-!
# Lines of environment files

A line that is added at the end of a file (`Text.withLine`) adds its entry to the entries of the
file and leaves all others alone (`DotEnv.ofText_withLine`).  The entry of a variable is written on
a line that is read as one entry of its key, whatever its value (`DotEnv.entryOfLine?_entryLine`),
so a key without an entry gets exactly one (`DotEnv.keys_withLine`).
-/

namespace Scaffold

/-! ## Adding a line -/

/-- A text with a further line at its end; the line ends in a newline unless the text does not. -/
def Text.withLine (t line : Text) : Text :=
  if t = [] then line ++ ['\n']
  else if t.getLast? = some '\n' then t ++ line ++ ['\n']
  else t ++ '\n' :: line

/-- What a line is added to, and what comes of it. -/
theorem Text.withLine_cases (t line : Text) :
    (t = [] ∧ t.withLine line = line ++ ['\n']) ∨
    (∃ u, t = u ++ ['\n'] ∧ t.withLine line = u ++ '\n' :: line ++ ['\n']) ∨
    (t ≠ [] ∧ t.getLast? ≠ some '\n' ∧ t.withLine line = t ++ '\n' :: line) := by
  rcases t.ending_cases with rfl | ⟨u, rfl⟩ | ⟨hnil, hlast⟩
  · exact .inl ⟨rfl, rfl⟩
  · refine .inr (.inl ⟨u, rfl, ?_⟩)
    rw [withLine, if_neg (by simp), if_pos (by simp)]
    simp
  · refine .inr (.inr ⟨hnil, hlast, ?_⟩)
    rw [withLine, if_neg hnil, if_neg hlast]

/-- A line that follows lines with their newlines gets its own. -/
theorem Text.withLine_flatMap {α : Type} (line : α → Text) (xs : List α) (x : α) :
    Text.withLine (xs.flatMap fun a => line a ++ ['\n']) (line x) =
      (xs ++ [x]).flatMap fun a => line a ++ ['\n'] := by
  obtain rfl | ⟨init, a, rfl⟩ := List.eq_nil_or_concat xs
  · simp [withLine]
  · have hlast : ((init.concat a).flatMap fun a => line a ++ ['\n']).getLast? = some '\n' := by
      simp
    rw [withLine, if_neg (fun hnil => by rw [hnil] at hlast; cases hlast), if_pos hlast]
    simp

namespace Document

/-- Adding a line to a document that does not have it. -/
theorem appendLines_eq (path : Path) (t : Text) {line : Text} (hne : line ≠ []) (hline : '\n' ∉ line)
    (hnew : line ∉ Text.lines t) :
    ((ofContent path t).appendLines [line]).2 = ofContent path (t.withLine line) := by
  have happend {e : Document} (he : line ∉ e.lines) :
      (e.appendLines [line]).2 = { e with lines := e.lines ++ [line] } := by
    rw [appendLines_of_not_isSuffix fun hsuffix => he (hsuffix.mem (List.mem_singleton_self line))]
  obtain ⟨rfl, heq⟩ | ⟨u, rfl, heq⟩ | ⟨hnil, hend, heq⟩ := t.withLine_cases line
  · rw [heq, ofContent_newline, Text.lines_of_notMem hline]
    exact happend List.not_mem_nil
  · have hlines : line ∉ Text.lines u := by
      rw [Text.lines_append] at hnew
      exact fun hmem => hnew (List.mem_append_left _ hmem)
    rw [heq, ofContent_newline, ofContent_newline, happend hlines, Text.lines_append, Text.lines_of_notMem hline]
  · have hlast : (t ++ '\n' :: line).getLast? ≠ some '\n' := by
      obtain ⟨init, c, rfl⟩ := (List.eq_nil_or_concat line).resolve_left hne
      have hc : c ≠ '\n' := by
        rintro rfl
        simp at hline
      rw [List.concat_eq_append, ← List.cons_append, ← List.append_assoc, List.getLast?_concat]
      simpa using hc
    rw [heq, ofContent_of_ne hnil hend, ofContent_of_ne (by simp) hlast, happend hnew,
      Text.lines_append, Text.lines_of_notMem hline]

end Document

/-! ## Entries -/

namespace Env.DotEnv

theorem ofText_append (t u : Text) : ofText (t ++ '\n' :: u) = ofText t ++ ofText u := by
  rw [ofText, Text.lines_append, List.filterMap_append]
  rfl

theorem ofText_nil : ofText [] = [] := rfl

theorem ofText_line {line : Text} (h : '\n' ∉ line) : ofText line = (entryOfLine? line).toList := by
  rw [ofText, Text.lines_of_notMem h, List.filterMap_cons]
  cases entryOfLine? line <;> rfl

/-- A further line adds its entry to the entries of a file. -/
theorem ofText_withLine (t : Text) {line : Text} (h : '\n' ∉ line) :
    ofText (t.withLine line) = ofText t ++ (entryOfLine? line).toList := by
  have hend (u : Text) : ofText (u ++ ['\n']) = ofText u := by
    rw [ofText_append, ofText_nil, List.append_nil]
  obtain ⟨rfl, heq⟩ | ⟨u, rfl, heq⟩ | ⟨-, -, heq⟩ := t.withLine_cases line
  · rw [heq, hend, ofText_line h, ofText_nil, List.nil_append]
  · rw [heq, hend, hend, ofText_append, ofText_line h]
  · rw [heq, ofText_append, ofText_line h]

section

variable {key : Text} (h : isValidKey key = true)
include h

theorem notMem_key {c : Char} (hc : isKeyChar c = false) : c ∉ key := by
  intro hmem
  rw [isKeyChar_of_mem h hmem] at hc
  cases hc

/-- The line of a variable is read as an entry of its key. -/
theorem entryOfLine?_entryLine (raw : Option Text) :
    entryOfLine? (entryLine key raw) = some (key, Text.trimEnd (raw.getD [])) := by
  obtain ⟨c, t, hkey, -, -⟩ := isValidKey_iff.1 h
  have hchar : isKeyChar c = true := isKeyChar_of_mem h (by simp [hkey])
  have hkeytrim : Text.trim key = key :=
    Text.trim_of_notBlank fun d hd => isBlank_of_isKeyChar (isKeyChar_of_mem h hd)
  have htrim : Text.trim (entryLine key raw) = key ++ '=' :: Text.trimEnd (raw.getD []) := by
    have hstart : (entryLine key raw).dropWhile isBlank = entryLine key raw := by
      rw [entryLine, hkey, List.cons_append,
        List.dropWhile_cons_of_neg (by simp [isBlank_of_isKeyChar hchar])]
    rw [Text.trim, trimEdges, hstart]
    exact Text.trimEnd_append_cons rfl _ _
  have hhead : (key ++ '=' :: Text.trimEnd (raw.getD [])).head? ≠ some '#' := by
    rw [hkey]
    intro hc
    rw [List.cons_append, List.head?_cons, Option.some.injEq] at hc
    rw [hc] at hchar
    cases hchar
  have hbreak (v : Text) : breakAt? (· == '=') (key ++ '=' :: v) = some (key, '=', v) :=
    breakAt?_append (fun d hd => by
      rw [beq_eq_false_iff_ne]
      rintro rfl
      exact notMem_key h (c := '=') rfl hd) rfl v
  have hexport : Text.dropLead "export " key = key := by
    have hnone : List.isPrefixOf? "export ".toList key = none := by
      cases hp : List.isPrefixOf? "export ".toList key with
      | none => rfl
      | some rest =>
        have hmem : ' ' ∈ key := by
          rw [← Text.append_of_isPrefixOf? hp]
          exact List.mem_append_left _ (by decide)
        exact absurd hmem (notMem_key h rfl)
    rw [Text.dropLead, hkey, List.length_cons, Text.dropLead.go, ← hkey, hnone]
  have hne : key.isEmpty = false := by
    rw [hkey]
    rfl
  rw [entryOfLine?, htrim]
  simp only [hbreak, Option.bind_some, hkeytrim, hexport, hne, Bool.false_eq_true, if_false]
  rw [if_neg]
  simpa using hhead

/-- A file without an entry of a key does not have its line. -/
theorem entryLine_notMem_lines {t : Text} (hnew : (ofText t).contains key = false)
    (raw : Option Text) : entryLine key raw ∉ Text.lines t := by
  intro hmem
  have hentry : (key, Text.trimEnd (raw.getD [])) ∈ ofText t :=
    List.mem_filterMap.2 ⟨_, hmem, entryOfLine?_entryLine h raw⟩
  have hcontains : (ofText t).contains key = true :=
    List.contains_iff_mem.2 (List.mem_map_of_mem (f := Prod.fst) hentry)
  rw [hnew] at hcontains
  cases hcontains

section

variable {raw : Option Text} (hraw : '\n' ∉ raw.getD [])
include hraw

theorem newline_notMem_entryLine : '\n' ∉ entryLine key raw := by
  have hkey : '\n' ∉ key := notMem_key h rfl
  simp [entryLine, hkey, hraw]

/-- The line of a variable adds its key to the keys of a file. -/
theorem keys_withLine (t : Text) :
    (ofText (t.withLine (entryLine key raw))).keys = (ofText t).keys ++ [key] := by
  rw [ofText_withLine t (newline_notMem_entryLine h hraw), entryOfLine?_entryLine h]
  simp [keys]

/-- A file without an entry of a key gets the line of its variable. -/
theorem appendLines_entryLine (path : Path) {t : Text} (hnew : (ofText t).contains key = false) :
    ((Document.ofContent path t).appendLines [entryLine key raw]).2 =
      .ofContent path (t.withLine (entryLine key raw)) :=
  Document.appendLines_eq path t (by simp [entryLine]) (newline_notMem_entryLine h hraw)
    (entryLine_notMem_lines h hnew raw)

end

end

end Env.DotEnv

end Scaffold
