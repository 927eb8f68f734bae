import Scaffold.Proofs.Env.DotEnv

/-!
# Looking up what was added

Adding the line of a variable to an environment file puts an entry of its key behind all others,
unless the file ends in that very line already (`DotEnv.ofDocument_appendLines`).  The last entry of
a key counts, so in both cases the value is found, and what is found for other keys does not change
(`DotEnv.lookup_appendLines`).  Nothing is assumed about the lines of the file.
-/

namespace Scaffold.Env.DotEnv

/-! ## The last entry -/

section

variable (env : DotEnv) (key value : Text)

/-- The entry of the last line of a file. -/
theorem get?_concat :
    DotEnv.get? (env ++ [(key, value)]) key = if value.isEmpty then none else some value := by
  rw [get?, List.reverse_concat, List.lookup_cons, beq_self_eq_true]
  cases value <;> rfl

variable {key} {other : Text} (h : other ≠ key)
include h

theorem get?_concat_of_ne : DotEnv.get? (env ++ [(key, value)]) other = env.get? other := by
  have hbeq : (other == key) = false := beq_false_of_ne h
  rw [get?, List.reverse_concat, List.lookup_cons, hbeq]
  rfl

theorem contains_concat_of_ne :
    DotEnv.contains (env ++ [(key, value)]) other = env.contains other := by
  rw [Bool.eq_iff_iff, contains, contains, List.contains_iff_mem, List.contains_iff_mem]
  simp [keys, h]

end

/-! ## Adding a line -/

/-- The entries of a document are those of its lines. -/
theorem ofDocument_eq {d : Document} (h : ∀ line ∈ d.lines, '\n' ∉ line) :
    ofDocument d = d.lines.filterMap entryOfLine? := by
  obtain ⟨path, ls, endsLine⟩ := d
  rw [ofDocument, Document.content]
  by_cases hnil : ls = []
  · subst hnil
    cases endsLine <;> rfl
  · have hjoin : ofText (Text.joinLines ls) = ls.filterMap entryOfLine? := by
      rw [ofText, Text.lines_joinLines h hnil]
    split
    · rw [ofText_append, hjoin, ofText_nil, List.append_nil]
    · exact hjoin

section

variable {key value : Text} (hkey : isValidKey key = true) (hvalue : '\n' ∉ value)
include hkey hvalue

/-- The line adds its entry at the end, or the entry stands there already and nothing changes. -/
theorem ofDocument_appendLines {d : Document} (hd : ∀ line ∈ d.lines, '\n' ∉ line) :
    ((∃ before, ofDocument d = before ++ [(key, Text.trimEnd value)]) ∧
        d.appendLines [entryLine key (some value)] = (false, d)) ∨
      ((d.appendLines [entryLine key (some value)]).1 = true ∧
        ofDocument (d.appendLines [entryLine key (some value)]).2 =
          ofDocument d ++ [(key, Text.trimEnd value)]) := by
  have hline : '\n' ∉ entryLine key (some value) := newline_notMem_entryLine hkey hvalue
  have hentry : entryOfLine? (entryLine key (some value)) = some (key, Text.trimEnd value) :=
    entryOfLine?_entryLine hkey (some value)
  by_cases hsuffix : [entryLine key (some value)] <:+ d.lines
  · obtain ⟨front, hfront⟩ := hsuffix
    refine .inl ⟨⟨front.filterMap entryOfLine?, ?_⟩, Document.appendLines_of_isSuffix ⟨front, hfront⟩⟩
    rw [ofDocument_eq hd, ← hfront, List.filterMap_append]
    simp [hentry]
  · have hlines : ∀ l ∈ d.lines ++ [entryLine key (some value)], '\n' ∉ l :=
      List.forall_mem_append.2 ⟨hd, by simpa using hline⟩
    rw [Document.appendLines_of_not_isSuffix hsuffix]
    refine .inr ⟨rfl, ?_⟩
    rw [ofDocument_eq hlines, ofDocument_eq hd, List.filterMap_append]
    simp [hentry]

/-- Once the line of a key and a value without blanks at its end is added to a file with any text,
the value is found for the key, what is found for all other keys is as before, and the key stands
behind the keys of the file unless the file has not changed. -/
theorem lookup_appendLines (hne : value ≠ []) (htrim : Text.trimEnd value = value) (path : Path)
    (t : Text) :
    let added := (Document.ofContent path t).appendLines [entryLine key (some value)]
    (ofDocument added.2).get? key = some value ∧
      (∀ other, other ≠ key → (ofDocument added.2).get? other = (ofText t).get? other ∧
        (ofDocument added.2).contains other = (ofText t).contains other) ∧
      (added = (false, .ofContent path t) ∧ (ofDocument added.2).keys = (ofText t).keys ∨
        added.1 = true ∧ (ofDocument added.2).keys = (ofText t).keys ++ [key]) := by
  intro added
  have hold : ofDocument (.ofContent path t) = ofText t := by
    rw [ofDocument, Document.content_ofContent]
  have hfound (env : DotEnv) : DotEnv.get? (env ++ [(key, value)]) key = some value := by
    rw [get?_concat, if_neg (by simpa using hne)]
  have hadded := ofDocument_appendLines hkey hvalue (Document.newline_notMem_ofContent path t)
  rw [htrim, hold] at hadded
  obtain ⟨⟨before, hbefore⟩, hsame⟩ | ⟨hchanged, hentries⟩ := hadded
  · have henv : ofDocument added.2 = ofText t := by rw [show added = _ from hsame, hold]
    rw [henv]
    refine ⟨?_, fun other _ => ⟨rfl, rfl⟩, .inl ⟨hsame, rfl⟩⟩
    rw [hbefore, hfound]
  · rw [show ofDocument added.2 = _ from hentries]
    refine ⟨hfound _, fun other hother => ⟨get?_concat_of_ne _ _ hother,
      contains_concat_of_ne _ _ hother⟩, .inr ⟨hchanged, ?_⟩⟩
    simp [keys]

end

/-- A file with a repeated key behind `export`, a carriage return and no newline at its end. -/
def sampleEntries : Text := "export a=1\r\n# a=2\nb = x=y \na=3"

theorem lookup_appendLines_sample :
    let d := Document.ofContent ⟨".env"⟩ sampleEntries
    ((ofDocument (d.appendLines [entryLine "a" (some "#'4' =")]).2).get? "a" = some "#'4' =".toList ∧
      (ofDocument (d.appendLines [entryLine "a" (some "#'4' =")]).2).get? "b" =
        some " x=y".toList) ∧
      (ofDocument (d.appendLines [entryLine "a" (some "3")]).2).keys = ["a", "b", "a"] := by
  have hquoted := @lookup_appendLines "a" "#'4' =" (by decide) (by decide)
    (by decide) (by decide) ⟨".env"⟩ sampleEntries
  have hlast := @lookup_appendLines "a" "3" (by decide) (by decide)
    (by decide) (by decide) ⟨".env"⟩ sampleEntries
  refine ⟨⟨hquoted.1, (hquoted.2.1 "b" (by decide)).1.trans (by decide)⟩, ?_⟩
  obtain ⟨-, hkeys⟩ | ⟨hchanged, -⟩ := hlast.2.2
  · exact hkeys.trans (by decide)
  · exact absurd hchanged (by decide)

end Scaffold.Env.DotEnv
