import Scaffold.Document
import Scaffold.Proofs.Text.Search

/-!
# Lines of a document

A document keeps its lines and whether a newline ends the last one, and its text does not always
tell: an empty last line without a newline reads like a newline behind the line in front of it.
`isSettled_iff` says which documents are read back from their text as they are.  Lines that are
added at the start always lead to such a document, and lines that are added at the end do unless
they leave an empty last line without a newline (`isSettled_appendLines`).
-/

namespace Scaffold.Document

/-! ## The document of a text -/

/-- The document of a text that a newline ends. -/
theorem ofContent_newline (path : Path) (t : Text) :
    ofContent path (t ++ ['\n']) = ⟨path, Text.lines t, true⟩ := by
  simp [ofContent]

/-- The document of a text that no newline ends. -/
theorem ofContent_of_ne {t : Text} (hne : t ≠ []) (hlast : t.getLast? ≠ some '\n') (path : Path) :
    ofContent path t = ⟨path, Text.lines t, false⟩ := by
  rw [ofContent, if_neg (by simpa using hne), if_neg (by simpa using hlast)]

/-- The documents of the texts that there are. -/
theorem ofContent_cases (path : Path) (t : Text) :
    (t = [] ∧ ofContent path t = ⟨path, [], true⟩) ∨
    (∃ u, t = u ++ ['\n'] ∧ ofContent path t = ⟨path, Text.lines u, true⟩) ∨
    (t ≠ [] ∧ t.getLast? ≠ some '\n' ∧ ofContent path t = ⟨path, Text.lines t, false⟩) := by
  rcases t.ending_cases with rfl | ⟨u, rfl⟩ | ⟨hnil, hlast⟩
  · exact .inl ⟨rfl, rfl⟩
  · exact .inr (.inl ⟨u, rfl, ofContent_newline path u⟩)
  · exact .inr (.inr ⟨hnil, hlast, ofContent_of_ne hnil hlast path⟩)

/-- The lines of a document that ends its last line. -/
theorem lines_ofContent (path : Path) (t : Text) :
    (ofContent path (t ++ ['\n'])).lines = Text.lines t := by
  rw [ofContent_newline]

/-- The text of the lines of a document, and other texts in its place: a newline at the end of the
file stands behind them. -/
theorem exists_lines_ofContent (path : Path) {t : Text} (ht : t ≠ []) :
    ∃ u e, t = u ++ e ∧ (ofContent path t).lines = Text.lines u ∧
      ∀ u', u' ≠ [] → (u'.getLast? = some '\n' → u.getLast? = some '\n') →
        (ofContent path (u' ++ e)).lines = Text.lines u' := by
  obtain ⟨rfl, -⟩ | ⟨u, rfl, h⟩ | ⟨-, hlast, h⟩ := ofContent_cases path t
  · exact absurd rfl ht
  · exact ⟨u, ['\n'], rfl, by rw [h], fun u' _ _ => lines_ofContent path u'⟩
  · refine ⟨t, [], (List.append_nil t).symm, by rw [h], fun u' hne hu' => ?_⟩
    rw [List.append_nil, ofContent_of_ne hne fun h' => hlast (hu' h')]

@[simp] theorem path_ofContent (path : Path) (t : Text) : (ofContent path t).path = path := by
  obtain ⟨-, h⟩ | ⟨u, -, h⟩ | ⟨-, -, h⟩ := ofContent_cases path t <;> rw [h]

theorem newline_notMem_ofContent (path : Path) (t : Text) :
    ∀ line ∈ (ofContent path t).lines, '\n' ∉ line := by
  obtain ⟨-, h⟩ | ⟨u, -, h⟩ | ⟨-, -, h⟩ := ofContent_cases path t <;> rw [h]
  · exact List.forall_mem_nil _
  · exact Text.newline_notMem_lines _
  · exact Text.newline_notMem_lines _

/-! ## Adding lines -/

section

variable {d : Document} {new : List Text}

theorem appendLines_of_isSuffix (h : new <:+ d.lines) : d.appendLines new = (false, d) := by
  rw [appendLines, List.isSuffixOf_iff_suffix.2 h, Bool.or_true, if_pos rfl]

theorem appendLines_of_not_isSuffix (h : ¬ new <:+ d.lines) :
    d.appendLines new = (true, { d with lines := d.lines ++ new }) := by
  have hne : new ≠ [] := by
    rintro rfl
    exact h List.nil_suffix
  have hsuffix : new.isSuffixOf d.lines = false :=
    Bool.eq_false_iff.2 fun hs => h (List.isSuffixOf_iff_suffix.1 hs)
  simp [appendLines, hne, hsuffix]

theorem prependLines_of_isPrefix (h : new <+: d.lines) : d.prependLines new = (false, d) := by
  rw [prependLines, List.isPrefixOf_iff_prefix.2 h, Bool.or_true, if_pos rfl]

theorem prependLines_of_not_isPrefix (h : ¬ new <+: d.lines) :
    d.prependLines new = (true, { d with lines := new ++ d.lines }) := by
  have hne : new ≠ [] := by
    rintro rfl
    exact h List.nil_prefix
  have hprefix : new.isPrefixOf d.lines = false :=
    Bool.eq_false_iff.2 fun hp => h (List.isPrefixOf_iff_prefix.1 hp)
  simp [prependLines, hne, hprefix]

variable (d new)

/-- The lines stand at the end once they are added. -/
theorem suffix_appendLines : new <:+ (d.appendLines new).2.lines := by
  by_cases h : new <:+ d.lines
  · rwa [appendLines_of_isSuffix h]
  · rw [appendLines_of_not_isSuffix h]
    exact List.suffix_append _ _

theorem prefix_prependLines : new <+: (d.prependLines new).2.lines := by
  by_cases h : new <+: d.lines
  · rwa [prependLines_of_isPrefix h]
  · rw [prependLines_of_not_isPrefix h]
    exact List.prefix_append _ _

@[simp] theorem path_appendLines : (d.appendLines new).2.path = d.path := by
  by_cases h : new <:+ d.lines
  · rw [appendLines_of_isSuffix h]
  · rw [appendLines_of_not_isSuffix h]

@[simp] theorem path_prependLines : (d.prependLines new).2.path = d.path := by
  by_cases h : new <+: d.lines
  · rw [prependLines_of_isPrefix h]
  · rw [prependLines_of_not_isPrefix h]

end

/-! ## Documents that are read back -/

/-- The document is the one that its text is read as. -/
def IsSettled (d : Document) : Prop := ofContent d.path d.content = d

theorem isSettled_ofContent (path : Path) (t : Text) : (ofContent path t).IsSettled := by
  rw [IsSettled, content_ofContent, path_ofContent]

/-- An empty last line without a newline is not read back: the newline in front of it is taken for
the one that ends the line before. -/
theorem isSettled_iff {d : Document} (h : ∀ line ∈ d.lines, '\n' ∉ line) :
    d.IsSettled ↔ d.endsLine = true ∨ ∃ line ∈ d.lines.getLast?, line ≠ [] := by
  obtain ⟨path, ls, endsLine⟩ := d
  by_cases hnil : ls = []
  · subst hnil
    cases endsLine
    · simp [IsSettled, content, Text.joinLines, ofContent]
    · simp [IsSettled, content, Text.joinLines, ofContent]
  have hlines : Text.lines (Text.joinLines ls) = ls := Text.lines_joinLines h hnil
  cases endsLine with
  | true =>
    have hcontent : content ⟨path, ls, true⟩ = Text.joinLines ls ++ ['\n'] := by
      simp [content, hnil]
    rw [IsSettled, hcontent, ofContent_newline, hlines]
    exact iff_of_true rfl (.inl rfl)
  | false =>
    have hcontent : content ⟨path, ls, false⟩ = Text.joinLines ls := rfl
    obtain ⟨init, last, rfl⟩ := (List.eq_nil_or_concat ls).resolve_left hnil
    rw [List.concat_eq_append] at *
    have hempty := Text.getLast?_lines_eq_nil_iff (t := Text.joinLines (init ++ [last]))
    rw [hlines, List.getLast?_concat, Option.some_inj] at hempty
    rw [IsSettled, hcontent]
    simp only [Bool.false_eq_true, false_or, List.getLast?_concat, Option.mem_some_iff,
      exists_eq_left']
    obtain ⟨hjoin, hof⟩ | ⟨u, hjoin, hof⟩ | ⟨hne, hlast, hof⟩ :=
      ofContent_cases path (Text.joinLines (init ++ [last]))
    · rw [hof]
      exact iff_of_false (by simp) (not_not_intro (hempty.2 (.inl hjoin)))
    · rw [hof]
      exact iff_of_false (by simp) (not_not_intro (hempty.2 (.inr (by simp [hjoin]))))
    · rw [hof, hlines]
      exact iff_of_true rfl fun hblank => (hempty.1 hblank).elim hne hlast

/-- A document whose last line a newline ends is read back. -/
theorem isSettled_of_endsLine (path : Path) {ls : List Text} (h : ∀ line ∈ ls, '\n' ∉ line) :
    IsSettled ⟨path, ls, true⟩ :=
  (isSettled_iff (d := ⟨path, ls, true⟩) h).2 (.inl rfl)

/-- More lines that a newline ends are another text. -/
theorem content_append_ne {ls new : List Text} (h : ∀ line ∈ ls, '\n' ∉ line)
    (hnew : ∀ line ∈ new, '\n' ∉ line) (path : Path) (hne : new ≠ []) :
    content ⟨path, ls ++ new, true⟩ ≠ content ⟨path, ls, true⟩ := by
  intro hcontent
  have hboth : (⟨path, ls ++ new, true⟩ : Document) = ⟨path, ls, true⟩ := by
    rw [← isSettled_of_endsLine path (List.forall_mem_append.2 ⟨h, hnew⟩), hcontent]
    exact isSettled_of_endsLine path h
  simp [hne] at hboth

/-- Lines whose last one is empty, to be added behind a last line that no newline ends. -/
def LeavesBlank (t : Text) (new : List Text) : Prop :=
  t ≠ [] ∧ t.getLast? ≠ some '\n' ∧ new.getLast? = some []

instance (t : Text) (new : List Text) : Decidable (LeavesBlank t new) :=
  inferInstanceAs (Decidable (_ ∧ _ ∧ _))

section

variable {t : Text} {new : List Text} (hnew : ∀ line ∈ new, '\n' ∉ line) (path : Path)
include hnew

/-- Adding lines at the start keeps the end of the document. -/
theorem isSettled_prependLines : ((ofContent path t).prependLines new).2.IsSettled := by
  by_cases h : new <+: (ofContent path t).lines
  · rw [prependLines_of_isPrefix h]
    exact isSettled_ofContent path t
  · rw [prependLines_of_not_isPrefix h]
    have hold := newline_notMem_ofContent path t
    refine (isSettled_iff (List.forall_mem_append.2 ⟨hnew, hold⟩)).2 ?_
    refine ((isSettled_iff hold).1 (isSettled_ofContent path t)).imp_right ?_
    rintro ⟨line, hline, hne⟩
    obtain ⟨init, hlines⟩ := List.getLast?_eq_some_iff.1 hline
    exact ⟨line, by rw [hlines, ← List.append_assoc, List.getLast?_concat]; rfl, hne⟩

theorem isSettled_appendLines (h : ¬ LeavesBlank t new) :
    ((ofContent path t).appendLines new).2.IsSettled := by
  by_cases hsuffix : new <:+ (ofContent path t).lines
  · rw [appendLines_of_isSuffix hsuffix]
    exact isSettled_ofContent path t
  · rw [appendLines_of_not_isSuffix hsuffix]
    have hold := newline_notMem_ofContent path t
    refine (isSettled_iff (List.forall_mem_append.2 ⟨hold, hnew⟩)).2 ?_
    obtain ⟨-, hof⟩ | ⟨u, -, hof⟩ | ⟨hne, hlast, -⟩ := ofContent_cases path t
    · exact .inl (by rw [hof])
    · exact .inl (by rw [hof])
    · obtain rfl | ⟨init, line, rfl⟩ := List.eq_nil_or_concat new
      · exact absurd List.nil_suffix hsuffix
      · rw [List.concat_eq_append] at h ⊢
        refine .inr ⟨line, by rw [← List.append_assoc, List.getLast?_concat]; rfl, ?_⟩
        rintro rfl
        exact h ⟨hne, hlast, List.getLast?_concat⟩

/-- The empty line is lost: what is read back ends in the lines in front of it. -/
theorem ofContent_appendLines_of_leavesBlank (h : LeavesBlank t new) :
    ∃ ls, ofContent path ((ofContent path t).appendLines new).2.content = ⟨path, ls, true⟩ ∧
      (∀ line ∈ ls, '\n' ∉ line) ∧ ¬ new <:+ ls := by
  obtain ⟨hne, hlast, hblank⟩ := h
  obtain ⟨init, rfl⟩ := List.getLast?_eq_some_iff.1 hblank
  have hold := newline_notMem_ofContent path t
  rw [ofContent_of_ne hne hlast] at hold ⊢
  obtain ⟨front, last, hlines⟩ :=
    (List.eq_nil_or_concat (Text.lines t)).resolve_left (Text.lines_ne_nil t)
  rw [List.concat_eq_append] at hlines
  -- the last line of the text is not empty, because no newline ends it
  have hfull : last ≠ [] := by
    rintro rfl
    refine (Text.getLast?_lines_eq_nil_iff.1 ?_).elim hne hlast
    rw [hlines, List.getLast?_concat]
  have hfirst : ¬ init ++ [[]] <:+ Text.lines t := by
    rintro ⟨before, hbefore⟩
    have hend := congrArg List.getLast? hbefore
    rw [← List.append_assoc, List.getLast?_concat, hlines, List.getLast?_concat] at hend
    exact hfull (Option.some.inj hend).symm
  have hkept : ∀ line ∈ Text.lines t ++ init, '\n' ∉ line :=
    List.forall_mem_append.2 ⟨hold, (List.forall_mem_append.1 hnew).1⟩
  have hkeptne : Text.lines t ++ init ≠ [] := by simp [Text.lines_ne_nil]
  have hjoin : Text.joinLines (Text.lines t ++ (init ++ [[]])) =
      Text.joinLines (Text.lines t ++ init) ++ ['\n'] := by
    refine Text.lines_injective ?_
    rw [Text.lines_append, Text.lines_joinLines hkept hkeptne, Text.lines_joinLines]
    · exact (List.append_assoc ..).symm
    · exact List.forall_mem_append.2 ⟨hold, hnew⟩
    · simp
  refine ⟨Text.lines t ++ init, ?_, hkept, fun hsecond => ?_⟩
  · rw [appendLines_of_not_isSuffix hfirst]
    show ofContent path (Text.joinLines _) = _
    rw [hjoin, ofContent_newline, Text.lines_joinLines hkept hkeptne]
  · -- the new lines would be the last line of the text and those in front of the empty one
    have hback : last :: init <:+ Text.lines t ++ init := ⟨front, by rw [hlines]; simp⟩
    have hsame : last :: init = init ++ [[]] :=
      (List.suffix_of_suffix_length_le hback hsecond (by simp)).eq_of_length (by simp)
    have hcount := congrArg (List.count []) hsame
    rw [List.count_cons_of_ne hfull, List.count_append] at hcount
    simp at hcount

end

end Scaffold.Document
