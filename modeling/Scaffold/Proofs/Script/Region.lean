import Scaffold.Proofs.Document.Lines
import Scaffold.Proofs.Script.Pieces
import Scaffold.Script.Splice

/-!
# Blocks of a file

A block is a literal between braces behind a heading on a line of its own.  When a character of the
heading stands nowhere in front of it (`Heading`), the block is found there whatever it holds
(`locate_block`), and entries are added at its end and nowhere else (`appendToLiteral_block`).
-/

namespace Scaffold.Script

/-- A text with a block: lines, a line that starts with `margin` and goes on with the heading and
the opening brace, what the block holds, and the rest. -/
def blockText (before margin heading body rest : Text) : Text :=
  before ++ '\n' :: (margin ++ (heading ++ '\x7b' :: (body ++ '\x7d' :: rest)))

theorem notMem_blockText {before margin heading body rest : Text} {c : Char}
    (hc : c ≠ '\n' ∧ c ≠ '\x7b' ∧ c ≠ '\x7d') (hline : c ∉ before ∧ c ∉ margin ∧ c ∉ heading)
    (hbody : c ∉ body) (hrest : c ∉ rest) : c ∉ blockText before margin heading body rest := by
  simp [blockText, hc, hline, hbody, hrest]

/-- The heading stands on one line that is not indented, and not in front of it. -/
structure Heading (before margin heading : Text) : Prop where
  first : ∃ c m n, heading = m ++ c :: n ∧ c ∉ m ∧ c ∉ before ∧ c ∉ margin
  oneLine : '\n' ∉ margin ∧ '\n' ∉ heading
  flush : ∃ c u, margin = c :: u ∧ isBlank c = false

namespace Heading

variable {before margin heading : Text} (h : Heading before margin heading)
include h

/-- The lines around a heading. -/
theorem lines_eq (u : Text) : ∃ l ls, Text.lines u = l :: ls ∧
    Text.lines (before ++ '\n' :: (margin ++ (heading ++ '\x7b' :: u))) =
      Text.lines before ++ (margin ++ (heading ++ ['\x7b'] ++ l)) :: ls := by
  obtain ⟨l, ls, hl⟩ := List.exists_cons_of_ne_nil (Text.lines_ne_nil u)
  have hnewline : '\n' ∉ margin ++ (heading ++ ['\x7b']) := by
    simp [h.oneLine]
  refine ⟨l, ls, hl, ?_⟩
  have := Text.lines_append_line hnewline hl
  rw [Text.lines_append]
  simpa using this

theorem breakOn?_eq (l : Text) :
    Text.breakOn? (heading ++ ['\x7b']) (margin ++ (heading ++ ['\x7b'] ++ l)) =
      some (margin, l) := by
  obtain ⟨c, m, n, rfl, hm, -, hmargin⟩ := h.first
  have := Text.breakOn?_of_notMem (n := n ++ ['\x7b']) hmargin hm l
  rwa [← List.cons_append, ← List.append_assoc] at this

/-- The marker that ends in the brace is first found on the line of the heading. -/
theorem findIdx?_eq (u : Text) :
    (Text.lines (before ++ '\n' :: (margin ++ (heading ++ '\x7b' :: u)))).findIdx?
      (Text.contains (heading ++ ['\x7b'])) = some (Text.lines before).length := by
  obtain ⟨l, ls, -, hlines⟩ := h.lines_eq u
  have hnone : (Text.lines before).findIdx? (Text.contains (heading ++ ['\x7b'])) = none := by
    obtain ⟨c, m, n, rfl, -, hbefore, -⟩ := h.first
    rw [List.findIdx?_eq_none_iff]
    intro line hline
    exact Text.contains_eq_false (c := c) (by simp) (Text.notMem_of_mem_lines hbefore hline)
  have hfound : Text.contains (heading ++ ['\x7b']) (margin ++ (heading ++ ['\x7b'] ++ l)) = true := by
    rw [Text.contains, h.breakOn?_eq]
    rfl
  rw [hlines, List.findIdx?_append, hnone, List.findIdx?_cons, hfound]
  simp

/-- The first line with the marker is the one of the heading. -/
theorem find?_eq (u : Text) : ∃ l,
    (Text.lines (before ++ '\n' :: (margin ++ (heading ++ '\x7b' :: u)))).find?
      (Text.contains (heading ++ ['\x7b'])) = some (margin ++ (heading ++ ['\x7b'] ++ l)) := by
  obtain ⟨l, ls, -, hlines⟩ := h.lines_eq u
  refine ⟨l, ?_⟩
  rw [List.find?_eq_bind_findIdx?_getElem?, h.findIdx?_eq, hlines]
  simp

/-- The line of the heading is not indented. -/
theorem indentOf_eq (u : Text) : indentOf (margin ++ u) = 0 := by
  obtain ⟨c, v, rfl, hc⟩ := h.flush
  rw [indentOf, List.cons_append, List.takeWhile_cons_of_neg (by simp [hc])]
  rfl

end Heading

/-! ## Finding a block -/

/-- The region of a block. -/
def blockRegion (before margin heading body : Text) : Region where
  content := '\x7b' :: body ++ ['\x7d']
  startLine := before.count '\n' + 1
  endLine := before.count '\n' + 1 + ('\x7b' :: body).count '\n'
  startOffset := Text.byteLength (before ++ '\n' :: (margin ++ heading))

/-- A marker that ends in a bracket stands for it. -/
theorem openAt?_own {lead marker tail kept blanks : Text} {o : Char}
    (hkept : Text.trimEnd marker = kept ++ [o]) (ho : o = '[' ∨ o = '\x7b')
    (hmarker : marker = kept ++ o :: blanks) :
    Region.openAt? lead marker tail = some (lead ++ kept, o :: blanks ++ tail) := by
  have hlast : ((kept ++ [o]).getLast? == some '[' || (kept ++ [o]).getLast? == some '\x7b') =
      true := by
    simpa using ho
  have hdrop : (kept ++ o :: blanks).drop ((kept ++ [o]).length - 1) = o :: blanks := by simp
  rw [Region.openAt?, hkept, hmarker]
  simp only [if_pos hlast, List.dropLast_concat, hdrop]

/-- A marker that ends in a brace opens its region itself. -/
theorem openAt?_brace (before heading after : Text) :
    Region.openAt? before (heading ++ ['\x7b']) after = some (before ++ heading, '\x7b' :: after) := by
  have htrim : Text.trimEnd (heading ++ ['\x7b']) = heading ++ ['\x7b'] := by
    rw [Text.trimEnd, List.reverse_append, List.reverse_singleton, List.singleton_append,
      List.dropWhile_cons_of_neg (by decide)]
    simp
  exact openAt?_own htrim (.inr rfl) rfl

/-- A block behind some text is its region. -/
theorem atStart?_block {body : Text} (hbody : Balanced body) (before rest : Text) :
    Region.atStart? before ('\x7b' :: body ++ '\x7d' :: rest) =
      some { content := '\x7b' :: body ++ ['\x7d']
             startLine := before.count '\n'
             endLine := before.count '\n' + ('\x7b' :: body).count '\n'
             startOffset := before.byteLength } := by
  have hlast : ('\x7b' :: body ++ ['\x7d']).dropLast = '\x7b' :: body := List.dropLast_concat
  rw [Region.atStart?, bracketed?_of_balanced rfl rfl hbody rest, Option.map_some]
  simp only [hlast]

section

variable {before margin heading body : Text} (h : Heading before margin heading)
  (hbody : Balanced body) (rest : Text)
include h hbody

/-- A block is found by its heading. -/
theorem locate_block :
    Region.locate (Text.lines (blockText before margin heading body rest)) (heading ++ ['\x7b']) =
      .ok (blockRegion before margin heading body) := by
  obtain ⟨l, ls, hu, hlines⟩ := h.lines_eq (body ++ '\x7d' :: rest)
  have hfind : findLine? (Text.lines (blockText before margin heading body rest))
      (heading ++ ['\x7b']) 0 = some (Text.lines before).length := by
    rw [findLine?, List.drop_zero, blockText, h.findIdx?_eq]
    simp
  have hline : (Text.lines (blockText before margin heading body rest))[(Text.lines before).length]? =
      some (margin ++ (heading ++ ['\x7b'] ++ l)) := by
    rw [blockText, hlines]
    simp
  have hbefore : ((Text.lines (blockText before margin heading body rest)).take
      (Text.lines before).length).flatMap (· ++ ['\n']) = before ++ ['\n'] := by
    rw [blockText, hlines, List.take_left, Text.flatMap_lines]
  have hafter : l ++ ((Text.lines (blockText before margin heading body rest)).drop
      ((Text.lines before).length + 1)).flatMap ('\n' :: ·) = body ++ '\x7d' :: rest := by
    have hdrop (xs : List Text) (x : Text) : (xs ++ x :: ls).drop (xs.length + 1) = ls := by
      simp
    rw [blockText, hlines, hdrop, Text.append_flatMap_tail hu]
  have hcount : (before ++ ['\n'] ++ margin ++ heading).count '\n' = before.count '\n' + 1 := by
    obtain ⟨hm, hh⟩ := h.oneLine
    simp [List.count_eq_zero_of_not_mem hm, List.count_eq_zero_of_not_mem hh]
  rw [Region.locate, Region.locateFrom, hfind]
  simp only [hline, Option.bind_some, h.breakOn?_eq, Option.getD_some, hbefore, hafter,
    openAt?_brace]
  rw [← List.cons_append, atStart?_block hbody, hcount]
  simp [blockRegion]

end

/-! ## Adding entries -/

/-- A text whose last character is code is broken behind it. -/
theorem breakAfterCode_eq {t : Text} (h : SolidEnd t) : breakAfterCode t = (t, []) := by
  obtain ⟨v, hv, hsolid⟩ := h
  obtain ⟨init, hinit⟩ := List.getLast?_eq_some_iff.1 hv
  have hreverse : (scan t).reverse = v :: init.reverse := by simp [hinit]
  have hneg : ¬ v.isSkipped = true := by simp [hsolid]
  rw [breakAfterCode]
  simp only [hreverse, List.dropWhile_cons_of_neg hneg, List.takeWhile_cons_of_neg hneg]
  have htext : (v :: init.reverse).reverse = scan t := by simp [hinit]
  rw [htext, textOf_scan]
  rfl

/-- Blanks behind a text whose last character is code are trimmed away. -/
theorem trimEnd_append {t b : Text} (h : SolidEnd t) (hb : IsBlank b) :
    Text.trimEnd (t ++ b) = t := by
  obtain ⟨init, c, rfl, hc⟩ := h.exists_concat
  rw [List.append_assoc, List.singleton_append, Text.trimEnd_append_cons hc, Text.trimEnd_blank hb]

/-- Entries that end in a semicolon need no further one. -/
theorem closeEntries_of_semicolon {t : Text} (h : SolidEnd t) (hlast : t.getLast? = some ';') :
    closeEntries .semicolon t = t := by
  rw [closeEntries, breakAfterCode_eq h]
  simp [hlast, Delimiter.char]

/-- Entries that do not end in a comma get one. -/
theorem closeEntries_of_comma {t : Text} (h : SolidEnd t) (hlast : t.getLast? ≠ some ',')
    (hne : t ≠ []) : closeEntries .comma t = t ++ [','] := by
  rw [closeEntries, breakAfterCode_eq h]
  simp [hlast, hne, Delimiter.char]

end Scaffold.Script

namespace Scaffold.Document

open Script

/-- Adding to a literal does not move the document. -/
theorem path_of_appendToLiteral {d e : Document} {marker : Text} {delimiter : Delimiter}
    {entries : List Text} (h : d.appendToLiteral marker delimiter entries = .ok e) :
    e.path = d.path := by
  have hsplice {offset length : Nat} {t : Text} {f : Document}
      (hf : d.spliceText offset length t = .ok f) : f.path = d.path := by
    rw [spliceText] at hf
    split at hf
    · cases hf
    · split at hf
      · cases hf
      · rw [← Except.ok.inj hf, setContent, path_ofContent]
  rw [appendToLiteral] at h
  split at h
  · rw [← Except.ok.inj h]
  · cases hregion : Region.ofDocument d marker with
    | error x =>
      rw [hregion] at h
      cases h
    | ok region =>
      rw [hregion] at h
      exact hsplice h

/-- Replacing what stands between two texts. -/
theorem spliceText_of_content {d : Document} {t u v : Text} (h : d.content = t ++ u ++ v)
    (replacement : Text) :
    d.spliceText t.byteLength u.byteLength replacement =
      .ok (ofContent d.path (t ++ replacement ++ v)) := by
  rw [spliceText, h, List.append_assoc, Text.cutAt?_append]
  simp only [Text.cutAt?_append, setContent]

theorem spliceText_append (path : Path) (t u v replacement : Text) :
    (ofContent path (t ++ u ++ v)).spliceText t.byteLength u.byteLength replacement =
      .ok (ofContent path (t ++ replacement ++ v)) := by
  rw [spliceText_of_content (content_ofContent ..), path_ofContent]

variable {before margin heading body : Text} (h : Heading before margin heading)
  (hbody : Balanced body) (path : Path) (rest : Text)
include h

/-- The line that opens a block is not indented. -/
theorem indent_block :
    (blockRegion before margin heading body).indent
      (ofContent path (blockText before margin heading body rest ++ ['\n'])) = 0 := by
  obtain ⟨l, ls, -, hlines⟩ := h.lines_eq (body ++ '\x7d' :: rest)
  have hline : (Text.lines (blockText before margin heading body rest))[before.count '\n' + 1]? =
      some (margin ++ (heading ++ ['\x7b'] ++ l)) := by
    rw [blockText, hlines, ← Text.length_lines]
    simp
  have hstart : (blockRegion before margin heading body).startLine = before.count '\n' + 1 := rfl
  rw [Region.indent, lines_ofContent, hstart, hline]
  exact h.indentOf_eq _

include hbody

/-- Entries are added at the end of a block. -/
theorem appendToLiteral_block (delimiter : Delimiter) {entries : List Text} (hne : entries ≠ []) :
    (ofContent path (blockText before margin heading body rest ++ ['\n'])).appendToLiteral
        (heading ++ ['\x7b']) delimiter entries =
      .ok (ofContent path (blockText before margin heading
        (closeEntries delimiter (Text.trimEnd body) ++ newEntries delimiter indentStep entries ++
          ['\n'])
        rest ++ ['\n'])) := by
  have hempty : entries.isEmpty = false := by simpa using hne
  have hregion : Region.ofDocument
      (ofContent path (blockText before margin heading body rest ++ ['\n'])) (heading ++ ['\x7b']) =
      .ok (blockRegion before margin heading body) := by
    rw [Region.ofDocument, lines_ofContent, locate_block h hbody]
    rfl
  have hextended : (blockRegion before margin heading body).extended 0 delimiter entries =
      '\x7b' :: (closeEntries delimiter (Text.trimEnd body) ++
        newEntries delimiter indentStep entries ++ ['\n']) ++ ['\x7d'] := by
    have hinner : (blockRegion before margin heading body).inner = body := by
      simp [Region.inner, blockRegion]
    have hclose : (blockRegion before margin heading body).content.drop
        ((blockRegion before margin heading body).content.length - 1) = ['\x7d'] := by
      simp [blockRegion]
    rw [Region.extended, hinner, hclose]
    simp [blockRegion, Text.spaces]
  have hsplit (body : Text) : blockText before margin heading body rest ++ ['\n'] =
      (before ++ '\n' :: (margin ++ heading)) ++ ('\x7b' :: body ++ ['\x7d']) ++ (rest ++ ['\n']) := by
    simp [blockText]
  rw [appendToLiteral, hempty, hregion]
  show extend _ _ _ _ = _
  rw [extend, indent_block h, hextended, hsplit, hsplit]
  exact spliceText_append path _ _ _ _

end Scaffold.Document
