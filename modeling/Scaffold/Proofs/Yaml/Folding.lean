import Mathlib.Data.List.Chain
import Scaffold.Yaml.Printer

/-!
# Double quotes

Between double quotes only five characters are escaped, and every other one stands as it is, also
those that the reader does not take as they are: it unifies and folds line breaks, and sees document
markers behind them.

* **What is read** (`readDouble?_quotedChar`): the `folded` string, in which the gaps stand as the
  reader writes them, unless the reader comes to a document marker.
* **What is kept** (`folded_eq_self_iff`): a string is its own folded form when it holds no next
  line, and no space next to a line break.
-/

namespace Scaffold.Yaml

/-! ## Characters -/

/-- The printable characters of ASCII. -/
def isPrintable (c : Char) : Bool := 0x20 ≤ c.toNat && c.toNat ≤ 0x7E

theorem isBreak_of_isPrintable {c : Char} (h : isPrintable c = true) : isBreak c = false := by
  have hne (d : Char) (hd : isPrintable d = false) : c ≠ d := by
    rintro rfl
    rw [h] at hd
    cases hd
  simp [isBreak, hne '\n' rfl, hne '\u2028' rfl, hne '\u2029' rfl]

/-- A character is escaped by a letter, or stands for itself. -/
theorem escapeChar_cases (c : Char) :
    (∃ e, escapeChar c = ['\\', e] ∧ Escape.ofLetter? e = some (.char c) ∧
      isPrintable e = true ∧ (c = '"' ∨ c = '\\' ∨ c = '\n' ∨ c = '\t' ∨ c = '\r')) ∨
    escapeChar c = [c] ∧ (c ≠ '"' ∧ c ≠ '\\') ∧ c ≠ '\n' ∧ c ≠ '\t' ∧ c ≠ '\r' := by
  unfold escapeChar
  split
  · exact .inl ⟨_, rfl, rfl, rfl, by decide⟩
  · exact .inl ⟨_, rfl, rfl, rfl, by decide⟩
  · exact .inl ⟨_, rfl, rfl, rfl, by decide⟩
  · exact .inl ⟨_, rfl, rfl, rfl, by decide⟩
  · exact .inl ⟨_, rfl, rfl, rfl, by decide⟩
  · next hquote hslash hline htab hreturn =>
    exact .inr ⟨rfl, ⟨hquote, hslash⟩, hline, htab, hreturn⟩

/-- A line break that is written between double quotes without an escape. -/
def isRawBreak (c : Char) : Bool := c == '\x85' || c == '\u2028' || c == '\u2029'

/-- A character that is part of a gap where it stands between double quotes. -/
def isFoldable (c : Char) : Bool := c == ' ' || isRawBreak c

/-- A next line is read as a newline, every other character as itself. -/
def unifyBreak (c : Char) : Char := if c == '\x85' then '\n' else c

/-- The character between double quotes, as the scanner sees it. -/
def quotedChar (c : Char) : Text := (escapeChar c).map unifyBreak

/-- The characters that a gap is made of are read as what they are, apart from the next line. -/
theorem unifyBreak_of_isFoldable {c : Char} (h : isFoldable c = true) :
    quotedChar c = [unifyBreak c] ∧ (isGap (unifyBreak c) || isBreak (unifyBreak c)) = true ∧
      isBreak (unifyBreak c) = isRawBreak c := by
  simp only [isFoldable, isRawBreak, Bool.or_eq_true, beq_iff_eq] at h
  rcases h with rfl | (rfl | rfl) | rfl <;> decide

/-- A character that no gap is made of is escaped by a letter, or stands for itself. -/
theorem quotedChar_cases {c : Char} (h : isFoldable c = false) :
    (∃ e, quotedChar c = ['\\', e] ∧ Escape.ofLetter? e = some (.char c) ∧ isBreak e = false) ∨
    quotedChar c = [c] ∧ (c ≠ '"' ∧ c ≠ '\\') ∧ (isGap c || isBreak c) = false := by
  simp only [isFoldable, isRawBreak, Bool.or_eq_false_iff, beq_eq_false_iff_ne] at h
  obtain ⟨hspace, ⟨hnext, hline⟩, hparagraph⟩ := h
  rcases escapeChar_cases c with ⟨e, he, hletter, hprint, -⟩ | ⟨he, hquote, hfeed, htab, -⟩
  · have hunify : unifyBreak e = e := if_neg fun heq => by
      rw [eq_of_beq heq] at hprint
      cases hprint
    refine .inl ⟨e, ?_, hletter, isBreak_of_isPrintable hprint⟩
    rw [quotedChar, he, List.map_cons, List.map_singleton, hunify]
    rfl
  · refine .inr ⟨?_, hquote, ?_⟩
    · rw [quotedChar, he, List.map_singleton, unifyBreak, if_neg (by simp [hnext])]
    · simp [isGap, isBreak, hspace, htab, hfeed, hline, hparagraph]

/-! ## Gaps -/

namespace Gap

/-- A gap that the reader can come to: further line breaks follow a first one. -/
inductive IsProper : Gap → Prop
  | within (blanks : Text) : IsProper { blanks }
  | across (blanks first more : Text) : IsProper ⟨blanks, some first, more⟩

/-- What a gap with a line break writes: of a newline that is alone only a space. -/
theorem text_across (blanks first more : Text) :
    text ⟨blanks, some first, more⟩ =
      if first = ['\n'] then if more = [] then [' '] else more else first ++ more := by
  by_cases hfirst : first = ['\n']
  · simp [text, hfirst]
  · simp [text, hfirst]

theorem text_across_of_ne (blanks : Text) {x : Char} (hx : x ≠ '\n') (more : Text) :
    text ⟨blanks, some [x], more⟩ = x :: more := by simp [text_across, hx]

namespace IsProper

variable {g : Gap} (h : IsProper g) (c : Char)
include h

theorem push : IsProper (g.push c) := by
  cases h with
  | within blanks =>
    simp only [Gap.push]
    split
    · exact .across _ _ _
    · exact .within _
  | across blanks first more =>
    simp only [Gap.push]
    split <;> exact .across _ _ _

/-- One character more makes what a gap writes at most one character longer. -/
theorem length_text_push_le : (g.push c).text.length ≤ g.text.length + 1 := by
  cases h with
  | within blanks =>
    by_cases hc : isBreak c = true
    · simp only [Gap.push, hc, if_true, text_across]
      split <;> simp
    · simp [Gap.push, text, hc]
  | across blanks first more =>
    by_cases hc : isBreak c = true
    · simp only [Gap.push, hc, if_true, text_across]
      grind
    · simp [Gap.push, hc]

/-- A gap writes what has been read, and spaces. -/
theorem mem_of_mem_text_push {d : Char} (hd : d ∈ (g.push c).text) :
    d ∈ g.text ∨ d = c ∨ d = ' ' := by
  cases h with
  | within blanks =>
    by_cases hc : isBreak c = true
    · simp only [Gap.push, hc, if_true, text_across] at hd
      grind
    · simpa [Gap.push, text, hc, or_assoc] using Or.inl hd
  | across blanks first more =>
    by_cases hc : isBreak c = true
    · simp only [Gap.push, hc, if_true, text_across] at hd ⊢
      grind
    · exact .inl (by simpa [Gap.push, hc] using hd)

end IsProper

end Gap

/-! ## Folding -/

/-- What is read of a string between double quotes, behind `gap`. -/
def folded (gap : Gap) : Text → Text
  | [] => gap.text
  | c :: t =>
    if isFoldable c then folded (gap.push (unifyBreak c)) t else gap.text ++ c :: folded {} t

theorem folded_of_isFoldable {c : Char} (h : isFoldable c = true) (gap : Gap) (t : Text) :
    folded gap (c :: t) = folded (gap.push (unifyBreak c)) t := if_pos h

theorem folded_of_not_isFoldable {c : Char} (h : isFoldable c = false) (gap : Gap) (t : Text) :
    folded gap (c :: t) = gap.text ++ c :: folded {} t := by
  rw [folded, if_neg (by simp [h])]

/-- Folding makes no string longer. -/
theorem length_folded_le {gap : Gap} (h : gap.IsProper) (t : Text) :
    (folded gap t).length ≤ gap.text.length + t.length := by
  induction t generalizing gap with
  | nil => exact Nat.le_refl _
  | cons c t ih =>
    cases hc : isFoldable c with
    | true =>
      have hpush := h.length_text_push_le (unifyBreak c)
      have hrest := ih (h.push (unifyBreak c))
      rw [folded_of_isFoldable hc, List.length_cons]
      omega
    | false =>
      have hrest : (folded {} t).length ≤ 0 + t.length := ih (.within [])
      rw [folded_of_not_isFoldable hc, List.length_append, List.length_cons, List.length_cons]
      omega

/-- What a gap has lost makes the text shorter for good. -/
theorem folded_ne_of_length_lt {gap : Gap} (h : gap.IsProper) {t u : Text}
    (hlt : gap.text.length + t.length < u.length) : folded gap t ≠ u := by
  rintro rfl
  exact Nat.not_lt.2 (length_folded_le h t) hlt

/-- A next line is always lost. -/
theorem next_line_not_mem_folded {gap : Gap} (h : gap.IsProper) (hgap : '\x85' ∉ gap.text)
    (t : Text) : '\x85' ∉ folded gap t := by
  induction t generalizing gap with
  | nil => exact hgap
  | cons c t ih =>
    cases hc : isFoldable c with
    | true =>
      rw [folded_of_isFoldable hc]
      refine ih (h.push _) fun hmem => ?_
      rcases h.mem_of_mem_text_push (unifyBreak c) hmem with hmem | heq | heq
      · exact hgap hmem
      · rw [unifyBreak] at heq
        split at heq
        · cases heq
        · next hne => exact hne (beq_iff_eq.2 heq.symm)
      · cases heq
    | false =>
      have hne : '\x85' ≠ c := by
        rintro rfl
        cases hc
      have hrest : '\x85' ∉ folded {} t := ih (.within []) List.not_mem_nil
      simp [folded_of_not_isFoldable hc, hgap, hne, hrest]

/-- Two neighbours that folding keeps: they are not a space and a line break. -/
def Apart (c d : Char) : Prop :=
  ¬(c = ' ' ∧ isRawBreak d = true) ∧ ¬(isRawBreak c = true ∧ d = ' ')

instance (c d : Char) : Decidable (Apart c d) :=
  inferInstanceAs (Decidable (¬(c = ' ' ∧ isRawBreak d = true) ∧ ¬(isRawBreak c = true ∧ d = ' ')))

theorem apart_space_iff (d : Char) : Apart ' ' d ↔ isRawBreak d = false := by
  simp [Apart, isRawBreak]

theorem apart_iff_of_isRawBreak {c : Char} (h : isRawBreak c = true) (d : Char) :
    Apart c d ↔ d ≠ ' ' := by
  have hc : c ≠ ' ' := by
    rintro rfl
    cases h
  simp [Apart, h, hc]

theorem apart_of_not_isFoldable {c : Char} (h : isFoldable c = false) (d : Char) : Apart c d := by
  simp only [isFoldable, Bool.or_eq_false_iff, beq_eq_false_iff_ne] at h
  simp [Apart, h]

/-- Folding keeps a text behind any gap if and only if it keeps the neighbours there, the last
character of the gap being one of them. -/
structure FoldsLocally (t : Text) : Prop where
  /-- Behind blanks. -/
  within (blanks : Text) : folded { blanks } t = blanks ++ t ↔
    (blanks ≠ [] → ∀ d ∈ t.head?, isRawBreak d = false) ∧ t.IsChain Apart
  /-- Behind a line break that stays. -/
  across (blanks : Text) {x : Char} (hx : x ≠ '\n') (more : Text) :
    folded ⟨blanks, some [x], more⟩ t = x :: more ++ t ↔
      (∀ d ∈ t.head?, d ≠ ' ') ∧ t.IsChain Apart

namespace FoldsLocally

theorem nil : FoldsLocally [] where
  within blanks := by simp [folded, Gap.text]
  across blanks x hx more := by simp [folded, Gap.text_across_of_ne blanks hx]

variable {c : Char} {t : Text} (h : FoldsLocally t)
include h

/-- A character of a word ends the gap, and no gap is open behind it. -/
theorem word (hc : isFoldable c = false) : FoldsLocally (c :: t) := by
  have hkeep : (c :: t).IsChain Apart ↔ folded {} t = t := by
    rw [List.isChain_cons, and_iff_right fun d _ => apart_of_not_isFoldable hc d]
    simpa using (h.within []).symm
  have hne : isRawBreak c = false ∧ c ≠ ' ' := by simpa [isFoldable, and_comm] using hc
  refine ⟨fun blanks => ?_, fun blanks x hx more => ?_⟩
  · rw [folded_of_not_isFoldable hc, hkeep]
    simp [Gap.text, hne]
  · rw [folded_of_not_isFoldable hc, Gap.text_across_of_ne blanks hx, hkeep]
    simp [hne]

/-- A space is kept among blanks and lost behind a line break. -/
theorem space : FoldsLocally (' ' :: t) := by
  refine ⟨fun blanks => ?_, fun blanks x hx more => ?_⟩
  · have hfold : folded { blanks } (' ' :: t) = folded { blanks := blanks ++ [' '] } t := rfl
    rw [hfold, List.append_cons blanks ' ' t, h.within, List.isChain_cons]
    simp [apart_space_iff, isRawBreak]
  · have hfold : folded ⟨blanks, some [x], more⟩ (' ' :: t) = folded ⟨blanks, some [x], more⟩ t :=
      rfl
    rw [hfold]
    refine iff_of_false (folded_ne_of_length_lt (.across _ _ _) ?_) (by simp)
    rw [Gap.text_across_of_ne blanks hx, List.length_append]
    simp

/-- A line break stays, and the blanks in front of it are lost. -/
theorem lineBreak (hc : isRawBreak c = true) (hnext : c ≠ '\x85') : FoldsLocally (c :: t) := by
  have hfoldable : isFoldable c = true := by simp [isFoldable, hc]
  have hunify : unifyBreak c = c := if_neg (by simpa using hnext)
  have hpush : isBreak c = true := by
    rw [← hunify, (unifyBreak_of_isFoldable hfoldable).2.2, hc]
  have hline : c ≠ '\n' := by
    rintro rfl
    cases hc
  have hspace : c ≠ ' ' := by
    rintro rfl
    cases hc
  refine ⟨fun blanks => ?_, fun blanks x hx more => ?_⟩
  · simp only [folded_of_isFoldable hfoldable, hunify, Gap.push, hpush, if_true]
    rcases eq_or_ne blanks [] with rfl | hblanks
    · rw [List.isChain_cons]
      simpa [apart_iff_of_isRawBreak hc] using h.across [] hline []
    · refine iff_of_false (folded_ne_of_length_lt (.across _ _ _) ?_) (by simp [hblanks, hc])
      have hpos := List.length_pos_iff.2 hblanks
      simp [Gap.text_across_of_ne blanks hline]
      omega
  · simp only [folded_of_isFoldable hfoldable, hunify, Gap.push, hpush, if_true]
    rw [List.isChain_cons]
    simpa [apart_iff_of_isRawBreak hc, hspace] using h.across blanks hx (more ++ [c])

end FoldsLocally

theorem foldsLocally {t : Text} (hnext : '\x85' ∉ t) : FoldsLocally t := by
  induction t with
  | nil => exact .nil
  | cons c t ih =>
    obtain ⟨hc, hrest⟩ := not_or.1 (mt List.mem_cons.2 hnext)
    cases hfold : isFoldable c with
    | false => exact (ih hrest).word hfold
    | true =>
      rw [isFoldable, Bool.or_eq_true, beq_iff_eq] at hfold
      rcases hfold with rfl | hbreak
      · exact (ih hrest).space
      · exact (ih hrest).lineBreak hbreak (Ne.symm hc)

/-- A string is its own folded form when it holds no next line, and no space next to a line
break. -/
theorem folded_eq_self_iff {t : Text} : folded {} t = t ↔ '\x85' ∉ t ∧ t.IsChain Apart := by
  refine ⟨fun h => ?_, fun ⟨hnext, hchain⟩ => ?_⟩
  · have hnext : '\x85' ∉ t := fun hmem =>
      next_line_not_mem_folded (.within []) List.not_mem_nil t (h.symm ▸ hmem)
    exact ⟨hnext, (((foldsLocally hnext).within []).1 h).2⟩
  · exact ((foldsLocally hnext).within []).2 ⟨fun hne => absurd rfl hne, hchain⟩

/-! ## Document markers -/

/-- The string starts with a document marker that fills a word. -/
def startsMarker : Text → Bool
  | '-' :: '-' :: '-' :: c :: _ => isFoldable c
  | '.' :: '.' :: '.' :: c :: _ => isFoldable c
  | _ => false

/-- A document marker starts a line of the string; the first line counts only if `start`. -/
def meetsMarker (start : Bool) : Text → Bool
  | [] => false
  | c :: t => (start && startsMarker (c :: t)) || meetsMarker (isRawBreak c) t

/-- What starts with a character other than a quote, a backslash and a newline between double
quotes, starts with it in the string. -/
theorem exists_of_flatMap_quotedChar {t u v : Text} {d : Char}
    (hd : d ≠ '"' ∧ d ≠ '\\' ∧ d ≠ '\n') (h : t.flatMap quotedChar ++ '"' :: u = d :: v) :
    ∃ s, t = d :: s ∧ v = s.flatMap quotedChar ++ '"' :: u := by
  cases t with
  | nil => exact absurd (List.cons.inj h).1.symm hd.1
  | cons c s =>
    rw [List.flatMap_cons, List.append_assoc] at h
    cases hc : isFoldable c with
    | true =>
      rw [(unifyBreak_of_isFoldable hc).1] at h
      obtain ⟨hcd, rfl⟩ := List.cons.inj h
      rw [unifyBreak] at hcd
      split at hcd
      · exact absurd hcd.symm hd.2.2
      · exact ⟨s, by rw [hcd], rfl⟩
    | false =>
      rcases quotedChar_cases hc with ⟨e, hquoted, -⟩ | ⟨hquoted, -⟩
      · rw [hquoted] at h
        exact absurd (List.cons.inj h).1.symm hd.2.1
      · rw [hquoted] at h
        obtain ⟨rfl, rfl⟩ := List.cons.inj h
        exact ⟨s, rfl, rfl⟩

theorem endsWord_flatMap_quotedChar (t u : Text) :
    endsWord (t.flatMap quotedChar ++ '"' :: u) = t.head?.any isFoldable := by
  cases t with
  | nil => rfl
  | cons c t =>
    rw [List.flatMap_cons, List.append_assoc, List.head?_cons, Option.any_some]
    cases hc : isFoldable c with
    | true =>
      obtain ⟨hquoted, hgap, -⟩ := unifyBreak_of_isFoldable hc
      rw [hquoted]
      exact hgap
    | false =>
      rcases quotedChar_cases hc with ⟨e, hquoted, -⟩ | ⟨hquoted, -, hgap⟩
      · rw [hquoted]
        rfl
      · rw [hquoted]
        exact hgap

/-- Between double quotes the reader sees the document markers of the string. -/
theorem isMarker_flatMap_quotedChar (p : Position) (t u : Text) :
    isMarker p (t.flatMap quotedChar ++ '"' :: u) = (p.column == 0 && startsMarker t) := by
  have hthree {d : Char} (hd : d ≠ '"' ∧ d ≠ '\\' ∧ d ≠ '\n') {v : Text}
      (h : t.flatMap quotedChar ++ '"' :: u = d :: d :: d :: v) :
      ∃ s, t = d :: d :: d :: s ∧ endsWord v = s.head?.any isFoldable := by
    obtain ⟨t₁, rfl, h₁⟩ := exists_of_flatMap_quotedChar hd h
    obtain ⟨t₂, rfl, h₂⟩ := exists_of_flatMap_quotedChar hd h₁.symm
    obtain ⟨t₃, rfl, rfl⟩ := exists_of_flatMap_quotedChar hd h₂.symm
    exact ⟨t₃, rfl, endsWord_flatMap_quotedChar t₃ u⟩
  rw [isMarker.eq_def]
  congr 1
  split
  · next heq =>
    obtain ⟨s, rfl, hends⟩ := hthree (by decide) heq
    cases s <;> exact hends
  · next heq =>
    obtain ⟨s, rfl, hends⟩ := hthree (by decide) heq
    cases s <;> exact hends
  · next hdashes hdots =>
    rw [startsMarker.eq_def]
    split
    · exact absurd rfl (hdashes _)
    · exact absurd rfl (hdots _)
    · rfl

/-! ## Reading -/

/-- A line starts behind a line break only. -/
theorem Position.column_after (p : Position) (c : Char) :
    ((p.after c).column == 0) = isBreak c := by
  rw [Position.after]
  split <;> simp [*]

/-- No document marker starts with a blank or a line break. -/
theorem isMarker_of_gap {c : Char} (h : (isGap c || isBreak c) = true) (p : Position) (t : Text) :
    isMarker p (c :: t) = false := by
  have hne : c ≠ '-' ∧ c ≠ '.' := by
    constructor <;> rintro rfl <;> cases h
  simp [isMarker, hne]

/-- What a backslash and a letter stand for. -/
theorem readDouble?_escape {e x : Char} (he : Escape.ofLetter? e = some (.char x))
    (hbreak : isBreak e = false) (gap : Gap) (p : Position) (t : Text) :
    readDouble? (.words gap) p ('\\' :: e :: t) =
      (readDouble? (.words {}) ((p.after '\\').after e) t).map (behind (gap.text ++ [x])) := by
  rw [readDouble?.eq_def]
  simp only
  rw [if_neg (by decide), if_neg (by simp [isMarker]), if_neg (by decide), if_pos (by rfl),
    if_neg (by simp [hbreak]), he]

/-- A character that needs no escape stands for itself. -/
theorem readDouble?_cons {c : Char} (hgap : (isGap c || isBreak c) = false)
    (hquote : c ≠ '"' ∧ c ≠ '\\') (gap : Gap) {p : Position} {t : Text}
    (hmark : isMarker p (c :: t) = false) :
    readDouble? (.words gap) p (c :: t) =
      (readDouble? (.words {}) (p.after c) t).map (behind (gap.text ++ [c])) := by
  rw [readDouble?.eq_def]
  simp only
  rw [if_neg (by simp [hgap]), if_neg (by simp [hmark]), if_neg (by simp [hquote.1]),
    if_neg (by simp [hquote.2])]

/-- Blanks and line breaks are held back until it is known what follows them. -/
theorem readDouble?_gap {c : Char} (hgap : (isGap c || isBreak c) = true) (gap : Gap)
    (p : Position) (t : Text) :
    readDouble? (.words gap) p (c :: t) = readDouble? (.words (gap.push c)) (p.after c) t := by
  rw [readDouble?.eq_def]
  simp only
  rw [if_pos hgap]

theorem readDouble?_end (gap : Gap) (p : Position) (t : Text) :
    readDouble? (.words gap) p ('"' :: t) = some (gap.text, ⟨p.after '"', t⟩) := by
  rw [readDouble?.eq_def]
  simp only
  rw [if_neg (by decide), if_neg (by simp [isMarker]), if_pos (by rfl)]

/-- At a document marker the reader of double quotes gives up. -/
theorem readDouble?_marker {p : Position} {c : Char} {t : Text}
    (hgap : (isGap c || isBreak c) = false) (hmark : isMarker p (c :: t) = true) (gap : Gap) :
    readDouble? (.words gap) p (c :: t) = none := by
  rw [readDouble?.eq_def]
  simp only
  rw [if_neg (by simp [hgap]), if_pos hmark]

/-- The reader of double quotes writes the folded string, unless it comes to a document marker. -/
theorem readDouble?_quotedChar (t : Text) (gap : Gap) (p : Position) (u : Text) :
    readDouble? (.words gap) p (t.flatMap quotedChar ++ '"' :: u) =
      if meetsMarker (p.column == 0) t then none
      else some (folded gap t, ⟨(t.flatMap quotedChar ++ ['"']).foldl Position.after p, u⟩) := by
  induction t generalizing gap p with
  | nil => exact readDouble?_end gap p u
  | cons c t ih =>
    have hmark := isMarker_flatMap_quotedChar p (c :: t) u
    rw [List.flatMap_cons, List.append_assoc] at hmark
    rw [meetsMarker, ← hmark, List.flatMap_cons, List.append_assoc, List.append_assoc,
      List.foldl_append]
    cases hc : isFoldable c with
    | true =>
      obtain ⟨hquoted, hgap, hbreak⟩ := unifyBreak_of_isFoldable hc
      rw [hquoted, List.singleton_append, readDouble?_gap hgap, ih, Position.column_after, hbreak,
        isMarker_of_gap hgap, folded_of_isFoldable hc]
      rfl
    | false =>
      have hraw : isRawBreak c = false := (Bool.or_eq_false_iff.1 hc).2
      rw [folded_of_not_isFoldable hc, hraw]
      rcases quotedChar_cases hc with ⟨e, hquoted, hletter, hbreak⟩ | ⟨hquoted, hquote, hgap⟩
      · have hslash : isMarker p ('\\' :: e :: (t.flatMap quotedChar ++ '"' :: u)) = false := by
          simp [isMarker]
        rw [hquoted, List.cons_append, List.cons_append, List.nil_append, hslash,
          readDouble?_escape hletter hbreak, ih, Position.column_after, hbreak]
        cases meetsMarker false t <;> simp [behind]
      · rw [hquoted, List.singleton_append]
        cases hmarker : isMarker p (c :: (t.flatMap quotedChar ++ '"' :: u)) with
        | true => exact readDouble?_marker hgap hmarker gap
        | false =>
          rw [readDouble?_cons hgap hquote gap hmarker, ih, Position.column_after,
            (Bool.or_eq_false_iff.1 hgap).2]
          cases meetsMarker false t <;> simp [behind]

end Scaffold.Yaml
