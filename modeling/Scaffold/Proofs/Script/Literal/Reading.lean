import Scaffold.Proofs.Decimal.Text
import Scaffold.Proofs.Script.Pieces
import Scaffold.Proofs.Script.Vocabulary
import Scaffold.Proofs.Text.Search

/-!
# How a literal is read

`Literal.read_eq` is the equation of the reader, without the bookkeeping of its termination.  From
it come the cases in which a text has a fixed form: a word (`read_of_word`), brackets around a
balanced text (`read_array`, `read_object`) and a string (`read_quoted`).

The forms are tied to a vocabulary by `IsSource`: a source is read as an expression when no
vocabulary is there, so no text of another form is one (`Vocabulary.Sound.text?_eq_none`).
-/

namespace Scaffold.Script

namespace Literal

/-- An entry of an object: a key with its value, or source text without a colon. -/
def readEntry (voc : Vocabulary) (entry : Text) : Text × Literal :=
  match splitKeyValue? entry with
  | some (key, value) => (keyOf key, read voc value)
  | none => (entry, .expression entry)

/-- The reader as one equation. -/
theorem read_eq (voc : Vocabulary) (source : Text) :
    read voc source =
      match word? voc (trimCode source) with
      | some value => value
      | none =>
        match enclosed? '[' (trimCode source) with
        | some inner => .array ((entriesOf inner).map (read voc))
        | none =>
          match enclosed? '\x7b' (trimCode source) with
          | some inner => .object ((entriesOf inner).map (readEntry voc))
          | none =>
            match unquote? (trimCode source) with
            | some s => .string s
            | none => .expression (trimCode source) := by
  rw [read]
  simp only
  cases word? voc (trimCode source) with
  | some value => rfl
  | none =>
    cases enclosed? '[' (trimCode source) with
    | some inner =>
      exact congrArg array List.attach_map_val
    | none =>
      cases enclosed? '\x7b' (trimCode source) with
      | none => rfl
      | some inner =>
        show object ((entriesOf inner).attach.map _) = object ((entriesOf inner).map _)
        rw [object.injEq, ← List.attach_map_val (l := entriesOf inner) (f := readEntry voc)]
        refine List.map_congr_left fun entry _ => ?_
        show _ = readEntry voc entry.1
        unfold readEntry
        cases splitKeyValue? entry.1 <;> rfl

theorem read_of_word {voc : Vocabulary} {t : Text} {v : Literal} (ht : trimCode t = t)
    (h : word? voc t = some v) : read voc t = v := by
  rw [read_eq, ht, h]

/-- What is read depends on the code alone, not on the blanks and comments around it. -/
theorem read_congr {voc : Vocabulary} {t u : Text} (h : trimCode t = trimCode u) :
    read voc t = read voc u := by
  rw [read_eq, read_eq voc u, h]

end Literal

/-! ## Words -/

/-- Only a text that starts with a parenthesis is a lazy import. -/
theorem lazyImport?_cons_of_ne {c : Char} (h : c ≠ '(') (t : Text) : lazyImport? (c :: t) = none := by
  have hhead : lazyImportHead.isPrefixOf? (c :: t) = none :=
    Text.isPrefixOf?_cons_of_ne (Ne.symm h) _ t
  simp [lazyImport?, hhead]

/-- A number starts with a number character. -/
theorem number?_cons_of_not {c : Char} (h : Decimal.isNumberChar c = false) (t : Text) :
    number? (c :: t) = none := by
  simp only [Decimal.isNumberChar, Bool.or_eq_false_iff, beq_eq_false_iff_ne] at h
  obtain ⟨⟨hd, hm⟩, hp⟩ := h
  unfold number?
  split
  · next heq => exact absurd (List.cons.inj heq).1 hm
  · unfold Decimal.readMagnitude?
    rw [List.takeWhile_cons_of_neg (by simp [hd]), List.dropWhile_cons_of_neg (by simp [hd])]
    split
    · next heq =>
      have := (Prod.mk.inj heq).1
      split at heq
      · next h2 => exact absurd (List.cons.inj h2).1 hp
      · cases heq
        rfl

/-- A text that starts with no letter is none of the fixed words. -/
theorem word?_cons {voc : Vocabulary} {c : Char} {t : Text} (h : c.isAlpha = false) :
    word? voc (c :: t) =
      match voc.text? (c :: t) with
      | some s => some (.string s)
      | none =>
        match lazyImport? (c :: t) with
        | some v => some v
        | none => (number? (c :: t)).map .number := by
  have hne (d : Char) (u : Text) (hd : d.isAlpha = true) : (c :: t == d :: u) = false := by
    rw [beq_eq_false_iff_ne]
    rintro heq
    rw [(List.cons.inj heq).1, hd] at h
    cases h
  have hundefined : (c :: t == "undefined".toList) = false := hne 'u' _ rfl
  have hnull : (c :: t == "null".toList) = false := hne 'n' _ rfl
  have htrue : (c :: t == "true".toList) = false := hne 't' _ rfl
  have hfalse : (c :: t == "false".toList) = false := hne 'f' _ rfl
  rw [word?, hundefined, hnull, htrue, hfalse]
  rfl

/-- A text that starts neither like a word nor like a number nor like a function is no word. -/
theorem word?_eq_none {voc : Vocabulary} {c : Char} {t : Text} (htext : voc.text? (c :: t) = none)
    (hname : c.isAlpha = false) (hnumber : Decimal.isNumberChar c = false) (hparen : c ≠ '(') :
    word? voc (c :: t) = none := by
  rw [word?_cons hname, htext, lazyImport?_cons_of_ne hparen, number?_cons_of_not hnumber]
  rfl

/-- A text that is no word without a vocabulary is at most a source. -/
theorem word?_of_none {t : Text} (h : word? {} t = none) (voc : Vocabulary) :
    word? voc t = (voc.text? t).map .string := by
  have htext : ({} : Vocabulary).text? t = none := rfl
  unfold word? at h ⊢
  rw [htext] at h
  repeat' split at h
  all_goals simp_all
  cases voc.text? t <;> rfl

/-! ## Brackets and strings -/

/-- The inside of brackets around a balanced text. -/
theorem enclosed?_brackets {o c : Char} (ho : isOpening o = true) (hc : isClosing c = true)
    {t : Text} (h : Balanced t) : enclosed? o (o :: t ++ [c]) = some t := by
  have hb := bracketed?_of_balanced ho hc h []
  rw [enclosed?, hb]
  simp

theorem enclosed?_cons_of_ne {o c : Char} (h : c ≠ o) (t : Text) : enclosed? o (c :: t) = none := by
  simp [enclosed?, h]

namespace Literal

variable {voc : Vocabulary} {t : Text}

/-- Brackets around a balanced text are an array of what its pieces are, whichever bracket closes
it. -/
theorem read_array {c : Char} (hc : isClosing c = true) (h : Balanced t)
    (htext : voc.text? ('[' :: t ++ [c]) = none) :
    read voc ('[' :: t ++ [c]) = .array ((pieces ',' t).map (read voc)) := by
  have hw : word? voc ('[' :: t ++ [c]) = none := word?_eq_none htext rfl rfl (by decide)
  have hcomma : c ≠ ',' := by
    rintro rfl
    cases hc
  have hpiece : IsPiece ',' ('[' :: t ++ [c]) := .brackets rfl hc h (by decide) hcomma
  rw [read_eq, hpiece.trimmed, hw, enclosed?_brackets rfl hc h]
  rfl

/-- Braces around a balanced text are an object of what its pieces are, whichever bracket closes
it. -/
theorem read_object {c : Char} (hc : isClosing c = true) (h : Balanced t)
    (htext : voc.text? ('\x7b' :: t ++ [c]) = none) :
    read voc ('\x7b' :: t ++ [c]) = .object ((pieces ',' t).map (readEntry voc)) := by
  have hw : word? voc ('\x7b' :: t ++ [c]) = none := word?_eq_none htext rfl rfl (by decide)
  have hcomma : c ≠ ',' := by
    rintro rfl
    cases hc
  have hpiece : IsPiece ',' ('\x7b' :: t ++ [c]) := .brackets rfl hc h (by decide) hcomma
  have ha : enclosed? '[' ('\x7b' :: t ++ [c]) = none := enclosed?_cons_of_ne (by decide) _
  rw [read_eq, hpiece.trimmed, hw, ha, enclosed?_brackets rfl hc h]
  rfl

/-- A string literal is read as the string. -/
theorem read_quoted (htext : voc.text? (quoted t) = none) : read voc (quoted t) = .string t := by
  have hw : word? voc (quoted t) = none := word?_eq_none htext rfl rfl (by decide)
  have ha : enclosed? '[' (quoted t) = none := enclosed?_cons_of_ne (by decide) _
  have ho : enclosed? '\x7b' (quoted t) = none := enclosed?_cons_of_ne (by decide) _
  have hpiece : IsPiece ',' (quoted t) := .quoted t
  rw [read_eq, hpiece.trimmed, hw, ha, ho, unquote?_quoted]

/-- A text without escapes is read from between quotes of either kind. -/
theorem read_between {q : Char} (hq : q = '\'' ∨ q = '"') (h : ∀ c ∈ t, c ≠ '\\' ∧ c ≠ q) :
    read {} (q :: t ++ [q]) = .string t := by
  have hquote : unquote? (q :: t ++ [q]) = some t := by
    have hbody : unquoteFrom? q (t ++ [q]) = some t := by
      induction t with
      | nil => rcases hq with rfl | rfl <;> rfl
      | cons c t ih =>
        obtain ⟨⟨hs, hne⟩, ht⟩ := List.forall_mem_cons.1 h
        rw [List.cons_append, unquoteFrom?_cons hs, if_neg (by simpa using hne), ih ht]
        rfl
    rcases hq with rfl | rfl <;> exact hbody
  have hpiece : IsPiece ',' (q :: t ++ [q]) := by
    refine .between ?_ (.of_all h)
    rcases hq with rfl | rfl <;> rfl
  have hforms : word? {} (q :: t ++ [q]) = none ∧ enclosed? '[' (q :: t ++ [q]) = none ∧
      enclosed? '\x7b' (q :: t ++ [q]) = none := by
    rcases hq with rfl | rfl <;>
      exact ⟨word?_eq_none rfl rfl rfl (by decide), enclosed?_cons_of_ne (by decide) _,
        enclosed?_cons_of_ne (by decide) _⟩
  rw [read_eq, hpiece.trimmed, hforms.1, hforms.2.1, hforms.2.2, hquote]

end Literal

/-! ## Sources -/

/-- A text that may be the source of a string: it may stand between commas, and it is an
expression. -/
structure IsSource (s : Text) : Prop where
  piece : IsPiece ',' s
  expression : ∃ e, Literal.read {} s = .expression e

theorem lazyImport?_eq_some {t : Text} {v : Literal} (h : lazyImport? t = some v) :
    ∃ m e, v = .lazyImport m e := by
  simp only [lazyImport?, Option.bind_eq_bind, Option.bind_eq_some_iff] at h
  obtain ⟨_, -, _, -, h⟩ := h
  split at h
  · exact ⟨_, _, (Option.some.inj h).symm⟩
  · cases h

/-- A word is never an expression. -/
theorem word?_ne_expression (voc : Vocabulary) (t e : Text) :
    word? voc t ≠ some (.expression e) := by
  unfold word?
  repeat' split
  all_goals simp
  next v hv =>
    obtain ⟨m, n, rfl⟩ := lazyImport?_eq_some hv
    exact Literal.noConfusion

/-- An expression is no word. -/
theorem IsSource.word? {s : Text} (h : IsSource s) : Script.word? {} s = none := by
  obtain ⟨e, he⟩ := h.expression
  cases hw : Script.word? {} s with
  | none => rfl
  | some v =>
    rw [Literal.read_of_word h.piece.trimmed hw] at he
    exact absurd (he ▸ hw) (word?_ne_expression _ _ _)

/-- A plain text without blanks and commas that is no word is a source. -/
theorem IsSource.of_plain {s : Text} (hne : s ≠ [])
    (hplain : ∀ c ∈ s, isPlain c = true ∧ isBlank c = false) (hcomma : ',' ∉ s)
    (hword : Script.word? {} s = none) : IsSource s := by
  have hpiece : IsPiece ',' s :=
    .of_plain hne (fun c hc => (hplain c hc).1)
      (fun c hc => (hplain c (List.mem_of_mem_head? hc)).2)
      (fun c hc => (hplain c (List.mem_of_getLast? hc)).2) hcomma
  refine ⟨hpiece, ?_⟩
  obtain ⟨c, t, rfl⟩ := List.exists_cons_of_ne_nil hne
  have hc : c ∉ marks := fun hm => by
    have hnot : ∀ d ∈ marks, isPlain d = false := by decide
    exact absurd (hplain c List.mem_cons_self).1 (by simp [hnot c hm])
  simp only [marks, List.mem_cons, List.not_mem_nil, or_false, not_or] at hc
  have hquote : unquote? (c :: t) = none := by
    simp [unquote?, hc]
  rw [Literal.read_eq, hpiece.trimmed, hword, enclosed?_cons_of_ne hc.2.2.2.1,
    enclosed?_cons_of_ne hc.2.2.2.2.1, hquote]
  exact ⟨_, rfl⟩

/-- The sources of the vocabulary are sources, each of one string. -/
structure Vocabulary.Sound (voc : Vocabulary) : Prop where
  consistent : voc.Consistent
  isSource : ∀ t s, voc.source? t = some s → IsSource s

theorem Vocabulary.sound_empty : Vocabulary.Sound {} where
  consistent := by simp [Vocabulary.Consistent, Vocabulary.text?, Vocabulary.source?]
  isSource := fun _ _ h => nomatch h

/-- A text of another form than an expression is no source. -/
theorem Vocabulary.Sound.text?_eq_none {voc : Vocabulary} (h : voc.Sound) {t : Text}
    (ht : ∀ e, Literal.read {} t ≠ .expression e) : voc.text? t = none := by
  cases htext : voc.text? t with
  | none => rfl
  | some s =>
    obtain ⟨e, he⟩ := (h.isSource s t ((h.consistent t s).1 htext)).expression
    exact absurd he (ht e)

end Scaffold.Script
