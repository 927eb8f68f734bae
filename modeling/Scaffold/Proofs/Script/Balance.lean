import Scaffold.Proofs.Script.Scan
import Scaffold.Proofs.Text.Trim
import Scaffold.Script.Quoted

/-!
# Balanced texts

A balanced text opens and closes its own strings and brackets, so that it may stand anywhere in
code without changing what surrounds it.  The balanced texts of this library are put together from
three kinds of pieces: plain texts without quotes, brackets and slashes, string literals, and
bracketed balanced texts.

`scan_quoted_append` says that a string literal stands between its quotes and no text breaks out of
it, and `bracketed?_of_balanced` that a bracketed balanced text is found whatever follows it.
-/

namespace Scaffold.Script

/-- Scanned inside a bracket, the text ends in code at the depth where it starts, and no bracket of
it closes the surrounding one. -/
structure Balanced (t : Text) : Prop where
  after_inside : ScanState.after { depth := 1 } t = { depth := 1 }
  stays_inside : ∀ v ∈ scanFrom { depth := 1 } t, 1 ≤ v.depth

namespace Balanced

variable {t u : Text}

private theorem raise_zero (k : Nat) : ScanState.raise k {} = { depth := k } := by
  simp [ScanState.raise]

private theorem raised (h : Balanced t) (k : Nat) :
    scanFrom { depth := k } t = (scan t).map (Visit.raise k) ∧
      ScanState.after { depth := k } t = (ScanState.after {} t).raise k := by
  have hin : ∀ v ∈ scanFrom (ScanState.raise 1 {}) t, 1 ≤ v.depth := h.stays_inside
  have := scanFrom_raise hin k
  rwa [raise_zero] at this

/-- A balanced text is scanned alike at any depth. -/
theorem scanFrom_eq (h : Balanced t) (k : Nat) :
    scanFrom { depth := k } t = (scan t).map (Visit.raise k) := (h.raised k).1

/-- Behind a balanced text the scan is where it was in front of it. -/
theorem after_eq (h : Balanced t) (k : Nat) : ScanState.after { depth := k } t = { depth := k } := by
  have hzero : ScanState.after {} t = {} := by
    have hone := (h.raised 1).2
    rw [h.after_inside] at hone
    revert hone
    generalize ScanState.after {} t = s
    obtain ⟨mode, depth⟩ := s
    simp [ScanState.raise, eq_comm]
  rw [(h.raised k).2, hzero, raise_zero]

theorem nil : Balanced [] := ⟨rfl, by simp⟩

/-- The visits of a balanced text inside `k` brackets are at least that deep. -/
theorem le_depth (h : Balanced t) {k : Nat} {v : Visit} (hv : v ∈ scanFrom { depth := k } t) :
    k ≤ v.depth := by
  rw [h.scanFrom_eq] at hv
  obtain ⟨w, -, rfl⟩ := List.mem_map.1 hv
  simp

/-- What follows a balanced text is scanned as if the text were not there. -/
theorem scanFrom_append (h : Balanced t) (hm : Apart t u) (k : Nat) :
    scanFrom { depth := k } (t ++ u) =
      scanFrom { depth := k } t ++ scanFrom { depth := k } u := by
  rw [Script.scanFrom_append hm, h.after_eq]

theorem scan_append (h : Balanced t) (hm : Apart t u) : scan (t ++ u) = scan t ++ scan u :=
  h.scanFrom_append hm 0

theorem append (ht : Balanced t) (hu : Balanced u) (hm : Apart t u) : Balanced (t ++ u) where
  after_inside := by rw [after_append hm, ht.after_eq, hu.after_eq]
  stays_inside := by
    intro v hv
    rw [ht.scanFrom_append hm, List.mem_append] at hv
    exact hv.elim ht.le_depth hu.le_depth

end Balanced

/-! ## Plain texts -/

/-- A character that is code wherever code stands and changes nothing. -/
def isPlain (c : Char) : Bool := !isQuote c && !isOpening c && !isClosing c && c != '/'

/-- The characters that are not plain. -/
def marks : List Char := ['\'', '"', '`', '[', '\x7b', '(', ']', '\x7d', ')', '/']

theorem isPlain_of_notMem {c : Char} (h : c ∉ marks) : isPlain c = true := by
  simp only [marks, List.mem_cons, List.not_mem_nil, or_false, not_or] at h
  simp [isPlain, isQuote, isOpening, isClosing, h]

/-- A class of characters without marks is plain. -/
theorem isPlain_of_class {p : Char → Bool} (hp : ∀ d ∈ marks, p d = false) {c : Char}
    (h : p c = true) : isPlain c = true := by
  refine isPlain_of_notMem fun hc => ?_
  rw [hp c hc] at h
  cases h

theorem ScanState.step_plain {c : Char} (h : isPlain c = true) (next : Option Char) (k : Nat) :
    ScanState.step { depth := k } c next = (⟨c, .code, k⟩, { depth := k }) := by
  simp_all [isPlain, ScanState.step]

/-- A plain text is all code. -/
theorem scanFrom_plain {t : Text} (h : ∀ c ∈ t, isPlain c = true) (k : Nat) :
    scanFrom { depth := k } t = t.map (⟨·, .code, k⟩) ∧
      ScanState.after { depth := k } t = { depth := k } := by
  induction t with
  | nil => exact ⟨rfl, rfl⟩
  | cons c t ih =>
    have hc : isPlain c = true := h c List.mem_cons_self
    obtain ⟨hscan, hafter⟩ := ih fun d hd => h d (List.mem_cons_of_mem _ hd)
    rw [scanFrom_cons, ScanState.after_cons, ScanState.step_plain hc]
    exact ⟨by rw [hscan]; rfl, hafter⟩

theorem scan_plain {t : Text} (h : ∀ c ∈ t, isPlain c = true) :
    scan t = t.map (⟨·, .code, 0⟩) := (scanFrom_plain h 0).1

theorem Balanced.of_plain {t : Text} (h : ∀ c ∈ t, isPlain c = true) : Balanced t where
  after_inside := (scanFrom_plain h 1).2
  stays_inside := by
    intro v hv
    rw [(scanFrom_plain h 1).1] at hv
    obtain ⟨c, -, rfl⟩ := List.mem_map.1 hv
    simp

/-- A plain text meets no other one in a comment mark, except by a star at its start. -/
theorem apart_of_plain {t u : Text} (h : ∀ c ∈ t, isPlain c = true)
    (hu : t.getLast? = some '*' → u.head? ≠ some '/') : Apart t u := by
  intro c d hc hd
  have hplain := h c (List.mem_of_getLast? hc)
  by_cases hstar : c = '*'
  · subst hstar
    have hne : d ≠ '/' := by
      rintro rfl
      exact hu hc hd
    simp [isCommentMark, hne]
  · simp_all [isCommentMark, isPlain]

/-! ## Strings -/

/-- What may stand between two quotes: each quote and each backslash stands behind a backslash. -/
inductive QuotedBody (q : Char) : Text → Prop
  | nil : QuotedBody q []
  | char {c : Char} {t : Text} (hs : c ≠ '\\') (hq : c ≠ q) (ht : QuotedBody q t) :
    QuotedBody q (c :: t)
  | escape (c : Char) {t : Text} (ht : QuotedBody q t) : QuotedBody q ('\\' :: c :: t)

namespace QuotedBody

variable {q : Char} {t u : Text}

theorem append (ht : QuotedBody q t) (hu : QuotedBody q u) : QuotedBody q (t ++ u) := by
  induction ht with
  | nil => exact hu
  | char hs hq _ ih => exact .char hs hq ih
  | escape c _ ih => exact .escape c ih

theorem flatMap {α : Type} {f : α → Text} (l : List α) (h : ∀ a ∈ l, QuotedBody q (f a)) :
    QuotedBody q (l.flatMap f) := by
  induction l with
  | nil => exact .nil
  | cons a l ih =>
    rw [List.flatMap_cons]
    exact (h a List.mem_cons_self).append (ih fun b hb => h b (List.mem_cons_of_mem _ hb))

/-- A text without backslashes and without the quote needs no escapes. -/
theorem of_all (h : ∀ c ∈ t, c ≠ '\\' ∧ c ≠ q) : QuotedBody q t := by
  induction t with
  | nil => exact .nil
  | cons c t ih =>
    obtain ⟨hs, hq⟩ := h c List.mem_cons_self
    exact .char hs hq (ih fun d hd => h d (List.mem_cons_of_mem _ hd))

/-- The body is quoted text up to the closing quote. -/
theorem scanFrom_eq (h : QuotedBody q t) (hq : q ≠ '\\') (k : Nat) (u : Text) :
    scanFrom ⟨.quoted q, k⟩ (t ++ q :: u) =
        (t ++ [q]).map (⟨·, .quoted, k⟩) ++ scanFrom { depth := k } u ∧
      ScanState.after ⟨.quoted q, k⟩ (t ++ q :: u) = ScanState.after { depth := k } u := by
  induction h with
  | nil => simp [scanFrom_cons, ScanState.after_cons, ScanState.step, hq]
  | char hs hc _ ih =>
    simp only [List.cons_append, scanFrom_cons, ScanState.after_cons, ScanState.step,
      beq_iff_eq, hs, hc, if_false, ih, List.map_cons, and_self]
  | escape c _ ih =>
    simp only [List.cons_append, scanFrom_cons, ScanState.after_cons, ScanState.step,
      beq_self_eq_true, if_true, ih, List.map_cons, and_self]

end QuotedBody

/-- A text between two quotes is all quoted, and the code goes on behind it. -/
theorem scanFrom_between {q : Char} (hq : isQuote q = true) {body : Text} (h : QuotedBody q body)
    (k : Nat) (u : Text) :
    scanFrom { depth := k } (q :: body ++ q :: u) =
        (q :: body ++ [q]).map (⟨·, .quoted, k⟩) ++ scanFrom { depth := k } u ∧
      ScanState.after { depth := k } (q :: body ++ q :: u) = ScanState.after { depth := k } u := by
  have hne : q ≠ '\\' := by
    rintro rfl
    revert hq
    decide
  have hstep (next : Option Char) :
      ScanState.step { depth := k } q next = (⟨q, .quoted, k⟩, ⟨.quoted q, k⟩) := by
    simp [ScanState.step, hq]
  obtain ⟨hscan, hafter⟩ := h.scanFrom_eq hne k u
  rw [List.cons_append, scanFrom_cons, ScanState.after_cons, hstep]
  exact ⟨by rw [hscan]; rfl, hafter⟩

theorem scan_between {q : Char} (hq : isQuote q = true) {body : Text} (h : QuotedBody q body) :
    scan (q :: body ++ [q]) = (q :: body ++ [q]).map (⟨·, .quoted, 0⟩) := by
  have := (scanFrom_between hq h 0 []).1
  rwa [scanFrom_nil, List.append_nil] at this

theorem Balanced.of_quotedBody {q : Char} (hq : isQuote q = true) {body : Text}
    (h : QuotedBody q body) : Balanced (q :: body ++ [q]) where
  after_inside := (scanFrom_between hq h 1 []).2
  stays_inside := by
    intro v hv
    rw [(scanFrom_between hq h 1 []).1, scanFrom_nil, List.append_nil] at hv
    obtain ⟨c, -, rfl⟩ := List.mem_map.1 hv
    simp

theorem quotedBody_escapeChar (c : Char) : QuotedBody '\'' (escapeChar c) := by
  unfold escapeChar
  split
  iterate 5 exact .escape _ .nil
  next h₁ h₂ _ _ _ => exact .char h₁ h₂ .nil

/-- The escaped form of a text may stand between single quotes. -/
theorem quotedBody_flatMap_escapeChar (t : Text) : QuotedBody '\'' (t.flatMap escapeChar) :=
  .flatMap t fun c _ => quotedBody_escapeChar c

/-- A string literal is quoted up to its last character, whatever it holds and whatever follows. -/
theorem scanFrom_quoted_append (s w : Text) (k : Nat) :
    scanFrom { depth := k } (quoted s ++ w) =
      (quoted s).map (⟨·, .quoted, k⟩) ++ scanFrom { depth := k } w := by
  have hbetween := (scanFrom_between rfl (quotedBody_flatMap_escapeChar s) k w).1
  rwa [List.append_cons, ← quoted] at hbetween

/-- A newline does not stand in a string literal as itself. -/
theorem newline_notMem_quoted (s : Text) : '\n' ∉ quoted s := by
  have hescape (c : Char) : '\n' ∉ escapeChar c := by
    unfold escapeChar
    split
    iterate 5 decide
    next _ _ hnewline _ _ => simpa using Ne.symm hnewline
  simp [quoted, hescape]

/-- No text breaks out of its literal.  The literal begins and ends with a quote, is read back as
the text and stands on one line.  Its characters, the two quotes among them, are quoted, and what
follows is scanned as if the literal were not there. -/
theorem scan_quoted_append (s w : Text) :
    (∃ body, quoted s = '\'' :: body ++ ['\'']) ∧ unquote? (quoted s) = some s ∧
      scan (quoted s ++ w) = (quoted s).map (⟨·, .quoted, 0⟩) ++ scan w ∧ '\n' ∉ quoted s :=
  ⟨⟨s.flatMap escapeChar, rfl⟩, unquote?_quoted s, scanFrom_quoted_append s w 0,
    newline_notMem_quoted s⟩

/-! ## Brackets -/

theorem ScanState.step_opening {c : Char} (h : isOpening c = true) (next : Option Char) (k : Nat) :
    ScanState.step { depth := k } c next = (⟨c, .code, k⟩, { depth := k + 1 }) := by
  have hc : isQuote c = false ∧ (c == '/') = false := by
    rcases (by simpa [isOpening] using h : (c = '[' ∨ c = '\x7b') ∨ c = '(') with
      (rfl | rfl) | rfl <;> decide
  simp [ScanState.step, hc, h]

/-- Behind an opening bracket the visits are those of a scan inside it. -/
theorem scan_opening {o : Char} (ho : isOpening o = true) (t : Text) :
    scan (o :: t) = ⟨o, .code, 0⟩ :: scanFrom { depth := 1 } t := by
  rw [scan, scanFrom_cons, ScanState.step_opening ho]

theorem ScanState.step_closing {c : Char} (h : isClosing c = true) (next : Option Char) (k : Nat) :
    ScanState.step { depth := k } c next = (⟨c, .code, k - 1⟩, { depth := k - 1 }) := by
  have hc : isQuote c = false ∧ isOpening c = false ∧ (c == '/') = false := by
    rcases (by simpa [isClosing] using h : (c = ']' ∨ c = '\x7d') ∨ c = ')') with
      (rfl | rfl) | rfl <;> decide
  simp [ScanState.step, hc, h]

theorem apart_closing {c : Char} (h : isClosing c = true) (t u : Text) : Apart t (c :: u) := by
  apply apart_cons
  · rintro rfl
    revert h
    decide
  · rintro rfl
    revert h
    decide

variable {o c : Char} {t : Text}

/-- A bracketed balanced text: the brackets at the outer depth, the body one bracket deeper. -/
theorem scanFrom_brackets (ho : isOpening o = true) (hc : isClosing c = true) (h : Balanced t)
    (k : Nat) (u : Text) :
    scanFrom { depth := k } (o :: t ++ c :: u) =
        ⟨o, .code, k⟩ :: scanFrom { depth := k + 1 } t ++ ⟨c, .code, k⟩ ::
          scanFrom { depth := k } u ∧
      ScanState.after { depth := k } (o :: t ++ c :: u) = ScanState.after { depth := k } u := by
  have hm := apart_closing hc t u
  simp only [List.cons_append, scanFrom_cons, ScanState.after_cons, ScanState.step_opening ho,
    h.scanFrom_append hm, after_append hm, h.after_eq, ScanState.step_closing hc,
    Nat.add_sub_cancel, and_self]

theorem scan_brackets (ho : isOpening o = true) (hc : isClosing c = true) (h : Balanced t) :
    scan (o :: t ++ [c]) =
      ⟨o, .code, 0⟩ :: scanFrom { depth := 1 } t ++ [⟨c, .code, 0⟩] :=
  (scanFrom_brackets ho hc h 0 []).1

theorem Balanced.brackets (ho : isOpening o = true) (hc : isClosing c = true) (h : Balanced t) :
    Balanced (o :: t ++ [c]) where
  after_inside := (scanFrom_brackets ho hc h 1 []).2
  stays_inside := by
    intro v hv
    rw [(scanFrom_brackets ho hc h 1 []).1] at hv
    simp only [List.cons_append, List.mem_cons, List.mem_append, scanFrom_nil,
      List.not_mem_nil, or_false] at hv
    rcases hv with rfl | hv | rfl
    · exact Nat.le_refl 1
    · exact Nat.le_of_succ_le (h.le_depth hv)
    · exact Nat.le_refl 1

theorem newline_ne_of_opening {c : Char} (h : isOpening c = true) : '\n' ≠ c := by
  rintro rfl
  cases h

theorem newline_ne_of_closing {c : Char} (h : isClosing c = true) : '\n' ≠ c := by
  rintro rfl
  cases h

/-- Nothing inside a bracket leaves all brackets. -/
theorem Visit.closesAll_of_inside {v : Visit} (h : 1 ≤ v.depth) : v.closesAll = false := by
  have hne : v.depth ≠ 0 := by omega
  simp [Visit.closesAll, Visit.isTopLevel, hne]

/-- A bracketed balanced text is found whatever follows it. -/
theorem bracketed?_of_balanced (ho : isOpening o = true) (hc : isClosing c = true)
    (h : Balanced t) (rest : Text) :
    bracketed? (o :: t ++ c :: rest) = some (o :: t ++ [c], rest) := by
  have hscan : scan (o :: t ++ c :: rest) =
      ⟨o, .code, 0⟩ :: (scanFrom { depth := 1 } t ++ ⟨c, .code, 0⟩ :: scan rest) :=
    (scanFrom_brackets ho hc h 0 rest).1
  have hbody : ∀ v ∈ scanFrom { depth := 1 } t, v.closesAll = false :=
    fun v hv => Visit.closesAll_of_inside (h.stays_inside v hv)
  have hclose : (⟨c, .code, 0⟩ : Visit).closesAll = true := by
    simp [Visit.closesAll, Visit.isTopLevel, hc]
  have hbreak := breakAt?_append hbody hclose (scan rest)
  rw [bracketed?, hscan]
  simp [ho, hbreak]

end Scaffold.Script
