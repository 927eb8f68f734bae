import Scaffold.Proofs.Script.Balance
import Scaffold.Script.Literal.Reader

/-!
# Pieces of script text

What the reader cuts out of a text that was put together from balanced pieces: the pieces between
two separators (`pieces_cons`, `pieces_last`), those on lines of their own (`pieces_commaLines`),
the key and the value of an entry (`splitKeyValue?_of_balanced`), and the code between blanks
(`trimCode_between_blanks`).
-/

namespace Scaffold

/-! ## Blanks -/

namespace Script

theorem isPlain_of_isBlank {c : Char} (h : isBlank c = true) : isPlain c = true :=
  isPlain_of_class (by decide) h

/-- A blank is plain, so it changes neither the depth nor the mode of code. -/
theorem ScanState.step_blank {c : Char} (h : isBlank c = true) (next : Option Char) (k : Nat) :
    ScanState.step { depth := k } c next = (⟨c, .code, k⟩, { depth := k }) :=
  step_plain (isPlain_of_isBlank h) next k

end Script

open Script

namespace IsBlank

variable {a b : Text}

theorem plain (ha : IsBlank a) : ∀ c ∈ a, isPlain c = true :=
  fun c hc => isPlain_of_isBlank (ha c hc)

theorem balanced (ha : IsBlank a) : Balanced a := .of_plain ha.plain

/-- Blanks meet every text apart, on either side. -/
theorem apart_left (ha : IsBlank a) (u : Text) : Apart a u := by
  intro c d hc _
  have hmem := List.mem_of_getLast? hc
  simp [isCommentMark, ha.ne_of_mem hmem (show isBlank '/' = false from rfl),
    ha.ne_of_mem hmem (show isBlank '*' = false from rfl)]

theorem apart_right (hb : IsBlank b) (t : Text) : Apart t b := by
  intro c d _ hd
  have hmem := List.mem_of_mem_head? hd
  simp [isCommentMark, hb.ne_of_mem hmem (show isBlank '/' = false from rfl),
    hb.ne_of_mem hmem (show isBlank '*' = false from rfl)]

theorem skipped (ha : IsBlank a) : ∀ v ∈ scan a, v.isSkipped = true := by
  intro v hv
  rw [scan_plain ha.plain] at hv
  obtain ⟨c, hc, rfl⟩ := List.mem_map.1 hv
  simp [Visit.isSkipped, ha c hc]

end IsBlank

namespace Script

/-! ## Trimming -/

/-- The text starts with a character that is neither blank nor part of a comment. -/
def SolidStart (t : Text) : Prop := ∃ v ∈ (scan t).head?, v.isSkipped = false

/-- The text ends with a character that is neither blank nor part of a comment. -/
def SolidEnd (t : Text) : Prop := ∃ v ∈ (scan t).getLast?, v.isSkipped = false

theorem SolidEnd.exists_concat {t : Text} (h : SolidEnd t) :
    ∃ init c, t = init ++ [c] ∧ isBlank c = false := by
  obtain ⟨v, hv, hsolid⟩ := h
  obtain ⟨init, hinit⟩ := List.getLast?_eq_some_iff.1 hv
  refine ⟨textOf init, v.char, ?_, ?_⟩
  · rw [← textOf_scan t, hinit]
    simp [textOf]
  · simp only [Visit.isSkipped, Bool.or_eq_false_iff] at hsolid
    exact hsolid.2

/-- A text between solid characters is not trimmed. -/
theorem trimCode_eq_self {t : Text} (hfirst : SolidStart t) (hlast : SolidEnd t) :
    trimCode t = t := by
  obtain ⟨v, hv, hvs⟩ := hfirst
  obtain ⟨w, hw, hws⟩ := hlast
  rw [trimCode, trimEdges_eq_self, textOf_scan]
  · intro x hx
    obtain rfl : v = x := Option.some.inj (hv.symm.trans hx)
    exact hvs
  · intro x hx
    obtain rfl : w = x := Option.some.inj (hw.symm.trans hx)
    exact hws

theorem SolidStart.ne_nil {t : Text} (h : SolidStart t) : t ≠ [] := by
  rintro rfl
  obtain ⟨v, hv, -⟩ := h
  cases hv

theorem SolidStart.append {t u : Text} (h : SolidStart t) (ht : Balanced t) (hm : Apart t u) :
    SolidStart (t ++ u) := by
  obtain ⟨v, hv, hvs⟩ := h
  refine ⟨v, ?_, hvs⟩
  rw [ht.scan_append hm, List.head?_append, hv]
  rfl

theorem SolidEnd.append {t u : Text} (h : SolidEnd u) (ht : Balanced t) (hm : Apart t u) :
    SolidEnd (t ++ u) := by
  obtain ⟨v, hv, hvs⟩ := h
  refine ⟨v, ?_, hvs⟩
  rw [ht.scan_append hm, List.getLast?_append, hv]
  rfl

/-- A plain character that is not blank is solid. -/
theorem solid_plain {t : Text} (ht : t ≠ []) (hp : ∀ c ∈ t, isPlain c = true)
    (hfirst : ∀ c ∈ t.head?, isBlank c = false) (hlast : ∀ c ∈ t.getLast?, isBlank c = false) :
    SolidStart t ∧ SolidEnd t := by
  refine ⟨⟨⟨t.head ht, .code, 0⟩, ?_, ?_⟩, ⟨t.getLast ht, .code, 0⟩, ?_, ?_⟩
  · rw [scan_plain hp, List.head?_map, List.head?_eq_some_head ht]
    rfl
  · simp [Visit.isSkipped, hfirst _ (List.head?_eq_some_head ht)]
  · rw [scan_plain hp, List.getLast?_map, List.getLast?_eq_some_getLast ht]
    rfl
  · simp [Visit.isSkipped, hlast _ (List.getLast?_eq_some_getLast ht)]

/-- Quotes are solid. -/
theorem solid_between {q : Char} (hq : isQuote q = true) {body : Text} (h : QuotedBody q body) :
    SolidStart (q :: body ++ [q]) ∧ SolidEnd (q :: body ++ [q]) := by
  have hsolid : Visit.isSkipped ⟨q, .quoted, 0⟩ = false := by
    rcases (by simpa [isQuote] using hq : (q = '\'' ∨ q = '"') ∨ q = '`') with (rfl | rfl) | rfl <;>
      decide
  refine ⟨⟨⟨q, .quoted, 0⟩, ?_, hsolid⟩, ⟨q, .quoted, 0⟩, ?_, hsolid⟩
  · rw [scan_between hq h]
    rfl
  · rw [scan_between hq h, List.map_append]
    exact List.getLast?_concat

/-- Brackets are solid. -/
theorem solid_brackets {o c : Char} (ho : isOpening o = true) (hc : isClosing c = true) {t : Text}
    (h : Balanced t) : SolidStart (o :: t ++ [c]) ∧ SolidEnd (o :: t ++ [c]) := by
  have hopen : Visit.isSkipped ⟨o, .code, 0⟩ = false := by
    rcases (by simpa [isOpening] using ho : (o = '[' ∨ o = '\x7b') ∨ o = '(') with
      (rfl | rfl) | rfl <;> decide
  have hclose : Visit.isSkipped ⟨c, .code, 0⟩ = false := by
    rcases (by simpa [isClosing] using hc : (c = ']' ∨ c = '\x7d') ∨ c = ')') with
      (rfl | rfl) | rfl <;> decide
  refine ⟨⟨⟨o, .code, 0⟩, ?_, hopen⟩, ⟨c, .code, 0⟩, ?_, hclose⟩
  · rw [scan_brackets ho hc h]
    rfl
  · rw [scan_brackets ho hc h]
    exact List.getLast?_concat

/-- Blanks around a balanced text do not count. -/
theorem trimCode_between_blanks {a t b : Text} (ha : IsBlank a) (ht : Balanced t)
    (hb : IsBlank b) : trimCode (a ++ t ++ b) = trimCode t := by
  have hscan : scan (a ++ t ++ b) = scan a ++ scan t ++ scan b := by
    rw [List.append_assoc, ha.balanced.scan_append (ha.apart_left _),
      ht.scan_append (hb.apart_right _), List.append_assoc]
  rw [trimCode, hscan, trimEdges_append _ ha.skipped hb.skipped, trimCode]

theorem trimCode_blank {a : Text} (ha : IsBlank a) : trimCode a = [] := by
  have := trimCode_between_blanks ha Balanced.nil IsBlank.nil
  rw [List.append_nil, List.append_nil] at this
  exact this

/-! ## Separators -/

/-- No code outside all brackets is the given character. -/
def FreeOf (sep : Char) (t : Text) : Prop := ∀ v ∈ scan t, v.isTopLevel = true → v.char ≠ sep

/-- A text is free of a separator when it is not divided anywhere. -/
theorem freeOf_iff {sep : Char} {t : Text} :
    FreeOf sep t ↔ ∀ v ∈ scan t, (v.char == sep && v.isTopLevel) = false := by
  refine forall₂_congr fun v _ => ?_
  cases v.isTopLevel <;> simp

namespace FreeOf

variable {sep : Char} {t u : Text}

theorem append (ht : FreeOf sep t) (hb : Balanced t) (hu : FreeOf sep u) (hm : Apart t u) :
    FreeOf sep (t ++ u) := by
  intro v hv
  rw [hb.scan_append hm, List.mem_append] at hv
  exact hv.elim (ht v) (hu v)

theorem of_notMem (h : sep ∉ t) : FreeOf sep t := by
  intro v hv _ hc
  have hmem : v.char ∈ textOf (scan t) := List.mem_map_of_mem hv
  rw [textOf_scan, hc] at hmem
  exact h hmem

theorem of_quotedBody {q : Char} (hq : isQuote q = true) {body : Text} (h : QuotedBody q body) :
    FreeOf sep (q :: body ++ [q]) := by
  intro v hv
  rw [scan_between hq h] at hv
  obtain ⟨c, -, rfl⟩ := List.mem_map.1 hv
  simp [Visit.isTopLevel]

theorem brackets {o c : Char} (ho : isOpening o = true) (hc : isClosing c = true)
    (h : Balanced t) (hso : o ≠ sep) (hsc : c ≠ sep) : FreeOf sep (o :: t ++ [c]) := by
  intro v hv htop
  rw [scan_brackets ho hc h] at hv
  simp only [List.cons_append, List.mem_cons, List.mem_append, List.not_mem_nil, or_false] at hv
  rcases hv with rfl | hv | rfl
  · exact hso
  · have := h.le_depth hv
    have hzero : v.depth = 0 := by
      simp only [Visit.isTopLevel, Bool.and_eq_true, beq_iff_eq] at htop
      exact htop.2
    omega
  · exact hsc

end FreeOf

/-- A character that may separate pieces: plain, and no part of a comment mark. -/
def IsSeparator (sep : Char) : Prop := isPlain sep = true ∧ sep ≠ '*'

instance (sep : Char) : Decidable (IsSeparator sep) := inferInstanceAs (Decidable (_ ∧ _))

theorem apart_separator {sep : Char} (hsep : IsSeparator sep) (t u : Text) :
    Apart t (sep :: u) := by
  apply apart_cons _ _ _ hsep.2
  rintro rfl
  exact absurd hsep.1 (by decide)

section

variable {sep : Char} (hsep : IsSeparator sep) {t : Text} (ht : Balanced t)
include hsep ht

theorem scan_separator (u : Text) : scan (t ++ sep :: u) = scan t ++ ⟨sep, .code, 0⟩ :: scan u := by
  rw [ht.scan_append (apart_separator hsep t u)]
  have hcons : scan (sep :: u) = ⟨sep, .code, 0⟩ :: scan u := by
    rw [scan, scanFrom_cons, ScanState.step_plain hsep.1, scan]
  rw [hcons]

theorem splitTopLevel_separator (hf : FreeOf sep t) (u : Text) :
    splitTopLevel sep (t ++ sep :: u) = t :: splitTopLevel sep u := by
  rw [splitTopLevel, scan_separator hsep ht,
    List.splitOnP_append_cons_of_forall_mem (freeOf_iff.1 hf) _ (by simp [Visit.isTopLevel])]
  simp [splitTopLevel]

end

theorem splitTopLevel_last {sep : Char} {t : Text} (hf : FreeOf sep t) :
    splitTopLevel sep t = [t] := by
  rw [splitTopLevel, List.splitOnP_eq_singleton (freeOf_iff.1 hf)]
  simp

/-- An entry is divided at the colon behind a balanced key. -/
theorem splitKeyValue?_of_balanced {key : Text} (hk : Balanced key) (hf : FreeOf ':' key)
    (value : Text) : splitKeyValue? (key ++ ':' :: value) = some (key, value) := by
  have hbreak := breakAt?_append (freeOf_iff.1 hf)
    (show (Visit.char ⟨':', .code, 0⟩ == ':' && Visit.isTopLevel ⟨':', .code, 0⟩) = true from rfl)
    (scan value)
  rw [splitKeyValue?, scan_separator (by decide : IsSeparator ':') hk, hbreak]
  simp

section

variable {sep : Char} {m : Text} (hm : m ≠ []) (hplain : ∀ c ∈ m, IsSeparator c ∧ c ≠ sep)
include hm hplain

/-- A text of such characters meets every text apart, on either side. -/
theorem apart_of_separators (t : Text) : Apart t m := by
  obtain ⟨c, m, rfl⟩ := List.exists_cons_of_ne_nil hm
  exact apart_separator (hplain c List.mem_cons_self).1 t m

theorem separators_apart (t u : Text) : Apart (t ++ m) u := by
  obtain ⟨m, c, rfl⟩ := (List.eq_nil_or_concat m).resolve_left hm
  have hc := (hplain c (by simp)).1
  rw [List.concat_eq_append, ← List.append_assoc]
  refine apart_concat _ _ ?_ hc.2
  rintro rfl
  exact absurd hc.1 (by decide)

end

/-! ## Pieces -/

/-- The pieces between separators that hold code, without the blanks and comments around it. -/
def pieces (sep : Char) (t : Text) : List Text :=
  ((splitTopLevel sep t).map trimCode).filter fun piece => !piece.isEmpty

/-- A text that may stand between two separators. -/
structure IsPiece (sep : Char) (t : Text) : Prop where
  ne_nil : t ≠ []
  trimmed : trimCode t = t
  balanced : Balanced t
  free : FreeOf sep t

namespace IsPiece

variable {sep : Char} {t a b : Text}

theorem of_solid (hfirst : SolidStart t) (hlast : SolidEnd t) (hb : Balanced t)
    (hf : FreeOf sep t) : IsPiece sep t where
  ne_nil := hfirst.ne_nil
  trimmed := trimCode_eq_self hfirst hlast
  balanced := hb
  free := hf

/-- A plain text without blanks at its edges may stand between separators. -/
theorem of_plain (ht : t ≠ []) (hp : ∀ c ∈ t, isPlain c = true)
    (hfirst : ∀ c ∈ t.head?, isBlank c = false) (hlast : ∀ c ∈ t.getLast?, isBlank c = false)
    (hs : sep ∉ t) : IsPiece sep t :=
  have hsolid := solid_plain ht hp hfirst hlast
  of_solid hsolid.1 hsolid.2 (.of_plain hp) (.of_notMem hs)

/-- A text between quotes may stand between separators. -/
theorem between {q : Char} (hq : isQuote q = true) {body : Text} (h : QuotedBody q body) :
    IsPiece sep (q :: body ++ [q]) :=
  have hsolid := solid_between hq h
  of_solid hsolid.1 hsolid.2 (.of_quotedBody hq h) (.of_quotedBody hq h)

theorem quoted (t : Text) : IsPiece sep (quoted t) :=
  between rfl (quotedBody_flatMap_escapeChar t)

theorem brackets {o c : Char} (ho : isOpening o = true) (hc : isClosing c = true)
    (h : Balanced t) (hso : o ≠ sep) (hsc : c ≠ sep) : IsPiece sep (o :: t ++ [c]) :=
  have hsolid := solid_brackets ho hc h
  of_solid hsolid.1 hsolid.2 (.brackets ho hc h) (.brackets ho hc h hso hsc)

/-- The edges of a piece are solid. -/
theorem solid (h : IsPiece sep t) : SolidStart t ∧ SolidEnd t := by
  have hne : scan t ≠ [] := by
    intro hs
    have := textOf_scan t
    rw [hs] at this
    exact h.ne_nil this.symm
  have hlength : (trimEdges Visit.isSkipped (scan t)).length = (scan t).length := by
    have := congrArg List.length h.trimmed
    rwa [trimCode, length_textOf, ← length_scanFrom {} t] at this
  obtain ⟨hfirst, hlast⟩ := not_of_trimEdges hlength
  exact ⟨⟨_, List.head?_eq_some_head hne, hfirst _ (List.head?_eq_some_head hne)⟩,
    ⟨_, List.getLast?_eq_some_getLast hne, hlast _ (List.getLast?_eq_some_getLast hne)⟩⟩

/-- Two pieces are one piece with a balanced text without separators between them. -/
theorem join_balanced {m u : Text} (ht : IsPiece sep t) (hu : IsPiece sep u) (hm : Balanced m)
    (hf : FreeOf sep m) (htm : Apart t m) (hmu : Apart (t ++ m) u) : IsPiece sep (t ++ m ++ u) := by
  have hbal : Balanced (t ++ m) := ht.balanced.append hm htm
  have hfree : FreeOf sep (t ++ m) := ht.free.append ht.balanced hf htm
  refine .of_solid ?_ (hu.solid.2.append hbal hmu) (hbal.append hu.balanced hmu)
    (hfree.append hbal hu.free hmu)
  exact (ht.solid.1.append ht.balanced htm).append hbal hmu

/-- Two pieces with plain text between them are one piece. -/
theorem join {m u : Text} (ht : IsPiece sep t) (hu : IsPiece sep u) (hm : m ≠ [])
    (hplain : ∀ c ∈ m, IsSeparator c ∧ c ≠ sep) : IsPiece sep (t ++ m ++ u) :=
  ht.join_balanced hu (.of_plain fun c hc => (hplain c hc).1.1)
    (.of_notMem fun hc => (hplain sep hc).2 rfl) (apart_of_separators hm hplain t)
    (separators_apart hm hplain t u)

theorem freeOf_padded (h : IsPiece sep t) (ha : IsBlank a) (hb : IsBlank b)
    (hs : isBlank sep = false) : FreeOf sep (a ++ t ++ b) := by
  have hfree {a : Text} (ha : IsBlank a) : FreeOf sep a :=
    .of_notMem fun hmem => by
      rw [ha sep hmem] at hs
      cases hs
  have hat := (hfree ha).append ha.balanced h.free (ha.apart_left t)
  exact hat.append (ha.balanced.append h.balanced (ha.apart_left t)) (hfree hb) (hb.apart_right _)

end IsPiece

section

variable {sep : Char} {t a b : Text} (h : IsPiece sep t) (ha : IsBlank a) (hs : isBlank sep = false)
include h ha hs

/-- The first of several pieces. -/
theorem pieces_cons (hsep : IsSeparator sep) (u : Text) :
    pieces sep (a ++ t ++ sep :: u) = t :: pieces sep u := by
  have hbal : Balanced (a ++ t) := ha.balanced.append h.balanced (ha.apart_left t)
  have hfree : FreeOf sep (a ++ t) := by
    have := h.freeOf_padded ha IsBlank.nil hs
    rwa [List.append_nil] at this
  have htrim : trimCode (a ++ t) = t := by
    have := trimCode_between_blanks ha h.balanced IsBlank.nil
    rwa [List.append_nil, h.trimmed] at this
  rw [pieces, splitTopLevel_separator hsep hbal hfree, List.map_cons, htrim, List.filter_cons,
    if_pos (by simpa using h.ne_nil), pieces]

/-- The last piece, with the blanks in front of the closing bracket. -/
theorem pieces_last (hb : IsBlank b) : pieces sep (a ++ t ++ b) = [t] := by
  rw [pieces, splitTopLevel_last (h.freeOf_padded ha hb hs), List.map_singleton,
    trimCode_between_blanks ha h.balanced hb, h.trimmed, List.filter_cons,
    if_pos (by simpa using h.ne_nil), List.filter_nil]

end

/-- Blanks hold no pieces. -/
theorem pieces_blank {sep : Char} {a : Text} (ha : IsBlank a) (hs : isBlank sep = false) :
    pieces sep a = [] := by
  have hfree : FreeOf sep a := .of_notMem fun hmem => by
    rw [ha sep hmem] at hs
    cases hs
  rw [pieces, splitTopLevel_last hfree, List.map_singleton, trimCode_blank ha]
  rfl

/-! ## Lines -/

/-- Texts on lines of their own, a comma between two of them. -/
def commaLines (n : Nat) (ts : List Text) : Text :=
  [','].intercalate (ts.map fun t => '\n' :: Text.spaces n ++ t)

theorem commaLines_singleton (n : Nat) (t : Text) :
    commaLines n [t] = '\n' :: Text.spaces n ++ t := by
  simp [commaLines]

theorem commaLines_cons (n : Nat) (t : Text) {ts : List Text} (h : ts ≠ []) :
    commaLines n (t :: ts) = '\n' :: Text.spaces n ++ t ++ ',' :: commaLines n ts := by
  obtain ⟨u, ts, rfl⟩ := List.exists_cons_of_ne_nil h
  simp [commaLines, List.intercalate]

theorem commaLines_concat (n : Nat) {ts : List Text} (h : ts ≠ []) (t : Text) :
    commaLines n (ts ++ [t]) = commaLines n ts ++ ',' :: commaLines n [t] := by
  induction ts with
  | nil => exact absurd rfl h
  | cons u us ih =>
    by_cases hus : us = []
    · subst hus
      rw [List.singleton_append, commaLines_cons n u (by simp), commaLines_singleton n u]
    · rw [List.cons_append, commaLines_cons n u (by simp), commaLines_cons n u hus, ih hus]
      simp

/-- The pieces of such lines are the texts. -/
theorem pieces_commaLines {n : Nat} {ts : List Text} {b : Text} (h : ∀ t ∈ ts, IsPiece ',' t)
    (hb : IsBlank b) : pieces ',' (commaLines n ts ++ b) = ts := by
  have hline : IsBlank ('\n' :: Text.spaces n) := .newline (.spaces n)
  induction ts with
  | nil => exact pieces_blank hb rfl
  | cons t ts ih =>
    have ht : IsPiece ',' t := h t List.mem_cons_self
    have hrest := ih fun u hu => h u (List.mem_cons_of_mem _ hu)
    by_cases hts : ts = []
    · subst hts
      rw [commaLines_singleton]
      exact pieces_last ht hline rfl hb
    · have hsplit : commaLines n (t :: ts) ++ b =
          '\n' :: Text.spaces n ++ t ++ ',' :: (commaLines n ts ++ b) := by
        simp [commaLines_cons n t hts]
      rw [hsplit, pieces_cons ht hline rfl (by decide), hrest]

theorem balanced_commaLines {n : Nat} {ts : List Text} (h : ∀ t ∈ ts, IsPiece ',' t) :
    Balanced (commaLines n ts) := by
  have hline : IsBlank ('\n' :: Text.spaces n) := .newline (.spaces n)
  induction ts with
  | nil => exact .nil
  | cons t ts ih =>
    have ht : Balanced ('\n' :: Text.spaces n ++ t) :=
      hline.balanced.append (h t List.mem_cons_self).balanced (hline.apart_left t)
    have hrest := ih fun u hu => h u (List.mem_cons_of_mem _ hu)
    by_cases hts : ts = []
    · subst hts
      rw [commaLines_singleton]
      exact ht
    · rw [commaLines_cons n t hts]
      have hcomma : Balanced (',' :: commaLines n ts) :=
        (Balanced.of_plain (t := [',']) (by decide)).append hrest
          (apart_concat (c := ',') [] _ (by decide) (by decide))
      exact ht.append hcomma (apart_separator (by decide) _ _)

/-- Texts between blanks, each with a separator behind it. -/
def endedLines (sep : Char) (a b : Text) (ts : List Text) : Text :=
  ts.flatMap fun t => a ++ t ++ sep :: b

section

variable {sep : Char} {a b : Text} {ts : List Text} (hsep : IsSeparator sep)
  (h : ∀ t ∈ ts, IsPiece sep t) (ha : IsBlank a) (hb : IsBlank b)
include hsep h ha hb

theorem balanced_endedLines : Balanced (endedLines sep a b ts) := by
  induction ts with
  | nil => exact .nil
  | cons t ts ih =>
    have hrest := ih fun u hu => h u (List.mem_cons_of_mem _ hu)
    have hline : Balanced (a ++ t) :=
      ha.balanced.append (h t List.mem_cons_self).balanced (ha.apart_left t)
    have hend : Balanced (sep :: b) := .of_plain fun c hc => by
      rcases List.mem_cons.1 hc with rfl | hc
      · exact hsep.1
      · exact hb.plain c hc
    have hapart : Apart (sep :: b) (endedLines sep a b ts) := by
      refine apart_of_plain (fun c hc => ?_) fun hstar => ?_
      · rcases List.mem_cons.1 hc with rfl | hc
        · exact hsep.1
        · exact hb.plain c hc
      · rcases List.mem_cons.1 (List.mem_of_getLast? hstar) with hc | hc
        · exact absurd hc.symm hsep.2
        · exact absurd (hb _ hc) (by decide)
    have hsplit : endedLines sep a b (t :: ts) =
        (a ++ t) ++ ((sep :: b) ++ endedLines sep a b ts) := by
      simp [endedLines]
    rw [hsplit]
    exact hline.append (hend.append hrest hapart) (apart_separator hsep _ _)

end

/-! ## Openings -/

/-- The first bracket or brace stands behind a balanced text without any. -/
theorem breakAtOpening?_append {t : Text} (hb : Balanced t) (ht : '[' ∉ t ∧ '\x7b' ∉ t) (u : Text) :
    breakAtOpening? (t ++ '\x7b' :: u) = some (t, '\x7b' :: u) := by
  have hmem : ∀ v ∈ scan t,
      (v.lexeme == .code && (v.char == '[' || v.char == '\x7b')) = false := by
    intro v hv
    have hchar : v.char ∈ t := by
      have : v.char ∈ textOf (scan t) := List.mem_map_of_mem hv
      rwa [textOf_scan] at this
    have h₁ : v.char ≠ '[' := fun hc => ht.1 (hc ▸ hchar)
    have h₂ : v.char ≠ '\x7b' := fun hc => ht.2 (hc ▸ hchar)
    simp [h₁, h₂]
  have hopen : scan ('\x7b' :: u) = ⟨'\x7b', .code, 0⟩ :: scanFrom { depth := 1 } u :=
    scan_opening rfl u
  have hscan : scan (t ++ '\x7b' :: u) =
      scan t ++ ⟨'\x7b', .code, 0⟩ :: scanFrom { depth := 1 } u := by
    rw [hb.scan_append (apart_cons t u (by decide) (by decide)), hopen]
  have htext : textOf (⟨'\x7b', .code, 0⟩ :: scanFrom { depth := 1 } u) = '\x7b' :: u := by
    rw [← hopen, textOf_scan]
  rw [breakAtOpening?, hscan]
  simp only
  rw [breakAt?_append hmem rfl, Option.map_some, textOf_scan, htext]

end Script

end Scaffold
