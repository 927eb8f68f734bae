import Mathlib.Data.List.TakeWhile
import Scaffold.Proofs.Script.Entries
import Scaffold.Proofs.Text.Search

/-!
# From clauses

The module of an import statement is the first `from` clause on its last line, which may stand
anywhere on that line.  It does not change when the text between the braces on the line does, as
long as no clause opens there (`fromClause?_braces`); the clause in front of the braces may not run
into them, which a module without braces excludes.
-/

namespace Scaffold.Script

/-- A quote of a clause. -/
def isClauseMark (c : Char) : Bool := c == '\'' || c == '"'

/-- The word of a clause. -/
def fromWord : Text := "from"

/-! ## One clause -/

/-- What opens a clause: the word, blanks and a quote. -/
def IsOpening (g : Text) : Prop :=
  ∃ b q, b ≠ [] ∧ IsBlank b ∧ isClauseMark q = true ∧ g = fromWord ++ b ++ [q]

/-- A module name as it stands in a clause, with the quote behind it. -/
def IsQuoted (name g : Text) : Prop :=
  name ≠ [] ∧ (∀ c ∈ name, isClauseMark c = false) ∧ ∃ q, isClauseMark q = true ∧ g = name ++ [q]

theorem isBlank_of_clauseMark {c : Char} (h : isClauseMark c = true) : isBlank c = false := by
  rcases (by simpa [isClauseMark] using h : c = '\'' ∨ c = '"') with rfl | rfl <;> rfl

/-- What stands in front of the first quote. -/
def unmarked (t : Text) : Text := t.takeWhile (!isClauseMark ·)

theorem unmarked_append_of_unmarked {u : Text} (h : ∀ c ∈ u, isClauseMark c = false) (t : Text) :
    unmarked (u ++ t) = u ++ unmarked t :=
  List.takeWhile_append_of_pos fun c hc => by simp [h c hc]

theorem unmarked_append {name : Text} (hname : ∀ c ∈ name, isClauseMark c = false) {q : Char}
    (hq : isClauseMark q = true) (tail : Text) : unmarked (name ++ q :: tail) = name := by
  rw [unmarked_append_of_unmarked hname, unmarked, List.takeWhile_cons_of_neg (by simp [hq]),
    List.append_nil]

theorem isClauseMark_of_mem_unmarked {t : Text} {c : Char} (h : c ∈ unmarked t) :
    isClauseMark c = false := by
  simpa using List.all_eq_true.1 List.all_takeWhile c h

/-- A quote stands behind a name that is not the whole text. -/
theorem exists_mark_of_length_lt {t : Text} (h : (unmarked t).length < t.length) :
    ∃ q tail, isClauseMark q = true ∧ t = unmarked t ++ q :: tail := by
  rcases exists_first_of_not_forall (p := (!isClauseMark ·)) t with hall |
    ⟨name, q, tail, rfl, hq, hname⟩
  · rw [unmarked, List.takeWhile_eq_self_iff.2 hall] at h
    exact absurd h (Nat.lt_irrefl _)
  · have hmark : isClauseMark q = true := by simpa using hq
    rw [unmarked_append (by simpa using hname) hmark]
    exact ⟨q, tail, hmark, rfl⟩

theorem length_unmarked_lt_iff {t : Text} :
    (unmarked t).length < t.length ↔ t.any isClauseMark = true := by
  rw [List.any_eq_true]
  constructor
  · intro h
    obtain ⟨q, tail, hq, heq⟩ := exists_mark_of_length_lt h
    exact ⟨q, heq ▸ List.mem_append_right _ List.mem_cons_self, hq⟩
  · rintro ⟨q, hmem, hq⟩
    by_contra hle
    have hall : unmarked t = t := (List.takeWhile_prefix _).eq_of_length_le (Nat.not_lt.1 hle)
    have := isClauseMark_of_mem_unmarked (hall.symm ▸ hmem : q ∈ unmarked t)
    simp [hq] at this

/-- What stands behind a quote does not count. -/
theorem unmarked_append_of_mark {t : Text} (h : t.any isClauseMark = true) (u : Text) :
    unmarked (t ++ u) = unmarked t := by
  obtain ⟨q, tail, hq, heq⟩ := exists_mark_of_length_lt (length_unmarked_lt_iff.2 h)
  calc unmarked (t ++ u)
      = unmarked (unmarked t ++ q :: (tail ++ u)) := by
        rw [← List.cons_append, ← List.append_assoc, ← heq]
    _ = unmarked t := unmarked_append (fun c => isClauseMark_of_mem_unmarked) hq _

/-- Behind the word stand blanks and a name between quotes. -/
theorem fromClauseAt?_word (t : Text) :
    fromClauseAt? (fromWord ++ t) =
      match t.dropWhile isBlank with
      | [] => none
      | q :: rest =>
        if t.head?.any isBlank && isClauseMark q && !(unmarked rest).isEmpty &&
            (unmarked rest).length < rest.length then
          some (unmarked rest)
        else none := by
  have hword : "from".toList.isPrefixOf? (fromWord ++ t) = some t :=
    Text.isPrefixOf?_append fromWord t
  rw [fromClauseAt?, hword]
  rfl

/-- Behind an opening stands a clause when a quote does, but not at once. -/
theorem fromClauseAt?_opening {g : Text} (hg : IsOpening g) (t : Text) :
    fromClauseAt? (g ++ t) =
      if !(unmarked t).isEmpty && t.any isClauseMark then some (unmarked t) else none := by
  obtain ⟨b, q, hb, hblank, hq, rfl⟩ := hg
  have hdrop : (b ++ q :: t).dropWhile isBlank = q :: t := by
    rw [List.dropWhile_append_of_pos hblank,
      List.dropWhile_cons_of_neg (by simp [isBlank_of_clauseMark hq])]
  have hhead : (b ++ q :: t).head?.any isBlank = true := by
    obtain ⟨c, b, rfl⟩ := List.exists_cons_of_ne_nil hb
    exact hblank c List.mem_cons_self
  rw [List.append_assoc, List.append_assoc, List.singleton_append, fromClauseAt?_word, hdrop]
  simp only [hhead, hq, Bool.true_and, Bool.and_eq_true, decide_eq_true_eq, length_unmarked_lt_iff]

theorem fromClauseAt?_append {g name n : Text} (hg : IsOpening g) (hn : IsQuoted name n)
    (tail : Text) : fromClauseAt? (g ++ n ++ tail) = some name := by
  obtain ⟨hne, hname, q, hq, rfl⟩ := hn
  rw [List.append_assoc, List.append_assoc, List.singleton_append, fromClauseAt?_opening hg,
    unmarked_append hname hq, if_pos (by simp [hne, hq])]

/-- The clauses that start a text. -/
theorem fromClauseAt?_eq_some_iff {t name : Text} :
    fromClauseAt? t = some name ↔ ∃ g n tail, IsOpening g ∧ IsQuoted name n ∧ t = g ++ n ++ tail := by
  refine ⟨fun h => ?_, fun ⟨g, n, tail, hg, hn, ht⟩ => ht ▸ fromClauseAt?_append hg hn tail⟩
  obtain ⟨u, rfl⟩ : ∃ u, t = fromWord ++ u := by
    obtain ⟨u, hu, -⟩ := Option.bind_eq_some_iff.1 h
    exact ⟨u, (Text.append_of_isPrefixOf? hu).symm⟩
  rw [fromClauseAt?_word] at h
  split at h
  · cases h
  next q rest hrest =>
  split at h
  · next hcond =>
    simp only [Bool.and_eq_true, decide_eq_true_eq] at hcond
    obtain ⟨⟨⟨hblank, hq⟩, hne⟩, hlength⟩ := hcond
    obtain rfl := Option.some.inj h
    obtain ⟨q', tail, hq', heq⟩ := exists_mark_of_length_lt hlength
    have hb : u.takeWhile isBlank ≠ [] := by
      cases u with
      | nil => cases hblank
      | cons c u =>
        have hc : isBlank c = true := hblank
        rw [List.takeWhile_cons_of_pos hc]
        exact List.cons_ne_nil _ _
    have hu : u = u.takeWhile isBlank ++ q :: (unmarked rest ++ q' :: tail) := by
      rw [← heq, ← hrest, List.takeWhile_append_dropWhile]
    refine ⟨fromWord ++ u.takeWhile isBlank ++ [q], unmarked rest ++ [q'], tail,
      ⟨_, q, hb, List.all_eq_true.1 List.all_takeWhile, hq, rfl⟩,
      ⟨by simpa using hne, fun c => isClauseMark_of_mem_unmarked, q', hq', rfl⟩, ?_⟩
    refine (congrArg (fromWord ++ ·) hu).trans ?_
    simp
  · cases h

/-! ## Openings -/

/-- A character that stands in no opening of a clause. -/
def IsOutside (c : Char) : Prop := c ∉ fromWord ∧ isBlank c = false ∧ isClauseMark c = false

instance (c : Char) : Decidable (IsOutside c) := inferInstanceAs (Decidable (_ ∧ _))

theorem IsOpening.notMem {g : Text} (h : IsOpening g) {c : Char} (hc : IsOutside c) : c ∉ g := by
  obtain ⟨b, q, -, hb, hq, rfl⟩ := h
  intro hmem
  rw [List.mem_append, List.mem_append, List.mem_singleton] at hmem
  rcases hmem with (hmem | hmem) | rfl
  · exact hc.1 hmem
  · exact absurd (hb c hmem) (by simp [hc.2.1])
  · exact absurd hq (by simp [hc.2.2])

/-- A `from` clause opens somewhere in the text. -/
def HasOpening (t : Text) : Prop := ∃ g, IsOpening g ∧ g <:+: t

theorem HasOpening.mono {t u : Text} (h : HasOpening t) (htu : t <:+: u) : HasOpening u := by
  obtain ⟨g, hg, hwithin⟩ := h
  exact ⟨g, hg, hwithin.trans htu⟩

/-- No clause opens across a character that stands in no opening. -/
theorem HasOpening.of_append_cons {t u : Text} {c : Char} (hc : IsOutside c)
    (h : HasOpening (t ++ c :: u)) : HasOpening t ∨ HasOpening u := by
  obtain ⟨g, hg, hwithin⟩ := h
  have hcontains := Text.contains_eq_true_iff.2 hwithin
  rw [Text.contains_append_cons (hg.notMem hc), Bool.or_eq_true, Text.contains_eq_true_iff,
    Text.contains_eq_true_iff] at hcontains
  exact hcontains.imp (fun h => ⟨g, hg, h⟩) fun h => ⟨g, hg, h⟩

/-- What stands in front of a character that it does not hold is part of what stands in front of
that character. -/
theorem exists_eq_append_of_notMem {α : Type} {c : α} {a g x tail : List α}
    (h : a ++ c :: x = g ++ tail) (hg : c ∉ g) : ∃ a', a = g ++ a' ∧ tail = a' ++ c :: x := by
  rcases List.append_eq_append_iff.1 h with ⟨k, rfl, hk⟩ | ⟨k, rfl, rfl⟩
  · cases k with
    | nil => exact ⟨[], by simp, by simpa using hk.symm⟩
    | cons d k =>
      obtain ⟨rfl, -⟩ := List.cons.inj hk
      exact absurd (by simp) hg
  · exact ⟨k, rfl, rfl⟩

/-- Blanks around a text open no clause. -/
theorem HasOpening.of_padded {a t b : Text} (ha : IsBlank a) (hb : IsBlank b)
    (h : HasOpening (a ++ t ++ b)) : HasOpening t := by
  obtain ⟨g, hg, p, s, heq⟩ := h
  obtain ⟨k, hk⟩ : ∃ k, t ++ b = k ++ g ++ s := by
    obtain ⟨c, q, -, -, -, hform⟩ := hg
    have hf : 'f' ∉ a := fun hmem => absurd (ha _ hmem) (by decide)
    have hsplit : p ++ 'f' :: ("rom".toList ++ c ++ [q] ++ s) = a ++ (t ++ b) := by
      rw [← List.append_assoc, ← heq, hform]
      simp [fromWord]
    obtain ⟨k, -, hk⟩ := exists_eq_append_of_notMem hsplit hf
    refine ⟨k, hk.trans ?_⟩
    rw [hform]
    simp [fromWord]
  rcases List.append_eq_append_iff.1 hk with ⟨l, hl, hbl⟩ | ⟨l, rfl, -⟩
  · rcases List.eq_nil_or_concat l with rfl | ⟨l, q', rfl⟩
    · exact ⟨g, hg, k, [], by simpa using hl⟩
    · obtain ⟨c, q, -, -, hq, rfl⟩ := hg
      have hlast := congrArg List.getLast? hl
      rw [List.concat_eq_append] at hlast hbl
      obtain rfl : q = q' := by simpa [← List.append_assoc] using hlast
      have := hb q (by rw [hbl]; simp)
      rw [isBlank_of_clauseMark hq] at this
      cases this
  · exact ⟨g, hg, k, l, rfl⟩

theorem HasOpening.exists_mark {t : Text} (h : HasOpening t) : ∃ q ∈ t, isClauseMark q = true := by
  obtain ⟨g, ⟨b, q, -, -, hq, rfl⟩, hwithin⟩ := h
  exact ⟨q, hwithin.subset (by simp), hq⟩

/-! ## The first clause -/

theorem fromClause?_cons (c : Char) (t : Text) :
    fromClause? (c :: t) = (fromClauseAt? (c :: t)).orElse fun _ => fromClause? t := rfl

/-- A text that opens no clause has none in front of a character that stands in no opening. -/
theorem fromClause?_append_cons {t : Text} (h : ¬ HasOpening t) {c : Char} (hc : IsOutside c)
    (u : Text) : fromClause? (t ++ c :: u) = fromClause? u := by
  have hnone {t : Text} (h : ¬ HasOpening t) : fromClauseAt? (t ++ c :: u) = none := by
    refine Option.eq_none_iff_forall_ne_some.2 fun name hname => h ?_
    obtain ⟨g, n, tail, hg, -, heq⟩ := fromClauseAt?_eq_some_iff.1 hname
    rw [List.append_assoc] at heq
    obtain ⟨k, rfl, -⟩ := exists_eq_append_of_notMem heq (hg.notMem hc)
    exact ⟨g, hg, (List.prefix_append _ _).isInfix⟩
  induction t with
  | nil =>
    rw [List.nil_append, fromClause?_cons, ← List.nil_append (c :: u), hnone h]
    rfl
  | cons d t ih =>
    rw [List.cons_append, fromClause?_cons, ← List.cons_append, hnone h]
    exact ih fun ht => h (ht.mono (List.suffix_cons d t).isInfix)

section

variable {c : Char} (hc : IsOutside c) {x y : Text}
  (hmarks : (∃ q ∈ y, isClauseMark q = true) → ∃ q ∈ x, isClauseMark q = true)
include hc hmarks

/-- The clause that starts a text changes with what stands behind a character only when its module
has the character. -/
theorem fromClauseAt?_congr {a : Text} (h : ∀ m ∈ fromClauseAt? (a ++ c :: x), c ∉ m) :
    fromClauseAt? (a ++ c :: y) = fromClauseAt? (a ++ c :: x) := by
  by_cases hopen : ∃ g k, IsOpening g ∧ a = g ++ k
  · obtain ⟨g, k, hg, rfl⟩ := hopen
    rw [List.append_assoc, fromClauseAt?_opening hg] at h
    rw [List.append_assoc, List.append_assoc, fromClauseAt?_opening hg, fromClauseAt?_opening hg]
    cases hmark : k.any isClauseMark with
    | true => simp only [unmarked_append_of_mark hmark, List.any_append, hmark, Bool.true_or]
    | false =>
      -- a module would have the character, so no quote stands behind it
      have hk : ∀ d ∈ k, isClauseMark d = false := fun d hd => by
        simpa using List.any_eq_false.1 hmark d hd
      have hthrough (t : Text) : unmarked (k ++ c :: t) = k ++ c :: unmarked t := by
        rw [unmarked_append_of_unmarked hk, unmarked, List.takeWhile_cons_of_pos (by simp [hc.2.2]),
          unmarked]
      have hbehind (t : Text) : (!(unmarked (k ++ c :: t)).isEmpty && (k ++ c :: t).any isClauseMark) =
          t.any isClauseMark := by
        simp [hthrough, hmark, hc.2.2]
      rw [hbehind] at h
      rw [hbehind, hbehind]
      have hx : ¬ x.any isClauseMark = true := fun hx =>
        h _ (if_pos hx) (by simp [hthrough])
      rw [if_neg hx, if_neg]
      simpa using mt hmarks (by simpa using hx)
  · have hnone (t : Text) : fromClauseAt? (a ++ c :: t) = none := by
      refine Option.eq_none_iff_forall_ne_some.2 fun name hname => hopen ?_
      obtain ⟨g, n, tail, hg, -, heq⟩ := fromClauseAt?_eq_some_iff.1 hname
      rw [List.append_assoc] at heq
      obtain ⟨k, rfl, -⟩ := exists_eq_append_of_notMem heq (hg.notMem hc)
      exact ⟨g, k, hg, rfl⟩
    rw [hnone, hnone]

/-- Behind a character the text may change when the clauses in it do not, unless the module of the
first clause has the character. -/
theorem fromClause?_congr (hxy : fromClause? y = fromClause? x) {a : Text}
    (h : ∀ m ∈ fromClause? (a ++ c :: x), c ∉ m) :
    fromClause? (a ++ c :: y) = fromClause? (a ++ c :: x) := by
  have hempty : ¬ HasOpening [] := fun hopen => by
    obtain ⟨q, hq, -⟩ := hopen.exists_mark
    cases hq
  induction a with
  | nil =>
    have hx := fromClause?_append_cons hempty hc x
    have hy := fromClause?_append_cons hempty hc y
    rw [hx, hy, hxy]
  | cons d a ih =>
    rw [List.cons_append, fromClause?_cons] at h
    rw [List.cons_append, List.cons_append, fromClause?_cons, fromClause?_cons]
    have hfirst : fromClauseAt? (d :: (a ++ c :: y)) = fromClauseAt? (d :: (a ++ c :: x)) := by
      refine fromClauseAt?_congr hc hmarks (a := d :: a) fun m hm => h m ?_
      rw [List.cons_append] at hm
      rw [hm]
      rfl
    rw [hfirst]
    cases hx : fromClauseAt? (d :: (a ++ c :: x)) with
    | some m => rfl
    | none =>
      rw [hx] at h
      exact ih h

end

/-! ## Braces -/

theorem isOutside_of_closing {c : Char} (h : isClosing c = true) : IsOutside c := by
  rcases (by simpa [isClosing] using h : (c = ']' ∨ c = '\x7d') ∨ c = ')') with (rfl | rfl) | rfl <;>
    decide

theorem isOutside_brace : IsOutside '\x7b' := by decide

/-- The first clause of a line does not depend on what stands between the braces, when no clause
opens there. -/
theorem fromClause?_braces {head inner inner' rest : Text} {c c' : Char} (hc : isClosing c = true)
    (hc' : isClosing c' = true) (hopen : ¬ HasOpening inner) (hopen' : ¬ HasOpening inner')
    (hmarks : (∃ q ∈ inner', isClauseMark q = true) → ∃ q ∈ inner, isClauseMark q = true)
    (h : ∀ m ∈ fromClause? (head ++ '\x7b' :: (inner ++ c :: rest)), '\x7b' ∉ m) :
    fromClause? (head ++ '\x7b' :: (inner' ++ c' :: rest)) =
      fromClause? (head ++ '\x7b' :: (inner ++ c :: rest)) := by
  have hmarks' : (∃ q ∈ inner' ++ c' :: rest, isClauseMark q = true) →
      ∃ q ∈ inner ++ c :: rest, isClauseMark q = true := by
    rintro ⟨q, hmem, hq⟩
    rw [List.mem_append, List.mem_cons] at hmem
    rcases hmem with hmem | rfl | hmem
    · obtain ⟨q, hmem, hq⟩ := hmarks ⟨q, hmem, hq⟩
      exact ⟨q, List.mem_append_left _ hmem, hq⟩
    · rw [(isOutside_of_closing hc').2.2] at hq
      cases hq
    · exact ⟨q, List.mem_append_right _ (List.mem_cons_of_mem _ hmem), hq⟩
  refine fromClause?_congr isOutside_brace hmarks' ?_ h
  rw [fromClause?_append_cons hopen (isOutside_of_closing hc),
    fromClause?_append_cons hopen' (isOutside_of_closing hc')]

/-- Names on one line open no clause when no name does. -/
theorem not_hasOpening_nameList {ts : List Text} {a b : Text} (ha : IsBlank a) (hb : IsBlank b)
    (hts : ∀ t ∈ ts, ¬ HasOpening t) : ¬ HasOpening (a ++ Document.nameList ts ++ b) := by
  intro h
  have hlist := h.of_padded ha hb
  clear h
  induction ts with
  | nil =>
    obtain ⟨q, hq, -⟩ := hlist.exists_mark
    cases hq
  | cons t ts ih =>
    obtain ⟨ht, hrest⟩ := List.forall_mem_cons.1 hts
    cases ts with
    | nil => exact ht (by simpa [Document.nameList] using hlist)
    | cons u ts =>
      rw [nameList_cons] at hlist
      rcases hlist.of_append_cons (by decide) with hlist | hlist
      · exact ht hlist
      · refine ih hrest (HasOpening.of_padded (a := [' ']) (b := []) (.spaces 1) .nil ?_)
        simpa using hlist

theorem not_hasOpening_namesLine {ts : List Text} (hts : ∀ t ∈ ts, ¬ HasOpening t) :
    ¬ HasOpening (namesLine ts) :=
  not_hasOpening_nameList (.spaces 1) (.spaces 1) hts

/-- The clause behind the braces of a written statement. -/
theorem fromClause?_statement {head modulePath : Text} (hhead : ¬ HasOpening head)
    (hne : modulePath ≠ []) (hplain : ∀ c ∈ modulePath, isClauseMark c = false) :
    fromClause? (head ++ '\x7d' :: (" from '".toList ++ modulePath ++ "';".toList)) =
      some modulePath := by
  have hclause : fromClauseAt? ("from '".toList ++ modulePath ++ "';".toList) = some modulePath :=
    fromClauseAt?_eq_some_iff.2 ⟨"from '".toList, modulePath ++ ['\''], [';'],
      ⟨[' '], '\'', by simp, .spaces 1, rfl, rfl⟩, ⟨hne, hplain, '\'', rfl, rfl⟩, by simp⟩
  rw [fromClause?_append_cons hhead (by decide)]
  show (fromClauseAt? ("from '".toList ++ modulePath ++ "';".toList)).orElse _ = _
  rw [hclause]
  rfl

end Scaffold.Script
