import Scaffold.Proofs.Script.Array
import Scaffold.Proofs.Script.Statement

/-!
# Adding an import

Names are added to the first statement that imports names from the module (`Importing`).  The reader
finds it again at the same place, between the same lines, as long as its last line has the same
`from` clause (`Importing.exists_braces`), and it has, unless a clause opens inside the braces
(`exists_mergeNames`).  A statement that is added behind the last one, or at the top, is found there
(`exists_insertImport`).  So the names are imported afterwards, and a second call changes nothing
(`addImport_merges`).
-/

namespace Scaffold.Script

namespace ImportStatement

/-- The braces of a statement that imports names from a module. -/
def namesFrom? (modulePath : Text) (s : ImportStatement) : Option Region :=
  if s.modulePath == some modulePath then s.names else none

theorem namesFrom?_eq_some_iff {modulePath : Text} {s : ImportStatement} {r : Region} :
    s.namesFrom? modulePath = some r ↔ s.modulePath = some modulePath ∧ s.names = some r := by
  rw [namesFrom?]
  split
  · next h => simp [(by simpa using h : s.modulePath = some modulePath)]
  · next h =>
    exact iff_of_false (by simp) fun ⟨hm, _⟩ => h (by simp [hm])

/-! ## Changed lines -/

/-- What stands behind the first brace of a line does not decide whether it starts a statement. -/
theorem starts_brace (head u v : Text) :
    starts (head ++ '\x7b' :: u) = starts (head ++ '\x7b' :: v) := by
  have htrim (w : Text) : Text.trimStart (head ++ '\x7b' :: w) =
      head.dropWhile isBlank ++ '\x7b' :: w := by
    rw [Text.trimStart, List.dropWhile_append]
    split
    · next h =>
      rw [List.isEmpty_iff.1 h]
      rfl
    · rfl
  rw [starts, starts, htrim, htrim, Text.isPrefixOf_append_cons (by decide) _ u v,
    Text.isPrefixOf_append_cons (by decide) _ u v]

theorem starts_braceLines {head inner rest : Text} {c : Char} (hhead : '\n' ∉ head)
    (h : ∀ line ∈ (braceLines head inner c rest).head?, starts line = true) (inner' : Text)
    (c' : Char) :
    ∀ line ∈ (braceLines head inner' c' rest).head?, starts line = true := by
  have hline (inner : Text) (c : Char) : ∃ u, (braceLines head inner c rest).head? =
      some (head ++ '\x7b' :: u) := by
    obtain ⟨l, ls, -, hl⟩ := exists_lines_brace hhead (inner ++ c :: rest)
    exact ⟨l, by rw [braceLines_eq, hl]; simp⟩
  obtain ⟨u, hu⟩ := hline inner c
  obtain ⟨v, hv⟩ := hline inner' c'
  intro line hmem
  rw [hv] at hmem
  obtain rfl := Option.some.inj hmem
  rw [starts_brace head v u]
  exact h _ hu

/-- The clause of a statement stands on the line that it takes, or on the last of its own. -/
theorem lastClause_append (core next : List Text) :
    lastClause (core ++ next) = if next = [] then lastClause core else lastClause next := by
  rw [lastClause, List.getLast?_append]
  cases hnext : next.getLast? with
  | none =>
    rw [if_pos (List.getLast?_eq_none_iff.1 hnext)]
    rfl
  | some line =>
    have hne : next ≠ [] := by
      rintro rfl
      cases hnext
    rw [if_neg hne, lastClause, hnext]
    rfl

end ImportStatement

end Scaffold.Script

namespace Scaffold.Document

open Script ImportStatement

/-! ## Statements of a file -/

/-- The first statement that imports names from a module: its braces, and the lines around it. -/
def Importing (d : Document) (modulePath : Text) (braces : Region) (before after : List Text) :
    Prop :=
  ∃ early s late, ofDocument d = .ok (early ++ s :: late) ∧
    (∀ t ∈ early, t.namesFrom? modulePath = none) ∧ s.namesFrom? modulePath = some braces ∧
    before = d.lines.take braces.startLine ∧ after = d.lines.drop (s.endLine + 1)

/-- No statement imports names from a module. -/
def NotImporting (d : Document) (modulePath : Text) : Prop :=
  ∃ ss, ofDocument d = .ok ss ∧ ∀ s ∈ ss, s.namesFrom? modulePath = none

/-- Where the first statement that imports names from a module stands among the lines. -/
theorem importing_iff {d : Document} (hd : AreLines d.lines) {modulePath : Text} {r : Region}
    {before after : List Text} :
    Importing d modulePath r before after ↔
      ∃ core next early late, d.lines = before ++ (core ++ (next ++ after)) ∧
        IsStatement after before core next (some r) ∧ lastClause (core ++ next) = some modulePath ∧
        Collects (core ++ (next ++ after)) [] before early ∧
        (∀ t ∈ early, t.namesFrom? modulePath = none) ∧
        Collects [] (before ++ (core ++ next)) after late := by
  have hplace {front core next back : List Text}
      (hlines : d.lines = front ++ (core ++ (next ++ back))) (hcore : IsCore front core (some r)) :
      d.lines.take r.startLine = front ∧
        d.lines.drop ((between front core next (some r)).endLine + 1) = back := by
    rw [endLine_between front hcore.ne_nil]
    cases hcore with
    | @braces head inner rest c hhead hrest hc hbal =>
      have hfront : AreLines front := fun line hline => hd line (by rw [hlines]; simp [hline])
      have hsplit : front ++ (braceLines head inner c rest ++ (next ++ back)) =
          front ++ (braceLines head inner c rest ++ next) ++ back := by
        simp
      rw [(at_lines hfront hhead.2 c).1, hlines]
      exact ⟨List.take_left, by rw [hsplit, List.drop_left]⟩
  constructor
  · rintro ⟨early, s, late, hstatements, hfirst, hs, rfl, rfl⟩
    obtain ⟨hmodule, hnames⟩ := namesFrom?_eq_some_iff.1 hs
    obtain ⟨front, core, next, back, names, hlines, rfl, hstatement, hearly, hlate⟩ :=
      ((ofDocument_eq_ok_iff hd).1 hstatements).exists_statement
    obtain rfl : names = some r := hnames
    simp only [List.append_nil, List.nil_append] at hstatement hearly hlate hlines ⊢
    obtain ⟨hbefore, hafter⟩ := hplace hlines hstatement.isCore
    rw [hbefore, hafter]
    exact ⟨core, next, early, late, hlines, hstatement, hmodule, hearly, hfirst, hlate⟩
  · rintro ⟨core, next, early, late, hlines, hstatement, hmodule, hearly, hfirst, hlate⟩
    obtain ⟨hbefore, hafter⟩ := hplace hlines hstatement.isCore
    refine ⟨early, between before core next (some r), late, (ofDocument_eq_ok_iff hd).2 ?_, hfirst,
      namesFrom?_eq_some_iff.2 ⟨hmodule, rfl⟩, hbefore.symm, hafter.symm⟩
    rw [hlines]
    refine .append (by simpa using hearly) (.statement ?_ hlate)
    simpa using hstatement

/-- The braces of a statement that imports names from a module, and the lines around them.  Other
braces at their place are found as well when they leave the clause on the last line as it is. -/
theorem Importing.exists_braces {d : Document} (hd : AreLines d.lines) {modulePath : Text}
    {r : Region} {before after : List Text} (h : Importing d modulePath r before after) :
    ∃ head inner c rest next, '\n' ∉ head ∧ '\n' ∉ rest ∧ isClosing c = true ∧
      Balanced inner ∧ r = .at (textOfLines before ++ head) ('\x7b' :: inner ++ [c]) ∧
      d.lines = before ++ (braceLines head inner c rest ++ (next ++ after)) ∧
      (∀ m ∈ lastClause (braceLines head inner c rest), m = modulePath) ∧
      ∀ inner' c' (e : Document), isClosing c' = true → Balanced inner' →
        lastClause (braceLines head inner' c' rest) = lastClause (braceLines head inner c rest) →
        e.lines = before ++ (braceLines head inner' c' rest ++ (next ++ after)) →
        Importing e modulePath (.at (textOfLines before ++ head) ('\x7b' :: inner' ++ [c'])) before
          after := by
  obtain ⟨core, next, early, late, hlines, hstatement, hmodule, hearly, hfirst, hlate⟩ :=
    (importing_iff hd).1 h
  obtain ⟨hopens, hcore, htakes⟩ := hstatement
  rw [lastClause_append] at hmodule
  cases hcore with
  | @braces head inner rest c hhead hrest hc hbal =>
  refine ⟨head, inner, c, rest, next, hhead.2, hrest, hc, hbal, rfl, hlines, ?_, ?_⟩
  · intro m hm
    -- a statement with a clause on its own lines takes no further one
    have hnext : next = [] := by
      rw [← htakes, follow, hm, Option.isNone_some]
      rfl
    rw [if_pos hnext, hm] at hmodule
    exact Option.some.inj hmodule
  · intro inner' c' e hc' hbal' hclause hlines'
    have he : AreLines e.lines := by
      intro line hline
      rw [hlines'] at hline
      rw [hlines] at hd
      simp only [List.mem_append] at hline
      rcases hline with hline | hline | hline | hline
      · exact hd line (by simp [hline])
      · exact areLines_lines _ line hline
      · exact hd line (by simp [hline])
      · exact hd line (by simp [hline])
    have hopens' := starts_braceLines hhead.2 hopens inner' c'
    obtain ⟨late', hlate'⟩ := hlate.exists_move (before ++ (braceLines head inner' c' rest ++ next))
    refine (importing_iff he).2 ⟨_, next, early, late', hlines',
      ⟨hopens', .braces hhead hrest hc' hbal', ?_⟩, ?_, hearly.of_back ?_, hfirst, hlate'⟩
    · rw [follow, hclause]
      exact htakes
    · rw [lastClause_append, hclause]
      exact hmodule
    · -- the statements in front end there, because this line starts another one
      intro line hline
      refine goesOn_of_starts (hopens' line ?_)
      rwa [List.head?_append_of_ne_nil (braceLines head inner' c' rest) (Text.lines_ne_nil _)] at hline

/-! ## Text between lines -/

theorem areLines_ofContent (path : Path) (t : Text) : AreLines (ofContent path t).lines :=
  newline_notMem_ofContent path t

/-- The text of lines with braces. -/
theorem lines_braces {before back : List Text} (hbefore : AreLines before) (hback : AreLines back)
    (head inner : Text) (c : Char) (rest : Text) :
    Text.lines (textOfLines before ++ head ++ ('\x7b' :: inner ++ [c]) ++
      (rest ++ back.flatMap ('\n' :: ·))) = before ++ (braceLines head inner c rest ++ back) := by
  have hsplit : textOfLines before ++ head ++ ('\x7b' :: inner ++ [c]) ++
      (rest ++ back.flatMap ('\n' :: ·)) = textOfLines before ++
        (head ++ ('\x7b' :: inner ++ [c]) ++ rest ++ back.flatMap ('\n' :: ·)) := by
    simp only [List.append_assoc]
  rw [hsplit, textOfLines, Text.lines_flatMap_append hbefore, Text.lines_append_flatMap _ hback,
    braceLines]

/-- The text of lines with braces, and the lines of the text with other braces. -/
theorem exists_braces_ofContent {path : Path} {text head inner rest : Text} {c : Char}
    {before back : List Text}
    (hlines : (ofContent path text).lines = before ++ (braceLines head inner c rest ++ back)) :
    ∃ tail, text = textOfLines before ++ head ++ ('\x7b' :: inner ++ [c]) ++ tail ∧
      ∀ inner' c', isClosing c' = true →
        (ofContent path (textOfLines before ++ head ++ ('\x7b' :: inner' ++ [c']) ++ tail)).lines =
          before ++ (braceLines head inner' c' rest ++ back) := by
  have hall : AreLines (before ++ (braceLines head inner c rest ++ back)) :=
    hlines ▸ areLines_ofContent path text
  obtain ⟨hbefore, hrest⟩ := List.forall_mem_append.1 hall
  obtain ⟨-, hback⟩ := List.forall_mem_append.1 hrest
  have hinside (inner : Text) (c : Char) := lines_braces hbefore hback head inner c rest
  have hne : text ≠ [] := by
    rintro rfl
    have hnone : before ++ (braceLines head inner c rest ++ back) = [] := hlines.symm
    simp only [List.append_eq_nil_iff] at hnone
    exact Text.lines_ne_nil _ hnone.2.1
  obtain ⟨u, e, rfl, hu, hothers⟩ := exists_lines_ofContent path hne
  rw [hu, ← hinside] at hlines
  obtain rfl := Text.lines_injective hlines
  refine ⟨rest ++ back.flatMap ('\n' :: ·) ++ e, by simp only [List.append_assoc],
    fun inner' c' hc' => ?_⟩
  rw [← List.append_assoc, hothers _ (by simp), hinside]
  rw [getLast?_literal, getLast?_literal]
  cases rest ++ back.flatMap ('\n' :: ·) with
  | cons d tail => exact id
  | nil =>
    intro hnewline
    obtain rfl := Option.some.inj hnewline
    cases hc'

/-! ## Changed braces -/

/-- A name that may stand in the braces of an import, such as an identifier. -/
def IsBindingName (t : Text) : Prop :=
  t ≠ [] ∧ ∀ c ∈ t, isPlain c = true ∧ isBlank c = false ∧ c ≠ ','

theorem IsBindingName.piece {t : Text} (h : IsBindingName t) : IsPiece ',' t :=
  .of_plain h.1 (fun c hc => (h.2 c hc).1) (fun c hc => (h.2 c (List.mem_of_mem_head? hc)).2.1)
    (fun c hc => (h.2 c (List.mem_of_mem_getLast? hc)).2.1) fun hmem => (h.2 ',' hmem).2.2 rfl

theorem IsBindingName.no_mark {t : Text} (h : IsBindingName t) {q : Char} (hq : q ∈ t) :
    isClauseMark q = false := by
  refine Bool.eq_false_iff.2 fun hmark => ?_
  have := (h.2 q hq).1
  rcases (by simpa [isClauseMark] using hmark : q = '\'' ∨ q = '"') with rfl | rfl <;> cases this

theorem IsBindingName.no_newline {t : Text} (h : IsBindingName t) : '\n' ∉ t := fun hmem => by
  have := (h.2 _ hmem).2.1
  cases this

theorem IsBindingName.not_hasOpening {t : Text} (h : IsBindingName t) : ¬ HasOpening t := by
  intro hopen
  obtain ⟨q, hq, hmark⟩ := hopen.exists_mark
  rw [h.no_mark hq] at hmark
  cases hmark

theorem exists_last_line {t : Text} (h : '\n' ∈ t) :
    ∃ u line, t = u ++ '\n' :: line ∧ '\n' ∉ line := by
  rcases exists_last_of_not_forall (p := (· != '\n')) t with hall | ⟨u, c, line, rfl, hc, hline⟩
  · exact absurd (hall _ h) (by decide)
  · obtain rfl : c = '\n' := by simpa using hc
    exact ⟨u, line, rfl, fun hmem => absurd (hline _ hmem) (by decide)⟩

section

variable {head rest : Text} {c : Char} (hrest : '\n' ∉ rest) (hc : isClosing c = true)
include hrest hc

/-- The clause of braces on one line is the first one of this line. -/
theorem lastClause_of_oneLine {inner : Text} (hhead : '\n' ∉ head) (hinner : '\n' ∉ inner) :
    lastClause (braceLines head inner c rest) =
      fromClause? (head ++ '\x7b' :: (inner ++ c :: rest)) := by
  have hline : '\n' ∉ head ++ '\x7b' :: (inner ++ c :: rest) := by
    simp [hhead, hinner, hrest, newline_ne_of_closing hc]
  rw [braceLines_eq, Text.lines_of_notMem hline]
  rfl

/-- The clause of braces on several lines stands behind them, when none opens on the last line. -/
theorem lastClause_of_lines (inner : Text) {line : Text} (hline : '\n' ∉ line)
    (hopen : ¬ HasOpening line) :
    lastClause (braceLines head (inner ++ '\n' :: line) c rest) = fromClause? rest := by
  have hsplit : head ++ '\x7b' :: (inner ++ '\n' :: line ++ c :: rest) =
      (head ++ '\x7b' :: inner) ++ '\n' :: (line ++ c :: rest) := by
    simp
  have hlast : '\n' ∉ line ++ c :: rest := by
    simp [hline, hrest, newline_ne_of_closing hc]
  rw [braceLines_eq, hsplit, Text.lines_append, Text.lines_of_notMem hlast, lastClause,
    List.getLast?_concat, Option.bind_some, fromClause?_append_cons hopen (isOutside_of_closing hc)]

end

/-- Further names on one line with the old ones are further entries, and the clause stays the
same. -/
theorem namesLine_keeps {inner : Text} {c : Char} {names : List Text} (hc : isClosing c = true)
    (hinner : Balanced inner) (hline : '\n' ∉ inner) (hnames : ∀ name ∈ names, IsBindingName name)
    (hopen : ¬ HasOpening inner) :
    Balanced (namesLine (entriesOf inner ++ names)) ∧
      entriesOf (namesLine (entriesOf inner ++ names)) = entriesOf inner ++ names ∧
      ∀ head rest, '\n' ∉ head → '\n' ∉ rest →
        (∀ m ∈ lastClause (braceLines head inner c rest), '\x7b' ∉ m) →
        lastClause (braceLines head (namesLine (entriesOf inner ++ names)) '\x7d' rest) =
          lastClause (braceLines head inner c rest) := by
  have hold := isPiece_of_mem_pieces (show IsSeparator ',' by decide) rfl hinner
  have hpieces : ∀ t ∈ entriesOf inner ++ names, IsPiece ',' t ∧ ¬ HasOpening t :=
    List.forall_mem_append.2 ⟨fun t ht => ⟨(hold t ht).1, fun h => hopen (h.mono (hold t ht).2)⟩,
      fun name hname => ⟨(hnames name hname).piece, (hnames name hname).not_hasOpening⟩⟩
  obtain ⟨hbal, hentries⟩ := balanced_and_entries_namesLine fun t ht => (hpieces t ht).1
  refine ⟨hbal, hentries, fun head rest hhead hrest hmodule => ?_⟩
  have hmem {d : Char} (hd : d ≠ ',' ∧ d ≠ ' ') (h : d ∈ namesLine (entriesOf inner ++ names)) :
      d ∈ inner ∨ ∃ name ∈ names, d ∈ name := by
    obtain ⟨t, ht, hdt⟩ := exists_mem_of_mem_namesLine hd h
    rcases List.mem_append.1 ht with ht | ht
    · exact .inl ((hold t ht).2.subset hdt)
    · exact .inr ⟨t, ht, hdt⟩
  have hline' : '\n' ∉ namesLine (entriesOf inner ++ names) := by
    intro h
    rcases hmem (by decide) h with h | ⟨name, hname, h⟩
    · exact hline h
    · exact (hnames name hname).no_newline h
  have hmarks : (∃ q ∈ namesLine (entriesOf inner ++ names), isClauseMark q = true) →
      ∃ q ∈ inner, isClauseMark q = true := by
    rintro ⟨q, hq, hmark⟩
    have hother : q ≠ ',' ∧ q ≠ ' ' := by
      constructor
      all_goals
        rintro rfl
        cases hmark
    rcases hmem hother hq with h | ⟨name, hname, h⟩
    · exact ⟨q, h, hmark⟩
    · rw [(hnames name hname).no_mark h] at hmark
      cases hmark
  -- a clause in front of the braces may not end in them, hence the condition on the module
  rw [lastClause_of_oneLine hrest hc hhead hline] at hmodule ⊢
  rw [lastClause_of_oneLine hrest rfl hhead hline']
  exact fromClause?_braces hc rfl hopen (not_hasOpening_namesLine fun t ht => (hpieces t ht).2) hmarks
    hmodule

/-- Names on lines of their own behind the entries, and the clause stays the same. -/
theorem addedEntries_keeps {inner : Text} {c : Char} {names : List Text} (hc : isClosing c = true)
    (hinner : Balanced inner) (hlines : '\n' ∈ inner) (hne : names ≠ [])
    (hnames : ∀ name ∈ names, IsBindingName name)
    (hopen : ¬ HasOpening (Text.lastLine ('\x7b' :: inner ++ [c]))) (n m : Nat) :
    Balanced (addedEntries .comma inner n m names) ∧
      entriesOf (addedEntries .comma inner n m names) = entriesOf inner ++ names ∧
      ∀ head rest, '\n' ∉ rest →
        lastClause (braceLines head (addedEntries .comma inner n m names) c rest) =
          lastClause (braceLines head inner c rest) := by
  obtain ⟨hbal, hentries⟩ := balanced_and_pieces_addedEntries hinner (n := n) (m := m) hne
    fun name hname => (hnames name hname).piece
  refine ⟨hbal, hentries, fun head rest hrest => ?_⟩
  obtain ⟨front, line, rfl, hline⟩ := exists_last_line hlines
  have hold : ¬ HasOpening line := by
    have hsplit : '\x7b' :: (front ++ '\n' :: line) ++ [c] =
        ('\x7b' :: front) ++ '\n' :: (line ++ [c]) := by
      simp
    have hlast : '\n' ∉ line ++ [c] := by simp [hline, newline_ne_of_closing hc]
    rw [hsplit, Text.lastLine_append _ hlast] at hopen
    exact fun h => hopen (h.mono (List.prefix_append _ _).isInfix)
  have hspaces : ¬ HasOpening (Text.spaces m) := fun h => by
    obtain ⟨q, hq, hmark⟩ := h.exists_mark
    rw [List.eq_of_mem_replicate hq] at hmark
    cases hmark
  have hnewline : '\n' ∉ Text.spaces m := fun h => by
    cases List.eq_of_mem_replicate h
  rw [lastClause_of_lines hrest hc _ hline hold, addedEntries, ← List.append_assoc,
    lastClause_of_lines hrest hc _ hnewline hspaces]

/-- Names are merged into the braces of an import. -/
theorem exists_mergeNames (path : Path) (lead tail : Text) {inner : Text} {c : Char}
    {names : List Text} (hc : isClosing c = true) (hinner : Balanced inner) (hne : names ≠ [])
    (hnames : ∀ name ∈ names, IsBindingName name)
    (hopen : ¬ HasOpening (Text.lastLine ('\x7b' :: inner ++ [c]))) :
    ∃ inner' c', isClosing c' = true ∧ Balanced inner' ∧ entriesOf inner' = entriesOf inner ++ names ∧
      (ofContent path (lead ++ ('\x7b' :: inner ++ [c]) ++ tail)).mergeNames
          (.at lead ('\x7b' :: inner ++ [c])) (entriesOf inner) names =
        .ok (ofContent path (lead ++ ('\x7b' :: inner' ++ [c']) ++ tail)) ∧
      ∀ head rest, '\n' ∉ head → '\n' ∉ rest →
        (∀ m ∈ lastClause (braceLines head inner c rest), '\x7b' ∉ m) →
        lastClause (braceLines head inner' c' rest) = lastClause (braceLines head inner c rest) := by
  have hlast : ('\x7b' :: inner ++ [c]).dropLast = '\x7b' :: inner := List.dropLast_concat
  by_cases hline : '\n' ∈ inner
  · obtain ⟨n, m, hextend⟩ := extend_at path lead tail inner '\x7b' c .comma names
    obtain ⟨hbal, hentries, hclause⟩ := addedEntries_keeps hc hinner hline hne hnames hopen n m
    refine ⟨_, c, hc, hbal, hentries, ?_, fun head rest _ hrest _ => hclause head rest hrest⟩
    have hseveral : ((Region.at lead ('\x7b' :: inner ++ [c])).startLine ==
        (Region.at lead ('\x7b' :: inner ++ [c])).endLine) = false := by
      have := List.count_pos_iff.2 hline
      simp only [Region.at, hlast, List.count_cons_of_ne (show '\x7b' ≠ '\n' by decide)]
      simp
      omega
    rw [mergeNames, hseveral]
    exact hextend
  · have hinside : ¬ HasOpening inner := by
      have hwhole : '\n' ∉ '\x7b' :: inner ++ [c] := by
        simp [hline, newline_ne_of_closing hc]
      rw [Text.lastLine_of_notMem hwhole] at hopen
      exact fun h => hopen (h.mono ⟨['\x7b'], [c], rfl⟩)
    obtain ⟨hbal, hentries, hclause⟩ := namesLine_keeps hc hinner hline hnames hinside
    refine ⟨_, '\x7d', rfl, hbal, hentries, ?_, hclause⟩
    have hone : ((Region.at lead ('\x7b' :: inner ++ [c])).startLine ==
        (Region.at lead ('\x7b' :: inner ++ [c])).endLine) = true := by
      simp only [Region.at, hlast, List.count_cons_of_ne (show '\x7b' ≠ '\n' by decide),
        List.count_eq_zero_of_not_mem hline]
      simp
    have htext : "\x7b ".toList ++ nameList (entriesOf inner ++ names) ++ " \x7d".toList =
        '\x7b' :: namesLine (entriesOf inner ++ names) ++ ['\x7d'] := by
      simp [namesLine]
    rw [mergeNames, hone, if_pos rfl, htext]
    exact spliceText_append path _ _ _ _

/-! ## Inserted statements -/

/-- A module path that may stand in a `from` clause. -/
def IsModulePath (t : Text) : Prop :=
  t ≠ [] ∧ ∀ c ∈ t, isClauseMark c = false ∧ c ≠ '\x7b' ∧ c ≠ '\n'

/-- The line of a new statement. -/
def importLine (names : List Text) (modulePath : Text) : Text :=
  "import \x7b " ++ nameList names ++ " \x7d from '" ++ modulePath ++ "';"

theorem importLine_eq (names : List Text) (modulePath : Text) :
    importLine names modulePath = "import ".toList ++ ('\x7b' :: namesLine names ++ ['\x7d']) ++
      (" from '".toList ++ modulePath ++ "';".toList) := by
  have hopen : "import \x7b ".toList = "import ".toList ++ '\x7b' :: " ".toList := rfl
  have hclose : " \x7d from '".toList = " ".toList ++ '\x7d' :: " from '".toList := rfl
  unfold importLine namesLine
  rw [hopen, hclose]
  simp only [List.append_assoc, List.cons_append, List.nil_append]

section

variable {names : List Text} {modulePath : Text} (hnames : ∀ name ∈ names, IsBindingName name)
  (hmodule : IsModulePath modulePath)
include hnames hmodule

theorem newline_notMem_importLine : '\n' ∉ importLine names modulePath := by
  have hlist : '\n' ∉ namesLine names := fun h => by
    obtain ⟨name, hname, h⟩ := exists_mem_of_mem_namesLine (by decide) h
    exact (hnames name hname).no_newline h
  have hplain : '\n' ∉ modulePath := fun h => (hmodule.2 _ h).2.2 rfl
  rw [importLine_eq]
  simp [hlist, hplain]

theorem lastClause_importLine : lastClause [importLine names modulePath] = some modulePath := by
  have hopen : ¬ HasOpening ("import ".toList ++ '\x7b' :: namesLine names) := by
    intro h
    rcases h.of_append_cons isOutside_brace with h | h
    · obtain ⟨q, hq, hmark⟩ := h.exists_mark
      exact absurd hmark (by revert q; decide)
    · exact not_hasOpening_namesLine (fun name hname => (hnames name hname).not_hasOpening) h
  have hclause := fromClause?_statement hopen hmodule.1 fun c hc => (hmodule.2 c hc).1
  rw [← hclause, importLine_eq, lastClause]
  simp

/-- A new statement is read from its line. -/
theorem isStatement_importLine (front back : List Text) :
    ∃ r, IsStatement back front [importLine names modulePath] [] (some r) ∧
      entriesOf r.inner = names := by
  obtain ⟨hbal, hentries⟩ := balanced_and_entries_namesLine fun name hname => (hnames name hname).piece
  have hline := newline_notMem_importLine hnames hmodule
  have hrest : '\n' ∉ " from '".toList ++ modulePath ++ "';".toList := fun h =>
    hline (importLine_eq names modulePath ▸ List.mem_append_right _ h)
  have hcore : braceLines "import " (namesLine names) '\x7d'
      (" from '".toList ++ modulePath ++ "';".toList) = [importLine names modulePath] := by
    rw [braceLines, ← importLine_eq, Text.lines_of_notMem hline]
  have hinner : (Region.at (textOfLines front ++ "import ".toList)
      ('\x7b' :: namesLine names ++ ['\x7d'])).inner = namesLine names := List.dropLast_concat
  refine ⟨.at (textOfLines front ++ "import ".toList) ('\x7b' :: namesLine names ++ ['\x7d']),
    ⟨fun line h => ?_, ?_, ?_⟩, (congrArg entriesOf hinner).trans hentries⟩
  · obtain rfl := Option.some.inj h
    rfl
  · rw [← hcore]
    exact .braces (by decide) hrest rfl hbal
  · rw [follow, lastClause_importLine hnames hmodule]
    rfl

end

/-- A line is added behind the last statement, or at the top and in front of a blank line. -/
theorem exists_insertImport {d : Document} (hd : AreLines d.lines) {ss : List ImportStatement}
    (h : ofDocument d = .ok ss) (line : Text) :
    ∃ before blank after, d.lines = before ++ after ∧ (blank = [] ∨ before = [] ∧ blank = [[]]) ∧
      d.insertImport ss line = .ok { d with lines := before ++ line :: (blank ++ after) } ∧
      Collects after [] before ss ∧ ∃ late, Collects [] before after late := by
  have hcollects := (ofDocument_eq_ok_iff hd).1 h
  rcases List.eq_nil_or_concat ss with rfl | ⟨early, last, rfl⟩
  · refine ⟨[], if d.lines.head?.any fun first => !first.trim.isEmpty then [[]] else [], d.lines, rfl,
      ?_, ?_, .nil, [], hcollects⟩
    · split
      · exact .inr ⟨rfl, rfl⟩
      · exact .inl rfl
    · cases hfirst : d.lines.head?.any fun first => !first.trim.isEmpty
      · simp [insertImport, insertLines, hfirst]
      · simp [insertImport, insertLines, hfirst]
  · rw [List.concat_eq_append] at hcollects ⊢
    obtain ⟨front, core, next, after, names, hlines, rfl, hstatement, hearly, hlate⟩ :=
      hcollects.exists_statement
    rw [List.nil_append] at hstatement hlate ⊢
    have hend := endLine_between front hstatement.isCore.ne_nil next names
    have hsplit : d.lines = front ++ (core ++ next) ++ after := by simp [hlines]
    refine ⟨front ++ (core ++ next), [], after, hsplit, .inl rfl, ?_, ?_, [], hlate⟩
    · have hfits : ¬ d.lines.length < (front ++ (core ++ next)).length := by
        rw [hsplit, List.length_append]
        omega
      rw [insertImport, List.getLast?_concat]
      simp only [hend, insertLines, if_neg hfits]
      rw [hsplit, List.take_left, List.drop_left, List.append_assoc]
      rfl
    · refine .append (by simpa using hearly) ?_
      have hlast : Collects after front (core ++ (next ++ [])) [between front core next names] :=
        .statement (by simpa using hstatement) .nil
      simpa using hlast

/-! ## Calls -/

/-- The names that are not imported yet. -/
def missingNames (r : Region) (names : List Text) : List Text :=
  names.filter fun name => !(entriesOf r.inner).contains name

theorem missingNames_eq_nil_iff {r : Region} {names : List Text} :
    missingNames r names = [] ↔ ∀ name ∈ names, name ∈ entriesOf r.inner := by
  simp [missingNames]

section

variable {d : Document} {modulePath : Text} (names : List Text)

/-- The answer of a call when a statement imports names from the module. -/
theorem addImport_of_importing {r : Region} {before after : List Text}
    (h : Importing d modulePath r before after) :
    d.addImport names modulePath =
      if (missingNames r names).isEmpty then .ok (false, d)
      else do return (true, ← d.mergeNames r (entriesOf r.inner) (missingNames r names)) := by
  obtain ⟨early, s, late, hstatements, hfirst, hs, -, -⟩ := h
  have hfind : ((early ++ s :: late).findSome? fun s =>
      if s.modulePath == some modulePath then s.names else none) = some r :=
    List.findSome?_eq_some_iff.2 ⟨early, s, late, rfl, hs, hfirst⟩
  rw [addImport, bind_of_ok hstatements]
  simp only [hfind]
  rfl

/-- The answer of a call when no statement imports names from the module. -/
theorem addImport_of_notImporting {ss : List ImportStatement} (h : ofDocument d = .ok ss)
    (hnone : ∀ s ∈ ss, s.namesFrom? modulePath = none) :
    d.addImport names modulePath = do
      return (true, ← d.insertImport ss (importLine names modulePath)) := by
  have hfind : (ss.findSome? fun s =>
      if s.modulePath == some modulePath then s.names else none) = none :=
    List.findSome?_eq_none_iff.2 hnone
  rw [addImport, bind_of_ok h]
  simp only [hfind]
  rfl

/-- A call changes nothing when all names are imported. -/
theorem addImport_of_all {r : Region} {before after : List Text}
    (h : Importing d modulePath r before after) (hall : ∀ name ∈ names, name ∈ entriesOf r.inner) :
    d.addImport names modulePath = .ok (false, d) := by
  rw [addImport_of_importing names h, missingNames_eq_nil_iff.2 hall]
  rfl

end

/-- What is imported from a module after names are added: the names that were missing stand behind
the old ones, or a new statement has them.  The other lines stay, apart from a blank line behind a
statement at the top. -/
inductive Adds (d e : Document) (names : List Text) (modulePath : Text) : Prop
  | merged {r r' : Region} {before after : List Text}
    (old : Importing d modulePath r before after) (new : Importing e modulePath r' before after)
    (entries : entriesOf r'.inner = entriesOf r.inner ++ missingNames r names)
  | inserted {r : Region} {before blank after : List Text}
    (old : NotImporting d modulePath) (lines : d.lines = before ++ after)
    (top : blank = [] ∨ before = [] ∧ blank = [[]])
    (new : Importing e modulePath r before (blank ++ after)) (entries : entriesOf r.inner = names)

section

variable {path : Path} {text modulePath : Text} {names : List Text}
  (hnames : ∀ name ∈ names, IsBindingName name) (hmodule : IsModulePath modulePath)
include hnames hmodule

/-- A call that finds a statement merges the missing names into it. -/
theorem exists_merged {r : Region} {before after : List Text}
    (h : Importing (ofContent path text) modulePath r before after)
    (hopen : ¬ HasOpening (Text.lastLine r.content)) (hmissing : missingNames r names ≠ []) :
    ∃ e, (ofContent path text).addImport names modulePath = .ok (true, e) ∧
      Adds (ofContent path text) e names modulePath ∧
      e.addImport names modulePath = .ok (false, e) := by
  obtain ⟨head, inner, c, rest, next, hhead, hrest, hc, hbal, rfl, hlines, hclause, hagain⟩ :=
    h.exists_braces (areLines_ofContent path text)
  obtain ⟨tail, rfl, htail⟩ := exists_braces_ofContent hlines
  have hinner (inner : Text) (c : Char) :
      (Region.at (textOfLines before ++ head) ('\x7b' :: inner ++ [c])).inner = inner :=
    List.dropLast_concat
  obtain ⟨inner', c', hc', hbal', hentries, hmerge, hkeeps⟩ :=
    exists_mergeNames path (textOfLines before ++ head) tail hc hbal hmissing
      (fun name hname => hnames name (List.mem_of_mem_filter hname)) hopen
  have hkept := hkeeps head rest hhead hrest fun m hm hbrace => by
    rw [hclause m hm] at hbrace
    exact (hmodule.2 _ hbrace).2.1 rfl
  have hnew := hagain inner' c' _ hc' hbal' hkept (htail inner' c' hc')
  refine ⟨_, ?_, .merged h hnew ?_, addImport_of_all names hnew fun name hname => ?_⟩
  · rw [addImport_of_importing names h, if_neg (by simpa using hmissing), hinner]
    exact bind_of_ok hmerge _
  · rw [hinner, hinner]
    exact hentries
  · rw [hinner, hentries, List.mem_append]
    by_cases hold : name ∈ entriesOf inner
    · exact .inl hold
    · refine .inr (List.mem_filter.2 ⟨hname, ?_⟩)
      rw [hinner]
      simpa using hold

/-- A call that finds no statement adds one. -/
theorem exists_inserted {ss : List ImportStatement} (h : ofDocument (ofContent path text) = .ok ss)
    (hnone : ∀ s ∈ ss, s.namesFrom? modulePath = none) :
    ∃ e, (ofContent path text).addImport names modulePath = .ok (true, e) ∧
      Adds (ofContent path text) e names modulePath ∧
      e.addImport names modulePath = .ok (false, e) := by
  have hd := areLines_ofContent path text
  obtain ⟨before, blank, after, hlines, htop, hinsert, hearly, late, hlate⟩ :=
    exists_insertImport hd h (importLine names modulePath)
  have hline := newline_notMem_importLine hnames hmodule
  obtain ⟨r, hstatement, hentries⟩ :=
    isStatement_importLine hnames hmodule before (blank ++ after)
  have he : AreLines (before ++ importLine names modulePath :: (blank ++ after)) := by
    rw [hlines] at hd
    obtain ⟨hbefore, hafter⟩ := List.forall_mem_append.1 hd
    refine List.forall_mem_append.2 ⟨hbefore, List.forall_mem_cons.2 ⟨hline,
      List.forall_mem_append.2 ⟨?_, hafter⟩⟩⟩
    rcases htop with rfl | ⟨-, rfl⟩ <;> simp
  obtain ⟨late', hlate'⟩ : ∃ late', Collects []
      (before ++ ([importLine names modulePath] ++ [])) (blank ++ after) late' := by
    rcases htop with rfl | ⟨-, rfl⟩
    · exact hlate.exists_move _
    · obtain ⟨late', hlate'⟩ := hlate.exists_move
        (before ++ ([importLine names modulePath] ++ []) ++ [[]])
      exact ⟨late', .skip rfl hlate'⟩
  have hnew : Importing
      { ofContent path text with lines := before ++ importLine names modulePath :: (blank ++ after) }
      modulePath r before (blank ++ after) := by
    refine (importing_iff he).2 ⟨[importLine names modulePath], [], ss, late', rfl, hstatement,
      lastClause_importLine hnames hmodule, hearly.of_back ?_, hnone, hlate'⟩
    intro line hhead
    exact goesOn_of_starts (hstatement.opens line hhead)
  refine ⟨_, ?_, .inserted ⟨ss, h, hnone⟩ hlines htop hnew hentries,
    addImport_of_all names hnew fun name hname => hentries ▸ hname⟩
  rw [addImport_of_notImporting names h hnone]
  exact bind_of_ok hinsert _

variable (path text)
  (hopen : ∀ r before after, Importing (ofContent path text) modulePath r before after →
    ¬ HasOpening (Text.lastLine r.content))
include hopen

/-- What a call answers: that the statements cannot be read, that all names are there, or that they
have been added. -/
theorem addImport_answers :
    (∃ fault, ofDocument (ofContent path text) = .error fault ∧
      (ofContent path text).addImport names modulePath = .error fault) ∨
    (∃ r before after, Importing (ofContent path text) modulePath r before after ∧
      (∀ name ∈ names, name ∈ entriesOf r.inner) ∧
      (ofContent path text).addImport names modulePath = .ok (false, ofContent path text)) ∨
    ∃ e, (ofContent path text).addImport names modulePath = .ok (true, e) ∧
      Adds (ofContent path text) e names modulePath ∧
      e.addImport names modulePath = .ok (false, e) := by
  cases hstatements : ofDocument (ofContent path text) with
  | error fault =>
    refine .inl ⟨fault, rfl, ?_⟩
    rw [addImport, hstatements]
    rfl
  | ok ss =>
    refine .inr ?_
    cases hfind : ss.findSome? (namesFrom? modulePath) with
    | none =>
      exact .inr (exists_inserted hnames hmodule hstatements (List.findSome?_eq_none_iff.1 hfind))
    | some r =>
      obtain ⟨early, s, late, rfl, hs, hfirst⟩ := List.findSome?_eq_some_iff.1 hfind
      have hold : Importing (ofContent path text) modulePath r _ _ :=
        ⟨early, s, late, hstatements, hfirst, hs, rfl, rfl⟩
      by_cases hmissing : missingNames r names = []
      · have hall := missingNames_eq_nil_iff.1 hmissing
        exact .inl ⟨r, _, _, hold, hall, addImport_of_all names hold hall⟩
      · exact .inr (exists_merged hnames hmodule hold (hopen r _ _ hold) hmissing)

/-- A call that answers found all names, or added those that were missing. -/
theorem exists_of_addImport {changed : Bool} {e : Document}
    (h : (ofContent path text).addImport names modulePath = .ok (changed, e)) :
    (∃ r before after, Importing (ofContent path text) modulePath r before after ∧
      (∀ name ∈ names, name ∈ entriesOf r.inner) ∧ changed = false ∧ e = ofContent path text) ∨
    changed = true ∧ Adds (ofContent path text) e names modulePath ∧
      e.addImport names modulePath = .ok (false, e) := by
  rcases addImport_answers path text hnames hmodule hopen with ⟨fault, -, hcall⟩ |
    ⟨r, before, after, hold, hall, hcall⟩ | ⟨f, hcall, hadds, hagain⟩
  · cases hcall.symm.trans h
  · cases hcall.symm.trans h
    exact .inl ⟨r, before, after, hold, hall, rfl, rfl⟩
  · cases hcall.symm.trans h
    exact .inr ⟨rfl, hadds, hagain⟩

/-- A call is refused for the statements only. -/
theorem addImport_eq_error_iff {fault : Fault} :
    (ofContent path text).addImport names modulePath = .error fault ↔
      ofDocument (ofContent path text) = .error fault := by
  constructor
  · intro h
    rcases addImport_answers path text hnames hmodule hopen with ⟨x, hrefused, hcall⟩ |
      ⟨r, before, after, -, -, hcall⟩ | ⟨f, hcall, -, -⟩
    · cases hcall.symm.trans h
      exact hrefused
    · cases hcall.symm.trans h
    · cases hcall.symm.trans h
  · intro h
    rw [addImport, h]
    rfl

end

/-- Names that are added to the imports of a file are imported from the module: the first statement
that imports names from it has its old names and those that were missing behind them, in order, and
the lines around it stay (`Adds`); a second call changes nothing.  A call answers that nothing is
missing exactly when that statement has all the names, it is refused exactly when the statements
cannot be read, and only a call that adds names changes the file.  No clause may open inside the
braces on their last line: it would be taken for the clause behind them. -/
theorem addImport_merges (path : Path) (text : Text) {names : List Text} {modulePath : Text}
    (hnames : ∀ name ∈ names, IsBindingName name) (hmodule : IsModulePath modulePath)
    (hopen : ∀ r before after, Importing (ofContent path text) modulePath r before after →
      ¬ HasOpening (Text.lastLine r.content)) :
    (∀ e, (ofContent path text).addImport names modulePath = .ok (true, e) →
      Adds (ofContent path text) e names modulePath ∧
      e.addImport names modulePath = .ok (false, e)) ∧
    ((∃ e, (ofContent path text).addImport names modulePath = .ok (false, e)) ↔
      ∃ r before after, Importing (ofContent path text) modulePath r before after ∧
        ∀ name ∈ names, name ∈ entriesOf r.inner) ∧
    (∀ fault, (ofContent path text).addImport names modulePath = .error fault ↔
      ofDocument (ofContent path text) = .error fault) ∧
    ((∀ e, (ofContent path text).addImport names modulePath ≠ .ok (true, e)) →
      (ofContent path text).afterCall ((ofContent path text).addImport names modulePath) =
        ofContent path text) := by
  refine ⟨fun e he => ?_, ⟨fun ⟨e, he⟩ => ?_, ?_⟩,
    fun fault => addImport_eq_error_iff path text hnames hmodule hopen,
    fun htrue => afterCall_eq_self fun changed e he => ?_⟩
  · obtain ⟨-, -, -, -, -, hfalse, -⟩ | ⟨-, hadds, hagain⟩ :=
      exists_of_addImport path text hnames hmodule hopen he
    · cases hfalse
    · exact ⟨hadds, hagain⟩
  · obtain ⟨r, before, after, hold, hall, -, -⟩ | ⟨hfalse, -, -⟩ :=
      exists_of_addImport path text hnames hmodule hopen he
    · exact ⟨r, before, after, hold, hall⟩
    · cases hfalse
  · rintro ⟨r, before, after, hold, hall⟩
    exact ⟨_, addImport_of_all names hold hall⟩
  · obtain ⟨-, -, -, -, -, -, heq⟩ | ⟨rfl, -, -⟩ :=
      exists_of_addImport path text hnames hmodule hopen he
    · exact heq
    · exact absurd he (htrue e)

/-- A file with two statements, the second one on several lines and with a comment. -/
def sampleImports : Document :=
  ofContent ⟨"app.ts"⟩ ("import x from 'y';\nimport \x7b\n    a,\n    b as c // why\n\x7d" ++
    "\n  from \"./m\";\nrun();")

/-- The braces of the second statement. -/
def sampleBraces : Region := ⟨"\x7b\n    a,\n    b as c // why\n\x7d", 1, 4, 26⟩

/-- The statements of the file. -/
def sampleStatements : List ImportStatement :=
  [⟨0, some "y", none⟩, ⟨5, some "./m", some sampleBraces⟩]

/-- The file with the names that were missing. -/
def sampleImportsAdded : Document :=
  ofContent ⟨"app.ts"⟩ ("import x from 'y';\nimport \x7b\n    a,\n    b as c, // why\n    b,\n" ++
    "    d\n\x7d\n  from \"./m\";\nrun();")

theorem addImport_merges_sample :
    sampleImports.addImport ["b", "a", "d"] "./m" = .ok (true, sampleImportsAdded) ∧
      Adds sampleImports sampleImportsAdded ["b", "a", "d"] "./m" ∧
      sampleImportsAdded.addImport ["b", "a", "d"] "./m" = .ok (false, sampleImportsAdded) := by
  have hcall : sampleImports.addImport ["b", "a", "d"] "./m" = .ok (true, sampleImportsAdded) := rfl
  have hnames : ∀ name ∈ ["b".toList, "a".toList, "d".toList], IsBindingName name := by
    intro name hname
    simp only [List.mem_cons, List.not_mem_nil, or_false] at hname
    rcases hname with rfl | rfl | rfl
    all_goals exact ⟨by decide, by decide⟩
  have hmodule : IsModulePath "./m" := ⟨by decide, by decide⟩
  refine ⟨hcall, (addImport_merges _ _ hnames hmodule ?_).1 _ hcall⟩
  rintro r before after ⟨early, s, late, hread, -, hs, -, -⟩ hopen
  have hstatements : early ++ s :: late = sampleStatements := Except.ok.inj (hread.symm.trans rfl)
  have hmem : s ∈ sampleStatements := hstatements ▸ List.mem_append_right _ List.mem_cons_self
  have hbraces : r = sampleBraces := by
    simp only [sampleStatements, List.mem_cons, List.not_mem_nil, or_false] at hmem
    rcases hmem with rfl | rfl
    · cases hs
    · exact (Option.some.inj hs).symm
  subst hbraces
  obtain ⟨q, hq, hmark⟩ := hopen.exists_mark
  have hlast : Text.lastLine sampleBraces.content = "\x7d" := rfl
  rw [hlast] at hq
  obtain rfl := List.mem_singleton.1 hq
  cases hmark

/-- A statement that imports a name with a clause in it. -/
def sampleQuoted : Text := "import \x7b\n    \"from 'm'\" as y \x7d from 'n';\n"

/-- The file of the statement after one call. -/
def sampleQuotedAdded : Document :=
  ofContent ⟨"app.ts"⟩ "import \x7b\n    \"from 'm'\" as y,\n    b\n\x7d from 'n';\n"

/-- The clause in the braces is taken for the one of the statement until a name stands behind it:
the second call does not find the statement again. -/
theorem not_addImport_merges_always :
    ¬ ∀ (path : Path) (text : Text) (names : List Text) (modulePath : Text) (e : Document),
      (∀ v ∈ scan text, v.lexeme ≠ .comment) → text.count '\x7b' ≤ 1 → text.count '\x7d' ≤ 1 →
      (∀ name ∈ names, IsBindingName name) → names.Nodup → IsModulePath modulePath →
      (ofContent path text).addImport names modulePath = .ok (true, e) →
      e.addImport names modulePath = .ok (false, e) := by
  intro hagain
  have hname : IsBindingName "b" := ⟨by decide, by decide⟩
  have htwice := hagain ⟨"app.ts"⟩ sampleQuoted ["b"] "m" sampleQuotedAdded (by decide) (by decide)
    (by decide) (List.forall_mem_singleton.2 hname) (List.nodup_singleton _) ⟨by decide, by decide⟩ rfl
  have hchanged : ∃ e, sampleQuotedAdded.addImport ["b"] "m" = .ok (true, e) := ⟨_, rfl⟩
  obtain ⟨e, he⟩ := hchanged
  rw [he] at htwice
  cases htwice

end Scaffold.Document
