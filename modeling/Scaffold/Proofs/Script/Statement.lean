import Scaffold.Proofs.Script.Clause
import Scaffold.Proofs.Script.Locate
import Scaffold.Proofs.Outcome

/-!
# Statements among lines

What the reader of import statements finds, as a relation on the lines that are left
(`Collects`): a line that starts no statement is skipped, a statement takes the lines of its braces
and, when these have no `from` clause, the next line that starts with one.  The reader computes the
relation (`ofDocument_eq_ok_iff`), so that facts about the statements of a file are proved by
induction on it, with one case for each kind of line: statements stay when other lines follow them
(`Collects.of_back`), and they may move (`Collects.exists_move`).
-/

namespace Scaffold.Script

namespace ImportStatement

/-! ## One statement -/

/-- Lines with a newline behind each. -/
def textOfLines (ls : List Text) : Text := ls.flatMap (· ++ ['\n'])

/-- The lines hold no newlines. -/
def AreLines (ls : List Text) : Prop := ∀ line ∈ ls, '\n' ∉ line

instance (ls : List Text) : Decidable (AreLines ls) :=
  inferInstanceAs (Decidable (∀ line ∈ ls, '\n' ∉ line))

/-- A line that may go on with the statement of the line in front of it. -/
def goesOn (line : Text) : Bool := List.isPrefixOf "from".toList line.trimStart

/-- The clause on the last of some lines. -/
def lastClause (ls : List Text) : Option Text := ls.getLast?.bind fromClause?

/-- The line that a statement takes behind its own lines. -/
def follow (core rest : List Text) : List Text :=
  if (lastClause core).isNone then (rest.head?.filter goesOn).toList else []

/-- The statement on the lines `core` and `next` behind the lines `front`. -/
def between (front core next : List Text) (names : Option Region) : ImportStatement where
  endLine := front.length + core.length + next.length - 1
  modulePath := lastClause (core ++ next)
  names

/-- The lines with braces, from the first brace to the bracket that closes it. -/
def braceLines (head inner : Text) (c : Char) (rest : Text) : List Text :=
  Text.lines (head ++ ('\x7b' :: inner ++ [c]) ++ rest)

theorem braceLines_eq (head inner : Text) (c : Char) (rest : Text) :
    braceLines head inner c rest = Text.lines (head ++ '\x7b' :: (inner ++ c :: rest)) := by
  rw [braceLines]
  simp

/-- The lines of a statement up to its closing brace, with the region of its braces: one line
without braces, or the lines from the first brace to the bracket that closes it. -/
inductive IsCore (front : List Text) : List Text → Option Region → Prop
  | plain {line : Text} (h : '\x7b' ∉ line) : IsCore front [line] none
  | braces {head inner rest : Text} {c : Char} (hhead : '\x7b' ∉ head ∧ '\n' ∉ head)
    (hrest : '\n' ∉ rest) (hc : isClosing c = true) (hbal : Balanced inner) :
    IsCore front (braceLines head inner c rest)
      (some (.at (textOfLines front ++ head) ('\x7b' :: inner ++ [c])))

/-! ## Finding braces -/

/-- The line with the first brace. -/
theorem exists_lines_brace {head : Text} (hhead : '\n' ∉ head) (u : Text) :
    ∃ l ls, Text.lines u = l :: ls ∧
      Text.lines (head ++ '\x7b' :: u) = (head ++ ['\x7b'] ++ l) :: ls := by
  obtain ⟨l, ls, hl⟩ := List.exists_cons_of_ne_nil (Text.lines_ne_nil u)
  refine ⟨l, ls, hl, ?_⟩
  rw [List.append_cons]
  exact Text.lines_append_line (by simp [hhead]) hl

/-- The first brace of a line is where its region opens. -/
theorem locateFrom_brace {head u : Text} (hhead : '\x7b' ∉ head ∧ '\n' ∉ head)
    (front back : List Text) :
    Region.locateFrom (front ++ (Text.lines (head ++ '\x7b' :: u) ++ back)) ['\x7b'] front.length =
      match Region.atStart? (textOfLines front ++ head) ('\x7b' :: (u ++ back.flatMap ('\n' :: ·))) with
      | some region => .ok region
      | none => .error (.unbalanced ['\x7b'] front.length none) := by
  obtain ⟨l, ls, hl, hlines⟩ := exists_lines_brace hhead.2 u
  have hbreak : Text.breakOn? ['\x7b'] (head ++ ['\x7b'] ++ l) = some (head, l) := by
    rw [List.append_assoc]
    exact Text.breakOn?_of_notMem (m := []) (n := []) hhead.1 (by simp) l
  have hfind : findLine? (front ++ (((head ++ ['\x7b'] ++ l) :: ls) ++ back)) ['\x7b'] front.length =
      some front.length := by
    have hfound : Text.contains ['\x7b'] (head ++ ['\x7b'] ++ l) = true := by
      rw [Text.contains, hbreak]
      rfl
    rw [findLine?, List.drop_left, List.cons_append, List.findIdx?_cons, hfound]
    rfl
  have hget : (front ++ (((head ++ ['\x7b'] ++ l) :: ls) ++ back))[front.length]? =
      some (head ++ ['\x7b'] ++ l) := by
    simp
  have hafter : l ++ ((front ++ (((head ++ ['\x7b'] ++ l) :: ls) ++ back)).drop
      (front.length + 1)).flatMap ('\n' :: ·) = u ++ back.flatMap ('\n' :: ·) := by
    have hdrop : (front ++ (((head ++ ['\x7b'] ++ l) :: ls) ++ back)).drop (front.length + 1) =
        ls ++ back := by
      rw [List.drop_append]
      simp
    rw [hdrop, List.flatMap_append, ← List.append_assoc, Text.append_flatMap_tail hl]
  have hopen := openAt?_brace (textOfLines front ++ head) [] (u ++ back.flatMap ('\n' :: ·))
  rw [List.nil_append, List.append_nil] at hopen
  rw [hlines, Region.locateFrom, hfind]
  simp only [hget, Option.bind_some, hbreak, Option.getD_some, List.take_left, hafter]
  rw [← textOfLines, hopen]
  rfl

theorem areLines_lines (t : Text) : AreLines (Text.lines t) := Text.newline_notMem_lines t

/-- The lines of a statement with braces are as many as its newlines, and one. -/
theorem length_core {head inner rest : Text} {c : Char} (hhead : '\n' ∉ head) (hrest : '\n' ∉ rest)
    (hc : isClosing c = true) :
    (braceLines head inner c rest).length = inner.count '\n' + 1 := by
  rw [braceLines, Text.length_lines]
  simp [List.count_append, List.count_eq_zero_of_not_mem hhead, List.count_eq_zero_of_not_mem hrest,
    (newline_ne_of_closing hc).symm]

section

variable {front : List Text} (hfront : AreLines front)
include hfront

/-- The region of braces on the lines behind `front`. -/
theorem at_lines {head inner : Text} (hhead : '\n' ∉ head) (c : Char) :
    (Region.at (textOfLines front ++ head) ('\x7b' :: inner ++ [c])).startLine = front.length ∧
      (Region.at (textOfLines front ++ head) ('\x7b' :: inner ++ [c])).endLine =
        front.length + inner.count '\n' := by
  have hbefore : (textOfLines front ++ head).count '\n' = front.length :=
    Text.count_flatMap_append hfront hhead
  have hlast : ('\x7b' :: inner ++ [c]).dropLast = '\x7b' :: inner := List.dropLast_concat
  refine ⟨hbefore, ?_⟩
  rw [Region.at, hbefore, hlast, List.count_cons_of_ne (by decide)]

end

/-! ## Reading one statement -/

theorem lineAt_of_getElem? {lines : List Text} {i : Nat} {line : Text} (h : lines[i]? = some line) :
    lineAt lines i = .ok line := by
  rw [lineAt, h]

theorem IsCore.ne_nil {front core : List Text} {names : Option Region} (h : IsCore front core names) :
    core ≠ [] := by
  cases h with
  | plain => exact List.cons_ne_nil _ _
  | braces => exact Text.lines_ne_nil _

/-- A line that starts a statement does not go on with another one. -/
theorem goesOn_of_starts {line : Text} (h : starts line = true) : goesOn line = false := by
  rw [starts, goesOn] at *
  cases hline : line.trimStart with
  | nil => rfl
  | cons c t =>
    rw [hline] at h
    by_cases hc : 'f' = c
    · subst hc
      cases h
    · show ('f' == c && List.isPrefixOf "rom".toList t) = false
      rw [beq_false_of_ne hc, Bool.false_and]

/-- What the line behind a statement adds to it. -/
theorem follow_cons (core : List Text) (line : Text) (rest : List Text) :
    follow core (line :: rest) =
      if ((lastClause core).isNone && goesOn line) = true then [line] else [] := by
  rw [follow]
  cases (lastClause core).isNone <;> cases hline : goesOn line <;> simp [hline]

/-- The statement that is read from the place of its braces. -/
theorem ofLine_of_names {front core rest : List Text} {line : Text} {names : Option Region}
    (hne : core ≠ [])
    (hnames : line.any (· == '\x7b') = false ∧ names = none ∨ line.any (· == '\x7b') = true ∧
      ∃ r, names = some r ∧
        Region.locateFrom (front ++ (core ++ rest)) ['\x7b'] front.length = .ok r)
    (hlast : (names.map Region.endLine).getD front.length = front.length + core.length - 1) :
    ofLine (front ++ (core ++ rest)) front.length line =
      .ok (between front core (follow core rest) names) := by
  have hpos : 0 < core.length := List.length_pos_iff.2 hne
  have hcore : (front ++ (core ++ rest))[front.length + core.length - 1]? = core.getLast? := by
    rw [List.getElem?_append_right (by omega), List.getElem?_append_left (by omega),
      List.getLast?_eq_getElem?]
    congr 1
    omega
  have hnext : (front ++ (core ++ rest))[front.length + core.length - 1 + 1]? = rest.head? := by
    rw [List.getElem?_append_right (by omega), List.getElem?_append_right (by omega),
      List.head?_eq_getElem?]
    congr 1
    omega
  obtain ⟨last, hgetLast⟩ := Option.ne_none_iff_exists'.1 (mt List.getLast?_eq_none_iff.1 hne)
  have hclause : lastClause core = fromClause? last := by rw [lastClause, hgetLast, Option.bind_some]
  have hback : front.length + core.length - 1 + 1 = front.length + core.length := by omega
  have hread : ofLine (front ++ (core ++ rest)) front.length line =
      withNames (front ++ (core ++ rest)) front.length names := by
    rcases hnames with ⟨hany, rfl⟩ | ⟨hany, r, rfl, hlocate⟩
    · rw [ofLine, hany]
      rfl
    · rw [ofLine, hany, if_pos rfl, bind_of_ok hlocate]
  rw [hread, withNames]
  simp only [hlast, bind_of_ok (lineAt_of_getElem? (hcore.trans hgetLast)), hnext]
  cases rest with
  | nil =>
    simp only [List.head?_nil, Option.any_none, Bool.and_false, Bool.false_eq_true, if_false]
    rw [bind_of_ok (lineAt_of_getElem? (hcore.trans hgetLast))]
    simp [follow, between, hclause, pure, Except.pure]
  | cons next rest =>
    rw [follow_cons, hclause, List.head?_cons, Option.any_some, ← goesOn]
    by_cases hgoes : ((fromClause? last).isNone && goesOn next) = true
    · rw [if_pos hgoes, if_pos hgoes, bind_of_ok (lineAt_of_getElem? hnext), hback]
      simp [between, lastClause, pure, Except.pure]
    · rw [if_neg hgoes, if_neg hgoes, bind_of_ok (lineAt_of_getElem? (hcore.trans hgetLast))]
      simp [between, hclause, pure, Except.pure]

/-- The lines from a line on start with those of a statement, or the first brace of the line is not
closed. -/
theorem exists_core_or_unbalanced (front : List Text) {line : Text} {rest : List Text}
    (hrest : AreLines (line :: rest)) :
    (∃ core names back, line :: rest = core ++ back ∧ IsCore front core names) ∨
      ofLine (front ++ line :: rest) front.length line =
        .error (.unbalanced ['\x7b'] front.length none) := by
  rcases exists_first_of_not_forall (p := (· != '\x7b')) line with hall | ⟨head, b, u, rfl, hb, hhead⟩
  · exact .inl ⟨[line], none, rest, rfl, .plain fun hmem => by simpa using hall _ hmem⟩
  · obtain rfl : b = '\x7b' := by simpa using hb
    have hline := (List.forall_mem_cons.1 hrest).1
    have hhead' : '\x7b' ∉ head ∧ '\n' ∉ head :=
      ⟨fun hmem => by simpa using hhead _ hmem, fun hmem => hline (List.mem_append_left _ hmem)⟩
    have hlocate := locateFrom_brace (u := u) hhead' front rest
    rw [Text.lines_of_notMem hline, List.singleton_append] at hlocate
    cases hstart : Region.atStart? (textOfLines front ++ head)
      ('\x7b' :: (u ++ rest.flatMap ('\n' :: ·))) with
    | none =>
      rw [hstart] at hlocate
      have hany : (head ++ '\x7b' :: u).any (· == '\x7b') = true := by simp
      rw [ofLine, hany, if_pos rfl, hlocate]
      exact .inr rfl
    | some r =>
      refine .inl ?_
      obtain ⟨⟨literal, tail⟩, hliteral, -⟩ := Option.map_eq_some_iff.1 hstart
      obtain ⟨o, inner, c, -, hc, hbal, rfl⟩ := exists_balanced_of_bracketed? hliteral
      have htext := append_eq_of_bracketed? hliteral
      obtain ⟨l, back, hl⟩ := List.exists_cons_of_ne_nil (Text.lines_ne_nil tail)
      obtain ⟨hl', hback⟩ := List.forall_mem_cons.1 (hl ▸ areLines_lines tail)
      obtain rfl := (List.cons.inj htext).1
      have hfirst : (head ++ '\x7b' :: u) :: rest =
          Text.lines (head ++ '\x7b' :: u ++ rest.flatMap ('\n' :: ·)) := by
        rw [Text.lines_append_flatMap _ (List.forall_mem_cons.1 hrest).2, Text.lines_of_notMem hline,
          List.singleton_append]
      have hwhole : head ++ '\x7b' :: u ++ rest.flatMap ('\n' :: ·) =
          head ++ ('\x7b' :: inner ++ [c]) ++ l ++ back.flatMap ('\n' :: ·) := by
        rw [List.append_assoc, List.cons_append, ← htext, ← Text.append_flatMap_tail hl]
        simp only [List.append_assoc]
      refine ⟨_, _, back, ?_, .braces hhead' hl' hc hbal⟩
      rw [hfirst, hwhole, Text.lines_append_flatMap _ hback, braceLines]

section

variable {front : List Text} (hfront : AreLines front)
include hfront

/-- A statement is read where its lines stand. -/
theorem ofLine_core {core : List Text} {names : Option Region} (hcore : IsCore front core names)
    {line : Text} (hline : core.head? = some line) (rest : List Text) :
    ofLine (front ++ (core ++ rest)) front.length line =
      .ok (between front core (follow core rest) names) := by
  refine ofLine_of_names hcore.ne_nil ?_ ?_
  · cases hcore with
    | plain h =>
      obtain rfl := Option.some.inj hline
      refine .inl ⟨?_, rfl⟩
      simp only [List.any_eq_false, beq_iff_eq]
      rintro c hc rfl
      exact h hc
    | @braces head inner rest' c hhead hrest hc hbal =>
      refine .inr ⟨?_, _, rfl, ?_⟩
      · obtain ⟨l, ls, -, hl⟩ := exists_lines_brace hhead.2 (inner ++ c :: rest')
        rw [braceLines_eq, hl] at hline
        obtain rfl := Option.some.inj hline
        simp
      · rw [braceLines_eq, locateFrom_brace hhead]
        have hfound := bracketed?_of_balanced (o := '\x7b') rfl hc hbal
          (rest' ++ rest.flatMap ('\n' :: ·))
        have htext : '\x7b' :: (inner ++ c :: rest' ++ rest.flatMap ('\n' :: ·)) =
            '\x7b' :: inner ++ c :: (rest' ++ rest.flatMap ('\n' :: ·)) := by
          simp
        rw [htext, Region.atStart?, hfound]
        rfl
  · cases hcore with
    | plain h => rfl
    | @braces head inner rest' c hhead hrest hc hbal =>
      rw [length_core hhead.2 hrest hc, Option.map_some, Option.getD_some,
        (at_lines hfront hhead.2 c).2]
      omega

/-- A line that starts the lines of a statement is read as this statement, and any other one has a
brace that nothing closes. -/
theorem ofLine_cases {line : Text} {rest : List Text} (hrest : AreLines (line :: rest)) :
    (∃ core names back, line :: rest = core ++ back ∧ IsCore front core names ∧
      ofLine (front ++ line :: rest) front.length line =
        .ok (between front core (follow core back) names)) ∨
    ofLine (front ++ line :: rest) front.length line =
      .error (.unbalanced ['\x7b'] front.length none) := by
  rcases exists_core_or_unbalanced front hrest with ⟨core, names, back, hsplit, hcore⟩ | herror
  · have hhead : core.head? = some line := by
      obtain ⟨first, core, rfl⟩ := List.exists_cons_of_ne_nil hcore.ne_nil
      obtain ⟨rfl, -⟩ := List.cons.inj hsplit
      rfl
    exact .inl ⟨core, names, back, hsplit, hcore, hsplit ▸ ofLine_core hfront hcore hhead back⟩
  · exact .inr herror

end

/-! ## The statements of lines -/

/-- A statement in front of the lines `back`: its own lines, and the line that it takes. -/
structure IsStatement (back front core next : List Text) (names : Option Region) : Prop where
  opens : ∀ line ∈ core.head?, starts line = true
  isCore : IsCore front core names
  takes : follow core (next ++ back) = next

/-- The statements that `lines` hold, behind the lines `front` and in front of the lines `back`. -/
inductive Collects (back : List Text) : (front lines : List Text) → List ImportStatement → Prop
  | nil {front : List Text} : Collects back front [] []
  | skip {front lines : List Text} {line : Text} {ss : List ImportStatement}
    (hline : starts line = false) (hrest : Collects back (front ++ [line]) lines ss) :
    Collects back front (line :: lines) ss
  | statement {front core next lines : List Text} {names : Option Region} {ss : List ImportStatement}
    (h : IsStatement (lines ++ back) front core next names)
    (hrest : Collects back (front ++ (core ++ next)) lines ss) :
    Collects back front (core ++ (next ++ lines)) (between front core next names :: ss)

theorem endLine_between (front : List Text) {core : List Text} (h : core ≠ []) (next : List Text)
    (names : Option Region) :
    (between front core next names).endLine + 1 = (front ++ (core ++ next)).length := by
  have := List.length_pos_iff.2 h
  simp only [between, List.length_append]
  omega

/-- The lines behind a statement start with the one that it takes. -/
theorem exists_follow (core rest : List Text) : ∃ back, rest = follow core rest ++ back := by
  cases rest with
  | nil => exact ⟨[], by simp [follow]⟩
  | cons line rest =>
    rw [follow_cons]
    split
    · exact ⟨rest, rfl⟩
    · exact ⟨line :: rest, rfl⟩

/-- The statements that lines hold are collected, or the first brace of some line is not closed. -/
theorem collect_cases {fuel : Nat} (front : List Text) {lines : List Text}
    (hlines : AreLines (front ++ lines)) (hfuel : lines.length < fuel) :
    (∃ ss, collect (front ++ lines) fuel front.length = .ok ss ∧ Collects [] front lines ss) ∨
    ∃ i, i < (front ++ lines).length ∧
      collect (front ++ lines) fuel front.length = .error (.unbalanced ['\x7b'] i none) := by
  -- each call leaves fewer lines and one unit of fuel less, so the fuel lasts
  induction fuel generalizing front lines with
  | zero => cases hfuel
  | succ fuel ih =>
    cases lines with
    | nil =>
      rw [collect, List.append_nil, List.getElem?_eq_none (Nat.le_refl _)]
      exact .inl ⟨[], rfl, .nil⟩
    | cons line lines =>
      have hget : (front ++ line :: lines)[front.length]? = some line := by simp
      obtain ⟨hfront, hrest⟩ := List.forall_mem_append.1 hlines
      rw [collect, hget]
      simp only
      split
      · next hstarts =>
        rcases ofLine_cases hfront hrest with ⟨core, names, back, hsplit, hcore, hread⟩ | hread
        · obtain ⟨lines', hback⟩ := exists_follow core back
          generalize hnext : follow core back = next at hread hback
          subst hback
          have hpos := List.length_pos_iff.2 hcore.ne_nil
          have hlength := congrArg List.length hsplit
          simp only [List.length_cons, List.length_append] at hlength hfuel
          have hhead : core.head? = some line := by
            obtain ⟨first, core, rfl⟩ := List.exists_cons_of_ne_nil hcore.ne_nil
            rw [(List.cons.inj hsplit).1]
            rfl
          have hassoc : front ++ (core ++ (next ++ lines')) = front ++ (core ++ next) ++ lines' := by
            simp only [List.append_assoc]
          rw [bind_of_ok hread, endLine_between front hcore.ne_nil]
          rw [hsplit, hassoc] at hlines ⊢
          rcases ih (front ++ (core ++ next)) hlines (by omega) with
            ⟨ss, hss, hcollects⟩ | ⟨i, hi, herror⟩
          · refine .inl ⟨_, bind_of_ok hss _, .statement ⟨?_, hcore, ?_⟩ hcollects⟩
            · simpa [hhead] using hstarts
            · rwa [List.append_nil]
          · rw [herror]
            exact .inr ⟨i, hi, rfl⟩
        · rw [hread]
          exact .inr ⟨front.length, by simp, rfl⟩
      · next hstarts =>
        have hassoc : front ++ line :: lines = front ++ [line] ++ lines := by simp
        rw [hassoc] at hlines ⊢
        have hlength : front.length + 1 = (front ++ [line]).length := by simp
        rw [hlength]
        refine (ih (front ++ [line]) hlines (by simpa using hfuel)).imp_left ?_
        rintro ⟨ss, hss, hcollects⟩
        exact ⟨ss, hss, .skip (by simpa using hstarts) hcollects⟩

theorem collect_of_collects {fuel : Nat} (front : List Text) {lines : List Text}
    {ss : List ImportStatement} (hlines : AreLines (front ++ lines)) (h : Collects [] front lines ss)
    (hfuel : lines.length < fuel) : collect (front ++ lines) fuel front.length = .ok ss := by
  induction h generalizing fuel with
  | nil =>
    obtain ⟨fuel, rfl⟩ := Nat.exists_eq_add_of_lt hfuel
    rw [collect, List.append_nil, List.getElem?_eq_none (Nat.le_refl _)]
  | @skip front lines line ss hline hrest ih =>
    obtain ⟨fuel, rfl⟩ := Nat.exists_eq_succ_of_ne_zero (Nat.ne_of_gt (Nat.zero_lt_of_lt hfuel))
    have hget : (front ++ line :: lines)[front.length]? = some line := by simp
    have hcollect := @ih fuel (by simpa using hlines) (by simpa using hfuel)
    rw [collect, hget]
    simp only [hline]
    simpa using hcollect
  | @statement front core next lines names ss h hrest ih =>
    obtain ⟨fuel, rfl⟩ := Nat.exists_eq_succ_of_ne_zero (Nat.ne_of_gt (Nat.zero_lt_of_lt hfuel))
    obtain ⟨line, core', hcons⟩ := List.exists_cons_of_ne_nil h.isCore.ne_nil
    have hget : (front ++ (core ++ (next ++ lines)))[front.length]? = some line := by simp [hcons]
    have hhead : core.head? = some line := by rw [hcons]; rfl
    have hpos := List.length_pos_iff.2 h.isCore.ne_nil
    simp only [List.length_append] at hfuel
    have hcollect := @ih fuel (by simpa using hlines) (by omega)
    have hread := ofLine_core (List.forall_mem_append.1 hlines).1 h.isCore hhead (next ++ lines)
    have hnext := h.takes
    rw [List.append_nil] at hnext
    rw [hnext] at hread
    rw [collect, hget]
    simp only [h.opens line hhead, if_true]
    rw [bind_of_ok hread, endLine_between front h.isCore.ne_nil]
    refine bind_of_ok ?_ _
    simpa using hcollect

/-- The reader finds the statements that the lines hold. -/
theorem ofDocument_eq_ok_iff {d : Document} (hd : AreLines d.lines) {ss : List ImportStatement} :
    ofDocument d = .ok ss ↔ Collects [] [] d.lines ss := by
  have hcollect : collect d.lines (d.lines.length + 1) 0 = .ok ss ↔ Collects [] [] d.lines ss := by
    refine ⟨fun h => ?_, fun h => collect_of_collects [] hd h (Nat.lt_succ_self _)⟩
    rcases collect_cases [] hd (Nat.lt_succ_self _) with ⟨tt, htt, hcollects⟩ | ⟨i, -, herror⟩
    · obtain rfl := Except.ok.inj (htt.symm.trans h)
      exact hcollects
    · cases herror.symm.trans h
  rw [← hcollect, ofDocument]
  cases collect d.lines (d.lines.length + 1) 0 with
  | error fault => exact iff_of_false (fun h => by cases h) (fun h => by cases h)
  | ok ss => exact Iff.rfl

/-- The statements of a file are read, or a brace on one of its lines is not closed. -/
theorem ofDocument_cases {d : Document} (hd : AreLines d.lines) :
    (∃ ss, ofDocument d = .ok ss) ∨
      ∃ i, i < d.lines.length ∧ ofDocument d = .error (.unbalanced ['\x7b'] i (some d.path)) := by
  rcases collect_cases [] hd (Nat.lt_succ_self _) with ⟨ss, hss, -⟩ | ⟨i, hi, herror⟩
  · refine .inl ⟨ss, ?_⟩
    rw [ofDocument]
    exact congrArg (Except.mapError (Fault.inFile d.path)) hss
  · refine .inr ⟨i, hi, ?_⟩
    rw [ofDocument]
    exact congrArg (Except.mapError (Fault.inFile d.path)) herror

/-! ## Changing lines -/

theorem follow_congr (core : List Text) {rest rest' : List Text} (h : rest.head? = rest'.head?) :
    follow core rest = follow core rest' := by
  rw [follow, follow, h]

/-- A statement takes the same line from other lines, unless these go on with it. -/
theorem IsStatement.of_back {back back' front core next : List Text} {names : Option Region}
    (h : IsStatement back front core next names)
    (hback : back'.head? = back.head? ∨ ∀ line ∈ back'.head?, goesOn line = false) :
    IsStatement back' front core next names where
  opens := h.opens
  isCore := h.isCore
  takes := by
    cases next with
    | cons line next => exact (follow_congr core rfl).trans h.takes
    | nil =>
      rcases hback with hsame | hother
      · exact (follow_congr core hsame).trans h.takes
      · cases back' with
        | nil => simp [follow]
        | cons line back' => rw [List.nil_append, follow_cons, hother line rfl, Bool.and_false]; rfl

/-- The statement behind other lines, with its braces in another place. -/
theorem IsCore.exists_move {front core : List Text} {names : Option Region}
    (h : IsCore front core names) (front' : List Text) : ∃ names', IsCore front' core names' := by
  cases h with
  | plain h => exact ⟨none, .plain h⟩
  | braces hhead hrest hc hbal => exact ⟨_, .braces hhead hrest hc hbal⟩

namespace Collects

variable {back front X Y : List Text} {ss tt : List ImportStatement}

theorem append (hX : Collects (Y ++ back) front X ss) (hY : Collects back (front ++ X) Y tt) :
    Collects back front (X ++ Y) (ss ++ tt) := by
  induction hX with
  | nil => simpa using hY
  | skip hline _ ih => exact .skip hline (ih (by simpa using hY))
  | @statement front core next lines names ss h _ ih =>
    have := ih (by simpa using hY)
    rw [List.append_assoc, List.append_assoc]
    refine .statement ?_ this
    rwa [List.append_assoc]

/-- The lines hold the same statements in front of other lines that do not go on with the last. -/
theorem of_back {back' : List Text} (h : Collects back front X ss)
    (hback : ∀ line ∈ back'.head?, goesOn line = false) : Collects back' front X ss := by
  induction h with
  | nil => exact .nil
  | skip hline _ ih => exact .skip hline ih
  | @statement front core next lines names ss h _ ih =>
    -- only the last statement sees the lines behind
    refine .statement (h.of_back ?_) ih
    cases lines with
    | nil => exact .inr hback
    | cons line lines => exact .inl rfl

/-- The lines hold statements behind other lines as well. -/
theorem exists_move (h : Collects back front X ss) (front' : List Text) :
    ∃ ss', Collects back front' X ss' := by
  induction h generalizing front' with
  | nil => exact ⟨[], .nil⟩
  | @skip front lines line ss hline _ ih =>
    obtain ⟨ss', h⟩ := ih (front' ++ [line])
    exact ⟨ss', .skip hline h⟩
  | @statement front core next lines names ss h _ ih =>
    obtain ⟨ss', hrest⟩ := ih (front' ++ (core ++ next))
    obtain ⟨names', hcore⟩ := h.isCore.exists_move front'
    exact ⟨_, .statement ⟨h.opens, hcore, h.takes⟩ hrest⟩

/-- One of the statements, and the lines around it. -/
theorem exists_statement {early late : List ImportStatement} {s : ImportStatement}
    (h : Collects back front X (early ++ s :: late)) :
    ∃ before core next after names, X = before ++ (core ++ (next ++ after)) ∧
      s = between (front ++ before) core next names ∧
      IsStatement (after ++ back) (front ++ before) core next names ∧
      Collects (core ++ (next ++ (after ++ back))) front before early ∧
      Collects back (front ++ before ++ (core ++ next)) after late := by
  generalize hss : early ++ s :: late = ss at h
  induction h generalizing early with
  | nil => simp at hss
  | @skip front lines line ss hline _ ih =>
    obtain ⟨before, core, next, after, names, rfl, rfl, hs, hearly, hlate⟩ := ih hss
    have hfront : front ++ [line] ++ before = front ++ line :: before := by simp
    rw [hfront] at hs hlate ⊢
    exact ⟨line :: before, core, next, after, names, rfl, rfl, hs, .skip hline hearly, hlate⟩
  | @statement front core next lines names ss h hrest ih =>
    cases early with
    | nil =>
      obtain ⟨rfl, rfl⟩ := List.cons.inj hss
      refine ⟨[], core, next, lines, names, rfl, ?_, ?_, .nil, ?_⟩
      · rw [List.append_nil]
      · rwa [List.append_nil]
      · rwa [List.append_nil]
    | cons t early =>
      obtain ⟨rfl, hrest⟩ := List.cons.inj hss
      obtain ⟨before, core', next', after, names', rfl, rfl, hs, hearly, hlate⟩ := ih hrest
      refine ⟨core ++ (next ++ before), core', next', after, names', ?_, ?_, ?_, ?_, ?_⟩
      · simp
      · simp
      · simpa using hs
      · refine .statement ?_ hearly
        simpa using h
      · simpa using hlate

end Collects

end ImportStatement

end Scaffold.Script
