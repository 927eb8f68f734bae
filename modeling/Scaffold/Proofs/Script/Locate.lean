import Scaffold.Proofs.Script.Cut

/-!
# Finding a region again

The search looks for the first line with the marker and the first column in it (`FirstPlace`), and
then for the bracket that the marker stands for (`OpensBehind`).  Both depend only on the text up to
the bracket (`FirstMarker`, `openAt?_congr`), so a literal that is replaced by another one between
the same brackets is found again at the same place (`exists_ofDocument_eq`).
-/

namespace Scaffold.Script

/-! ## The first marker -/

/-- Line number `m` is the first one from number `first` on that holds the marker, which first
stands between `column` and `behind` there. -/
structure FirstPlace (lines : List Text) (marker : Text) (first m : Nat) (column behind : Text) :
    Prop where
  first_le : first ≤ m
  line : lines[m]? = some (column ++ marker ++ behind)
  earliest : ∀ k line, first ≤ k → k < m → lines[k]? = some line → ¬ marker <:+: line
  leftmost : ∀ column' behind', column' ++ marker ++ behind' = column ++ marker ++ behind →
    column.length ≤ column'.length

theorem findLine?_eq_none_iff {lines : List Text} {needle : Text} {first : Nat} :
    findLine? lines needle first = none ↔
      ∀ m line, first ≤ m → lines[m]? = some line → ¬ needle <:+: line := by
  rw [findLine?, Option.map_eq_none_iff, List.findIdx?_eq_none_iff]
  constructor
  · intro h m line hm hline hneedle
    have hmem : line ∈ lines.drop first := by
      obtain ⟨k, rfl⟩ := Nat.exists_eq_add_of_le hm
      rw [← List.getElem?_drop] at hline
      exact List.mem_of_getElem? hline
    have := h line hmem
    rw [Text.contains_eq_true_iff.2 hneedle] at this
    cases this
  · intro h line hmem
    obtain ⟨k, hk⟩ := List.getElem?_of_mem hmem
    rw [List.getElem?_drop] at hk
    refine Bool.eq_false_iff.2 fun hfound => ?_
    exact h _ line (Nat.le_add_right ..) hk (Text.contains_eq_true_iff.1 hfound)

theorem findLine?_eq_some_iff {lines : List Text} {needle : Text} {first m : Nat} :
    findLine? lines needle first = some m ↔ first ≤ m ∧
      (∃ line, lines[m]? = some line ∧ needle <:+: line) ∧
      ∀ k line, first ≤ k → k < m → lines[k]? = some line → ¬ needle <:+: line := by
  constructor
  · intro h
    obtain ⟨j, hj, rfl⟩ := Option.map_eq_some_iff.1 h
    obtain ⟨hlt, hfound, hbefore⟩ := List.findIdx?_eq_some_iff_getElem.1 hj
    refine ⟨Nat.le_add_right .., ⟨(lines.drop first)[j], ?_, Text.contains_eq_true_iff.1 hfound⟩, ?_⟩
    · rw [← List.getElem?_drop, List.getElem?_eq_getElem hlt]
    · intro k line hk hkj hline hneedle
      obtain ⟨i, rfl⟩ := Nat.exists_eq_add_of_le hk
      rw [← List.getElem?_drop] at hline
      obtain ⟨hi, rfl⟩ := List.getElem?_eq_some_iff.1 hline
      exact hbefore i (by omega) (Text.contains_eq_true_iff.2 hneedle)
  · rintro ⟨hm, ⟨line, hline, hneedle⟩, hbefore⟩
    obtain ⟨j, rfl⟩ := Nat.exists_eq_add_of_le hm
    rw [← List.getElem?_drop] at hline
    obtain ⟨hlt, rfl⟩ := List.getElem?_eq_some_iff.1 hline
    refine Option.map_eq_some_iff.2 ⟨j, List.findIdx?_eq_some_iff_getElem.2
      ⟨hlt, Text.contains_eq_true_iff.2 hneedle, fun k hk hfound => ?_⟩, rfl⟩
    refine hbefore (first + k) _ (Nat.le_add_right ..) (by omega) ?_
      (Text.contains_eq_true_iff.1 hfound)
    rw [← List.getElem?_drop, List.getElem?_eq_getElem]

/-- The line and the column that are found are the marker's first place. -/
theorem firstPlace_iff {lines : List Text} {marker : Text} {first m : Nat} {column behind : Text} :
    FirstPlace lines marker first m column behind ↔ findLine? lines marker first = some m ∧
      lines[m]?.bind (Text.breakOn? marker) = some (column, behind) := by
  rw [findLine?_eq_some_iff]
  constructor
  · intro h
    refine ⟨⟨h.first_le, ⟨_, h.line, column, behind, rfl⟩, h.earliest⟩, ?_⟩
    rw [h.line, Option.bind_some]
    exact Text.breakOn?_eq_some_iff.2 ⟨rfl, h.leftmost⟩
  · rintro ⟨⟨hfirst, -, hearliest⟩, hbreak⟩
    obtain ⟨line, hline, hbreak⟩ := Option.bind_eq_some_iff.1 hbreak
    obtain ⟨rfl, hleftmost⟩ := Text.breakOn?_eq_some_iff.1 hbreak
    exact ⟨hfirst, hline, hearliest, hleftmost⟩

theorem exists_firstPlace {lines : List Text} {marker : Text} {first m : Nat}
    (h : findLine? lines marker first = some m) :
    ∃ column behind, FirstPlace lines marker first m column behind := by
  obtain ⟨-, ⟨line, hline, hholds⟩, -⟩ := findLine?_eq_some_iff.1 h
  obtain ⟨⟨column, behind⟩, hbreak⟩ :=
    Option.isSome_iff_exists.1 (Text.contains_eq_true_iff.2 hholds)
  exact ⟨column, behind, firstPlace_iff.2 ⟨h, by rw [hline, Option.bind_some, hbreak]⟩⟩

theorem FirstPlace.joinLines_eq {lines : List Text} (hlines : ∀ line ∈ lines, '\n' ∉ line)
    {marker column behind : Text} {first m : Nat}
    (h : FirstPlace lines marker first m column behind) :
    Text.joinLines lines =
      Text.upTo lines m column ++ marker ++ Text.fromLine lines m behind := by
  have hline := h.line
  rw [List.append_assoc] at hline
  rw [Text.joinLines_eq hlines hline, Text.fromLine, Text.fromLine]
  simp only [List.append_assoc]

/-- The region behind a marker, from the texts around it. -/
def Region.between? (before marker after : Text) : Option Region :=
  (openAt? before marker after).bind fun (before, text) => atStart? before text

/-- The region behind the first marker, from the marker's place. -/
theorem locateFrom_of_firstPlace {lines : List Text} {marker column behind : Text} {first m : Nat}
    (h : FirstPlace lines marker first m column behind) :
    Region.locateFrom lines marker first =
      match Region.between? (Text.upTo lines m column) marker (Text.fromLine lines m behind) with
      | some r => .ok r
      | none => .error (.unbalanced marker m none) := by
  obtain ⟨hfind, hbreak⟩ := firstPlace_iff.1 h
  rw [Region.locateFrom, hfind]
  simp only [hbreak, Option.getD_some]
  rfl

/-- A marker behind `before` is the first one on a line, whatever follows it. -/
def FirstMarker (before marker : Text) : Prop :=
  ∃ (front : List Text) (head : Text), before = front.flatMap (· ++ ['\n']) ++ head ∧
    (∀ line ∈ front, '\n' ∉ line ∧ Text.contains marker line = false) ∧
    '\n' ∉ head ++ marker ∧
    ∀ t, Text.breakOn? marker (head ++ marker ++ t) = some (head, t)

theorem FirstPlace.firstMarker {lines : List Text} (hlines : ∀ line ∈ lines, '\n' ∉ line)
    {marker column behind : Text} {m : Nat} (h : FirstPlace lines marker 0 m column behind) :
    FirstMarker (Text.upTo lines m column) marker := by
  refine ⟨lines.take m, column, rfl, fun line hmem => ⟨?_, ?_⟩, ?_, fun t => ?_⟩
  · exact hlines line (List.mem_of_mem_take hmem)
  · obtain ⟨k, hk, rfl⟩ := List.getElem_of_mem hmem
    rw [List.length_take] at hk
    refine Bool.eq_false_iff.2 fun hfound => ?_
    refine h.earliest k _ (Nat.zero_le k) (by omega) ?_ (Text.contains_eq_true_iff.1 hfound)
    rw [List.getElem_take, List.getElem?_eq_getElem]
  · have hline := hlines _ (List.mem_of_getElem? h.line)
    exact fun hn => hline (List.mem_append_left _ hn)
  · exact Text.breakOn?_congr (Text.breakOn?_eq_some_iff.2 ⟨rfl, h.leftmost⟩) t

theorem locate_of_firstMarker {before marker : Text} (h : FirstMarker before marker) {after : Text}
    {r : Region} (hr : Region.between? before marker after = some r) :
    Region.locate (Text.lines (before ++ marker ++ after)) marker = .ok r := by
  obtain ⟨front, head, rfl, hfront, hline, hbreak⟩ := h
  obtain ⟨l, ls, hl⟩ := List.exists_cons_of_ne_nil (Text.lines_ne_nil after)
  have hlines : Text.lines (front.flatMap (· ++ ['\n']) ++ head ++ marker ++ after) =
      front ++ (head ++ marker ++ l) :: ls := by
    rw [List.append_assoc, List.append_assoc, Text.lines_flatMap_append fun x hx => (hfront x hx).1,
      ← List.append_assoc, Text.lines_append_line hline hl]
  have hplace : FirstPlace (front ++ (head ++ marker ++ l) :: ls) marker 0 front.length head l := by
    refine ⟨Nat.zero_le _, by simp, fun k line _ hk hget hholds => ?_, ?_⟩
    · rw [List.getElem?_append_left hk] at hget
      rw [← Text.contains_eq_true_iff, (hfront line (List.mem_of_getElem? hget)).2] at hholds
      cases hholds
    · exact (Text.breakOn?_eq_some_iff.1 (hbreak l)).2
  have hafter : Text.fromLine (front ++ (head ++ marker ++ l) :: ls) front.length l = after := by
    simp [Text.fromLine, Text.append_flatMap_tail hl]
  rw [hlines, Region.locate, locateFrom_of_firstPlace hplace, hafter, Text.upTo, List.take_left, hr]

theorem exists_firstMarker {u marker : Text} {r : Region}
    (h : Region.locate (Text.lines u) marker = .ok r) :
    ∃ before after, FirstMarker before marker ∧ u = before ++ marker ++ after ∧
      Region.between? before marker after = some r := by
  have hlines := Text.newline_notMem_lines u
  rw [Region.locate] at h
  cases hfind : findLine? (Text.lines u) marker 0 with
  | none =>
    rw [Region.locateFrom, hfind] at h
    cases h
  | some m =>
    obtain ⟨column, behind, hplace⟩ := exists_firstPlace hfind
    rw [locateFrom_of_firstPlace hplace] at h
    split at h
    · next hbetween =>
      obtain rfl := Except.ok.inj h
      have htext : Text.joinLines (Text.lines u) = u := List.intercalate_splitOn '\n'
      refine ⟨_, _, hplace.firstMarker hlines, ?_, hbetween⟩
      exact htext.symm.trans (hplace.joinLines_eq hlines)
    · cases h

/-! ## The bracket behind the marker -/

/-- The last character of a marker does not open a region itself. -/
def IsOpenEnded (marker : Text) : Prop :=
  (Text.trimEnd marker).getLast? ≠ some '[' ∧ (Text.trimEnd marker).getLast? ≠ some '\x7b'

/-- The brackets that open a region. -/
def Visit.opensRegion (v : Visit) : Prop := v.lexeme = .code ∧ (v.char = '[' ∨ v.char = '\x7b')

/-- The bracket `o` behind `before` is the one that a marker between `lead` and `tail` stands for:
the last character of the marker that is not blank, or else the first bracket or brace that is
scanned as code when the scan starts behind the marker. -/
inductive OpensBehind (lead marker tail : Text) : Text → Char → Prop where
  | own {kept : Text} {o : Char} : Text.trimEnd marker = kept ++ [o] → o = '[' ∨ o = '\x7b' →
      OpensBehind lead marker tail (lead ++ kept) o
  | next {vs ws : List Visit} {v : Visit} : IsOpenEnded marker → scan tail = vs ++ v :: ws →
      v.opensRegion → (∀ w ∈ vs, ¬ w.opensRegion) →
      OpensBehind lead marker tail (lead ++ marker ++ textOf vs) v.char

theorem OpensBehind.opening {lead marker tail before : Text} {o : Char}
    (h : OpensBehind lead marker tail before o) : o = '[' ∨ o = '\x7b' := by
  cases h with
  | own _ ho => exact ho
  | next _ _ hv _ => exact hv.2

theorem breakAtOpening?_eq_some_iff {t skipped rest : Text} :
    breakAtOpening? t = some (skipped, rest) ↔ ∃ vs v ws, scan t = vs ++ v :: ws ∧
      v.opensRegion ∧ (∀ w ∈ vs, ¬ w.opensRegion) ∧ skipped = textOf vs ∧
      rest = textOf (v :: ws) := by
  have hopens (v : Visit) : (v.lexeme == .code && (v.char == '[' || v.char == '\x7b')) = true ↔
      v.opensRegion := by
    simp [Visit.opensRegion]
  constructor
  · intro h
    obtain ⟨⟨vs, v, ws⟩, hbreak, heq⟩ := Option.map_eq_some_iff.1 h
    obtain ⟨hscan, hv, hvs⟩ := eq_append_of_breakAt? hbreak
    obtain ⟨rfl, rfl⟩ := Prod.mk.inj heq
    refine ⟨vs, v, ws, hscan, (hopens v).1 hv, fun w hw => ?_, rfl, rfl⟩
    rw [← hopens w, hvs w hw]
    exact Bool.false_ne_true
  · rintro ⟨vs, v, ws, hscan, hv, hvs, rfl, rfl⟩
    rw [breakAtOpening?, hscan]
    simp only
    rw [breakAt?_append (fun w hw => Bool.eq_false_iff.2 (mt (hopens w).1 (hvs w hw)))
      ((hopens v).2 hv)]
    rfl

/-- A marker that ends in no bracket stands for the first one that opens behind it. -/
theorem openAt?_next {marker : Text} (h : IsOpenEnded marker) (lead tail : Text) :
    Region.openAt? lead marker tail =
      (breakAtOpening? tail).map fun (skipped, literal) => (lead ++ marker ++ skipped, literal) := by
  have hlast : ¬ ((Text.trimEnd marker).getLast? == some '[' ||
      (Text.trimEnd marker).getLast? == some '\x7b') = true := by
    simpa [IsOpenEnded] using h
  rw [Region.openAt?]
  simp only [if_neg hlast]

/-- The text is divided before the bracket that the marker stands for. -/
theorem openAt?_eq_some_iff {lead marker tail before rest : Text} {o : Char} :
    Region.openAt? lead marker tail = some (before, o :: rest) ↔
      OpensBehind lead marker tail before o ∧ lead ++ marker ++ tail = before ++ o :: rest := by
  obtain ⟨blanks, -, hmarker⟩ := Text.exists_eq_trimEnd_append marker
  constructor
  · intro h
    by_cases hended : IsOpenEnded marker
    · rw [openAt?_next hended] at h
      obtain ⟨⟨skipped, literal⟩, hbreak, heq⟩ := Option.map_eq_some_iff.1 h
      obtain ⟨vs, v, ws, hscan, hv, hvs, rfl, rfl⟩ := breakAtOpening?_eq_some_iff.1 hbreak
      obtain ⟨rfl, hrest⟩ := Prod.mk.inj heq
      obtain ⟨rfl, rfl⟩ := List.cons.inj hrest
      refine ⟨.next hended hscan hv hvs, ?_⟩
      rw [← textOf_scan tail, hscan]
      simp [textOf]
    · obtain ⟨b, hb, hlast⟩ : ∃ b, (b = '[' ∨ b = '\x7b') ∧
          (Text.trimEnd marker).getLast? = some b := by
        rcases Decidable.not_and_iff_not_or_not.1 hended with hlast | hlast
        · exact ⟨'[', .inl rfl, Decidable.not_not.1 hlast⟩
        · exact ⟨'\x7b', .inr rfl, Decidable.not_not.1 hlast⟩
      obtain ⟨kept, hkept⟩ := List.getLast?_eq_some_iff.1 hlast
      rw [hkept, List.append_assoc] at hmarker
      rw [openAt?_own hkept hb hmarker] at h
      obtain ⟨rfl, hrest⟩ := Prod.mk.inj (Option.some.inj h)
      obtain ⟨rfl, rfl⟩ := List.cons.inj hrest
      exact ⟨.own hkept hb, by simp [hmarker]⟩
  · rintro ⟨hopens, hsplit⟩
    cases hopens with
    | @own kept _ hkept ho =>
      rw [hkept, List.append_assoc] at hmarker
      obtain rfl : blanks ++ tail = rest := by
        rw [hmarker] at hsplit
        simpa using hsplit
      exact openAt?_own hkept ho hmarker
    | @next vs ws v hended hscan hv hvs =>
      have hbreak := breakAtOpening?_eq_some_iff.2 ⟨_, _, _, hscan, hv, hvs, rfl, rfl⟩
      obtain rfl : textOf ws = rest := by
        rw [← textOf_scan tail, hscan] at hsplit
        simpa [textOf] using hsplit
      rw [openAt?_next hended, hbreak]
      rfl

/-- The first bracket of code is found whatever follows it. -/
theorem breakAtOpening?_congr {t skipped v : Text} {o : Char}
    (h : breakAtOpening? t = some (skipped, o :: v)) :
    t = skipped ++ o :: v ∧ ∀ u, breakAtOpening? (skipped ++ o :: u) = some (skipped, o :: u) := by
  obtain ⟨⟨before, w, after⟩, hbreak, heq⟩ := Option.map_eq_some_iff.1 h
  obtain ⟨hscan, hopens, hbefore⟩ := eq_append_of_breakAt? hbreak
  obtain ⟨rfl, hw⟩ := Prod.mk.inj heq
  obtain ⟨rfl, rfl⟩ := List.cons.inj hw
  have hbracket : w.char = '[' ∨ w.char = '\x7b' := by simp_all
  have hmark (d : Char) : isCommentMark w.char d = false := by
    rcases hbracket with hw | hw <;> rw [hw] <;> rfl
  have hm (u : Text) : Apart (textOf before) (w.char :: u) := by
    apply apart_cons
    all_goals rcases hbracket with hw | hw <;> rw [hw] <;> decide
  have htext : t = textOf before ++ w.char :: textOf after := by
    rw [← textOf_scan t, hscan]
    simp [textOf]
  refine ⟨htext, fun u => ?_⟩
  rw [htext, scan, scanFrom_append (hm _), scanFrom_cons,
    ScanState.step_of_not_mark _ fun d _ => hmark d] at hscan
  obtain ⟨hfront, hvisit⟩ := List.append_inj hscan (by simp)
  have hscan' : scan (textOf before ++ w.char :: u) = before ++ w ::
      scanFrom ((ScanState.after {} (textOf before)).step w.char none).2 u := by
    rw [scan, scanFrom_append (hm _), scanFrom_cons,
      ScanState.step_of_not_mark _ fun d _ => hmark d, hfront, (List.cons.inj hvisit).1]
  rw [breakAtOpening?, hscan']
  simp only [breakAt?_append hbefore hopens, Option.map_some]
  simp [textOf]

/-- A bracket behind a marker: what stands in front of it depends on the text up to it only. -/
theorem openAt?_congr {before marker after lead t : Text} {o : Char}
    (hmarker : Text.trimEnd marker = marker)
    (h : Region.openAt? before marker after = some (lead, o :: t)) :
    before ++ marker ++ after = lead ++ o :: t ∧ ∀ u, ∃ after',
      before ++ marker ++ after' = lead ++ o :: u ∧
        Region.openAt? before marker after' = some (lead, o :: u) := by
  obtain ⟨hopens, hsplit⟩ := openAt?_eq_some_iff.1 h
  refine ⟨hsplit, fun u => ?_⟩
  cases hopens with
  | @own kept _ hkept ho =>
    have hsplit' : before ++ marker ++ u = before ++ kept ++ o :: u := by
      rw [hmarker.symm.trans hkept]
      simp
    exact ⟨u, hsplit', openAt?_eq_some_iff.2 ⟨.own hkept ho, hsplit'⟩⟩
  | @next vs ws v hended hscan hv hvs =>
    have hbreak := breakAtOpening?_eq_some_iff.2 ⟨_, _, _, hscan, hv, hvs, rfl, rfl⟩
    refine ⟨textOf vs ++ v.char :: u, by simp, ?_⟩
    rw [openAt?_next hended, (breakAtOpening?_congr hbreak).2]
    rfl

/-! ## Literals in a document -/

/-- The region of a literal behind some text. -/
def Region.at (before literal : Text) : Region where
  content := literal
  startLine := before.count '\n'
  endLine := before.count '\n' + literal.dropLast.count '\n'
  startOffset := before.byteLength

/-- A region that is found in a text is a balanced text between brackets, and so is any other one
between the same brackets. -/
theorem exists_locate_eq {u marker : Text} {r : Region} (hmarker : Text.trimEnd marker = marker)
    (h : Region.locate (Text.lines u) marker = .ok r) :
    ∃ lead o inner c tail, isOpening o = true ∧ isClosing c = true ∧ Balanced inner ∧
      u = lead ++ (o :: inner ++ [c]) ++ tail ∧ r = .at lead (o :: inner ++ [c]) ∧
      ∀ inner', Balanced inner' →
        Region.locate (Text.lines (lead ++ (o :: inner' ++ [c]) ++ tail)) marker =
          .ok (.at lead (o :: inner' ++ [c])) := by
  obtain ⟨before, after, hfirst, rfl, hregion⟩ := exists_firstMarker h
  obtain ⟨⟨lead, text⟩, hopen, hstart⟩ := Option.bind_eq_some_iff.1 hregion
  obtain ⟨⟨literal, tail⟩, hliteral, heq⟩ := Option.map_eq_some_iff.1 hstart
  obtain ⟨o, inner, c, ho, hc, hbal, rfl⟩ := exists_balanced_of_bracketed? hliteral
  have htext : text = o :: (inner ++ c :: tail) := by
    rw [← append_eq_of_bracketed? hliteral]
    simp
  rw [htext] at hopen
  obtain ⟨hwhole, hcongr⟩ := openAt?_congr hmarker hopen
  refine ⟨lead, o, inner, c, tail, ho, hc, hbal, by simp [hwhole], heq.symm, fun inner' hbal' => ?_⟩
  obtain ⟨after', hwhole', hopen'⟩ := hcongr (inner' ++ c :: tail)
  have hbracketed := bracketed?_of_balanced ho hc hbal' tail
  have hsplit : lead ++ (o :: inner' ++ [c]) ++ tail = before ++ marker ++ after' := by
    simp [hwhole']
  rw [hsplit]
  refine locate_of_firstMarker hfirst ?_
  rw [Region.between?, hopen', Option.bind_some]
  show Region.atStart? lead (o :: inner' ++ c :: tail) = _
  rw [Region.atStart?, hbracketed]
  rfl

/-- A text ends behind the last bracket of a literal, or with it. -/
theorem getLast?_literal (lead inner tail : Text) (o c : Char) :
    (lead ++ (o :: inner ++ [c]) ++ tail).getLast? = (c :: tail).getLast? := by
  have hsplit : lead ++ (o :: inner ++ [c]) ++ tail = (lead ++ o :: inner) ++ c :: tail := by
    simp
  rw [hsplit, List.getLast?_append, List.getLast?_cons, Option.some_or]

theorem ofDocument_eq_ok_iff {d : Document} {marker : Text} {r : Region} :
    Region.ofDocument d marker = .ok r ↔ Region.locate d.lines marker = .ok r := by
  rw [Region.ofDocument]
  cases Region.locate d.lines marker with
  | error fault => exact iff_of_false (fun h => by cases h) (fun h => by cases h)
  | ok r => exact Iff.rfl

/-- A region that is found in a document is a balanced text between brackets, and so is any other
one between the same brackets. -/
theorem exists_ofDocument_eq {path : Path} {t marker : Text} {r : Region}
    (hmarker : Text.trimEnd marker = marker)
    (h : Region.ofDocument (.ofContent path t) marker = .ok r) :
    ∃ lead o inner c tail, isOpening o = true ∧ isClosing c = true ∧ Balanced inner ∧
      t = lead ++ (o :: inner ++ [c]) ++ tail ∧ r = .at lead (o :: inner ++ [c]) ∧
      ∀ inner', Balanced inner' →
        Region.ofDocument (.ofContent path (lead ++ (o :: inner' ++ [c]) ++ tail)) marker =
          .ok (.at lead (o :: inner' ++ [c])) := by
  simp only [ofDocument_eq_ok_iff] at h ⊢
  have ht : t ≠ [] := by
    rintro rfl
    cases h
  obtain ⟨u, e, rfl, hlines, hothers⟩ := Document.exists_lines_ofContent path ht
  rw [hlines] at h
  obtain ⟨lead, o, inner, c, tail, ho, hc, hbal, rfl, hr, hagain⟩ := exists_locate_eq hmarker h
  refine ⟨lead, o, inner, c, tail ++ e, ho, hc, hbal, by simp, hr, fun inner' hbal' => ?_⟩
  have hlast : (lead ++ (o :: inner' ++ [c]) ++ tail).getLast? =
      (lead ++ (o :: inner ++ [c]) ++ tail).getLast? := by
    rw [getLast?_literal, getLast?_literal]
  rw [← List.append_assoc, hothers _ (by simp) (hlast ▸ id)]
  exact hagain inner' hbal'

end Scaffold.Script
