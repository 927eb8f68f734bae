import Scaffold.Proofs.Script.Literal.Location

/-!
# Where a region stands

`locateFrom_exact`: a region that is found is the literal that its marker opens, and its lines and
offsets are those of its two ends.

Lines are counted by number, offsets in bytes of the joined lines, and the bracket is looked for
in the text behind the marker.  All three are tied to one division of the joined lines, into the
texts before, in and behind the literal (`StandsAt`).  The bracket is the marker's own one or the
first that is scanned as code behind it (`OpensBehind`), with the marker at its first place
(`FirstPlace`).  Each of these is an equivalence with what the search answers, so a region is found
whenever such a literal is there.
-/

namespace Scaffold.Script

/-! ## Lines -/

/-- The character `c` behind `before` stands on line number `i`. -/
def OnLine (lines : List Text) (i : Nat) (before : Text) (c : Char) : Prop :=
  ∃ column rest, lines[i]? = some (column ++ c :: rest) ∧ before = Text.upTo lines i column

/-- A character of the joined lines stands on the line with the number of the newlines before. -/
theorem onLine_iff {lines : List Text} (h : ∀ line ∈ lines, '\n' ∉ line) {before after : Text}
    {c : Char} (hc : c ≠ '\n') (hsplit : Text.joinLines lines = before ++ c :: after) {i : Nat} :
    OnLine lines i before c ↔ i = before.count '\n' := by
  have hcount {i : Nat} (hi : OnLine lines i before c) : i = before.count '\n' := by
    obtain ⟨column, rest, hline, rfl⟩ := hi
    obtain ⟨hlt, hget⟩ := List.getElem?_eq_some_iff.1 hline
    have hfront : ∀ l ∈ lines.take i, '\n' ∉ l := fun l hl => h l (List.mem_of_mem_take hl)
    have hcolumn : '\n' ∉ column := fun hn =>
      h _ (List.getElem_mem hlt) (hget ▸ List.mem_append_left _ hn)
    rw [Text.upTo, Text.count_flatMap_append hfront hcolumn, List.length_take_of_le hlt.le]
  refine ⟨hcount, ?_⟩
  rintro rfl
  suffices hsome : ∃ i, OnLine lines i before c by
    obtain ⟨i, hi⟩ := hsome
    exact hcount hi ▸ hi
  have hlines : Text.lines (before ++ c :: after) = lines := by
    rw [← hsplit]
    refine Text.lines_joinLines h ?_
    rintro rfl
    cases before <;> cases hsplit
  -- the last line of `before` goes on with the character
  obtain ⟨front, column, rfl, hfront, hcolumn⟩ := Text.exists_eq_flatMap_append before
  obtain ⟨rest, back, hback⟩ := List.exists_cons_of_ne_nil (Text.lines_ne_nil after)
  have hmore : '\n' ∉ column ++ [c] := by simpa [hcolumn] using hc.symm
  have hwhole : lines = front ++ (column ++ c :: rest) :: back := by
    rw [← hlines, List.append_assoc, Text.lines_flatMap_append hfront, List.append_cons,
      Text.lines_append_line hmore hback, ← List.append_cons]
  exact ⟨front.length, column, rest, by simp [hwhole], by rw [Text.upTo, hwhole, List.take_left]⟩

/-! ## The literal -/

/-- Scanned alone, the bracket `o` is closed by `c` and by nothing between them. -/
structure Closes (o : Char) (inner : Text) (c : Char) : Prop where
  opening : o = '[' ∨ o = '\x7b'
  closing : isClosing c = true
  scanned : ∃ vs, scan (o :: inner ++ [c]) = ⟨o, .code, 0⟩ :: vs ++ [⟨c, .code, 0⟩] ∧
    ∀ v ∈ vs, v.closesAll = false

theorem closes_iff {o : Char} {inner : Text} {c : Char} :
    Closes o inner c ↔ (o = '[' ∨ o = '\x7b') ∧ isClosing c = true ∧ Balanced inner := by
  constructor
  · rintro ⟨ho, hc, vs, hscan, hvs⟩
    have hclose : (⟨c, .code, 0⟩ : Visit).closesAll = true := by
      simp [Visit.closesAll, Visit.isTopLevel, hc]
    have hbracketed : bracketed? (o :: inner ++ [c]) = some (o :: textOf vs ++ [c], []) := by
      rw [bracketed?, hscan]
      simp [isOpening_of_region ho, breakAt?_append hvs hclose, textOf]
    obtain ⟨b, body, d, -, -, hbal, hliteral⟩ := exists_balanced_of_bracketed? hbracketed
    have htext := append_eq_of_bracketed? hbracketed
    rw [List.append_nil, hliteral] at htext
    obtain ⟨-, hinner⟩ := List.cons.inj htext
    obtain ⟨rfl, -⟩ := List.append_inj' hinner rfl
    exact ⟨ho, hc, hbal⟩
  · rintro ⟨ho, hc, hbal⟩
    refine ⟨ho, hc, _, scan_brackets (isOpening_of_region ho) hc hbal, fun v hv => ?_⟩
    exact Visit.closesAll_of_inside (hbal.stays_inside v hv)

/-- The region behind a marker is the literal that the marker's bracket opens. -/
theorem between?_eq_some_iff {lead marker tail : Text} {r : Region} :
    Region.between? lead marker tail = some r ↔ ∃ before o inner c after,
      OpensBehind lead marker tail before o ∧ Closes o inner c ∧
      lead ++ marker ++ tail = before ++ (o :: inner ++ [c]) ++ after ∧
      r = .at before (o :: inner ++ [c]) := by
  constructor
  · intro h
    obtain ⟨⟨before, text⟩, hopen, hstart⟩ := Option.bind_eq_some_iff.1 h
    obtain ⟨⟨literal, after⟩, hliteral, heq⟩ := Option.map_eq_some_iff.1 hstart
    obtain ⟨o, inner, c, -, hc, hbal, rfl⟩ := exists_balanced_of_bracketed? hliteral
    have htext : text = o :: (inner ++ [c] ++ after) := (append_eq_of_bracketed? hliteral).symm
    obtain ⟨hopens, hsplit⟩ := openAt?_eq_some_iff.1 (htext ▸ hopen)
    refine ⟨before, o, inner, c, after, hopens, closes_iff.2 ⟨hopens.opening, hc, hbal⟩, ?_, heq.symm⟩
    rw [hsplit, List.append_assoc before]
    rfl
  · rintro ⟨before, o, inner, c, after, hopens, hcloses, hsplit, rfl⟩
    obtain ⟨ho, hc, hbal⟩ := closes_iff.1 hcloses
    have hopen : Region.openAt? lead marker tail = some (before, o :: (inner ++ c :: after)) :=
      openAt?_eq_some_iff.2 ⟨hopens, by simp [hsplit]⟩
    have hliteral := bracketed?_of_balanced (isOpening_of_region ho) hc hbal after
    rw [List.cons_append] at hliteral
    rw [Region.between?, hopen, Option.bind_some]
    simp only [Region.atStart?, hliteral]
    rfl

/-! ## The region -/

/-- The bracket `o` behind `before` is the one that the first marker from line number `first` on
stands for. -/
def OpensAt (lines : List Text) (marker : Text) (first : Nat) (before : Text) (o : Char) : Prop :=
  ∃ m column behind, FirstPlace lines marker first m column behind ∧
    OpensBehind (Text.upTo lines m column) marker (Text.fromLine lines m behind) before o

/-- A region is the text between `o` and `c`, with both, that stands between `before` and `after`
in the joined lines. -/
structure StandsAt (lines : List Text) (r : Region) (before after : Text) (o : Char) (inner : Text)
    (c : Char) : Prop where
  content : r.content = o :: inner ++ [c]
  text : Text.joinLines lines = before ++ r.content ++ after
  startOffset : r.startOffset = before.byteLength
  endOffset : r.endOffset = (before ++ r.content).byteLength
  startLine : OnLine lines r.startLine before o
  endLine : OnLine lines r.endLine (before ++ o :: inner) c

theorem standsAt_iff {lines : List Text} (h : ∀ line ∈ lines, '\n' ∉ line) {r : Region}
    {before after inner : Text} {o c : Char} (ho : o = '[' ∨ o = '\x7b') (hc : isClosing c = true) :
    StandsAt lines r before after o inner c ↔
      Text.joinLines lines = before ++ (o :: inner ++ [c]) ++ after ∧
        r = .at before (o :: inner ++ [c]) := by
  have hfirst {i : Nat} (htext : Text.joinLines lines = before ++ (o :: inner ++ [c]) ++ after) :
      OnLine lines i before o ↔ i = before.count '\n' := by
    have hsplit : Text.joinLines lines = before ++ o :: (inner ++ c :: after) := by simp [htext]
    exact onLine_iff h (newline_ne_of_opening (isOpening_of_region ho)).symm hsplit
  have hlast {i : Nat} (htext : Text.joinLines lines = before ++ (o :: inner ++ [c]) ++ after) :
      OnLine lines i (before ++ o :: inner) c ↔
        i = before.count '\n' + (o :: inner ++ [c]).dropLast.count '\n' := by
    rw [List.dropLast_concat, ← List.count_append]
    have hsplit : Text.joinLines lines = before ++ o :: inner ++ c :: after := by simp [htext]
    exact onLine_iff h (newline_ne_of_closing hc).symm hsplit
  constructor
  · rintro ⟨hcontent, htext, hstart, -, hstartLine, hendLine⟩
    rw [hcontent] at htext
    refine ⟨htext, ?_⟩
    rw [hfirst htext] at hstartLine
    rw [hlast htext] at hendLine
    obtain ⟨content, startLine, endLine, startOffset⟩ := r
    simp only at hcontent hstart hstartLine hendLine
    rw [Region.at, hcontent, hstart, hstartLine, hendLine]
  · rintro ⟨htext, rfl⟩
    exact ⟨rfl, htext, rfl, (Text.byteLength_append ..).symm, (hfirst htext).2 rfl,
      (hlast htext).2 rfl⟩

/-- There is one first place of a marker, so it stands for one bracket. -/
theorem FirstPlace.opensAt_iff {lines : List Text} {marker column behind before : Text}
    {first m : Nat} {o : Char} (h : FirstPlace lines marker first m column behind) :
    OpensAt lines marker first before o ↔
      OpensBehind (Text.upTo lines m column) marker (Text.fromLine lines m behind) before o := by
  refine ⟨?_, fun hopens => ⟨m, column, behind, h, hopens⟩⟩
  rintro ⟨m', column', behind', h', hopens⟩
  obtain ⟨hfind, hbreak⟩ := firstPlace_iff.1 h
  obtain ⟨hfind', hbreak'⟩ := firstPlace_iff.1 h'
  obtain rfl := Option.some.inj (hfind.symm.trans hfind')
  obtain ⟨rfl, rfl⟩ := Prod.mk.inj (Option.some.inj (hbreak.symm.trans hbreak'))
  exact hopens

theorem locateFrom_eq_ok_iff {lines : List Text} (hlines : ∀ line ∈ lines, '\n' ∉ line)
    {marker : Text} {first : Nat} {r : Region} :
    Region.locateFrom lines marker first = .ok r ↔ ∃ before after o inner c,
      OpensAt lines marker first before o ∧ Closes o inner c ∧
      StandsAt lines r before after o inner c := by
  cases hfind : findLine? lines marker first with
  | none =>
    constructor
    · intro h
      rw [Region.locateFrom, hfind] at h
      cases h
    · rintro ⟨before, after, o, inner, c, ⟨m, column, behind, hplace, -⟩, -⟩
      rw [(firstPlace_iff.1 hplace).1] at hfind
      cases hfind
  | some m =>
    obtain ⟨column, behind, hplace⟩ := exists_firstPlace hfind
    have htext := hplace.joinLines_eq hlines
    rw [locateFrom_of_firstPlace hplace]
    constructor
    · intro h
      split at h
      · next hbetween =>
        obtain rfl := Except.ok.inj h
        obtain ⟨before, o, inner, c, after, hopens, hcloses, hsplit, heq⟩ :=
          between?_eq_some_iff.1 hbetween
        refine ⟨before, after, o, inner, c, hplace.opensAt_iff.2 hopens, hcloses, ?_⟩
        exact (standsAt_iff hlines hcloses.opening hcloses.closing).2 ⟨htext.trans hsplit, heq⟩
      · cases h
    · rintro ⟨before, after, o, inner, c, hopens, hcloses, hstands⟩
      obtain ⟨hsplit, heq⟩ := (standsAt_iff hlines hcloses.opening hcloses.closing).1 hstands
      rw [between?_eq_some_iff.2 ⟨before, o, inner, c, after, hplace.opensAt_iff.1 hopens, hcloses,
        htext.symm.trans hsplit, heq⟩]

theorem locateFrom_eq_markerNotFound_iff {lines : List Text} {marker : Text} {first : Nat} :
    Region.locateFrom lines marker first = .error (.markerNotFound marker none) ↔
      ∀ m line, first ≤ m → lines[m]? = some line → ¬ marker <:+: line := by
  rw [← findLine?_eq_none_iff]
  cases hfind : findLine? lines marker first with
  | none =>
    rw [Region.locateFrom, hfind]
    exact iff_of_true rfl rfl
  | some m =>
    obtain ⟨column, behind, hplace⟩ := exists_firstPlace hfind
    refine iff_of_false (fun h => ?_) (Option.some_ne_none m)
    rw [locateFrom_of_firstPlace hplace] at h
    split at h <;> cases h

/-- A region that is found from line number `first` on is exactly the literal that the first marker
opens, and it is found whenever that literal is there.  The joined lines are divided around it; its
offsets are the bytes up to its two ends, and its lines are those of its two brackets.  The marker
is not found exactly when no line from number `first` on holds it. -/
theorem locateFrom_exact {lines : List Text} (hlines : ∀ line ∈ lines, '\n' ∉ line) (marker : Text)
    (first : Nat) :
    (∀ r, Region.locateFrom lines marker first = .ok r ↔ ∃ before after o inner c,
      OpensAt lines marker first before o ∧ Closes o inner c ∧
      StandsAt lines r before after o inner c) ∧
    (Region.locateFrom lines marker first = .error (.markerNotFound marker none) ↔
      ∀ m line, first ≤ m → lines[m]? = some line → ¬ marker <:+: line) :=
  ⟨fun _ => locateFrom_eq_ok_iff hlines, locateFrom_eq_markerNotFound_iff⟩

/-- Lines with characters of several bytes, where the marker `x = ` stands on two lines and a bracket
stands in a comment behind it. -/
def placeLines : List Text :=
  ["x = [0],".toList, "a".toList, "é: 'x'; x = /* [ */".toList, "  \x7bü: ']',".toList,
    "  b: (2]\x7d // end".toList]

/-- The region of the marker `x = ` from line number 1 on. -/
def placeRegion : Region where
  content := "\x7bü: ']',\n  b: (2]\x7d"
  startLine := 3
  endLine := 4
  startOffset := 34

theorem locateFrom_exact_sample :
    (∀ line ∈ placeLines, '\n' ∉ line) ∧
      Region.locateFrom placeLines "x = " 1 = .ok placeRegion ∧
      (∃ before after o inner c, OpensAt placeLines "x = " 1 before o ∧ Closes o inner c ∧
        StandsAt placeLines placeRegion before after o inner c) ∧
      ∀ m line, 3 ≤ m → placeLines[m]? = some line → ¬ "[".toList <:+: line := by
  have hlines : ∀ line ∈ placeLines, '\n' ∉ line := by decide
  have hfound : Region.locateFrom placeLines "x = " 1 = .ok placeRegion := rfl
  have hmissing : Region.locateFrom placeLines "[" 3 = .error (.markerNotFound "[" none) := rfl
  exact ⟨hlines, hfound, ((locateFrom_exact hlines _ _).1 _).1 hfound,
    (locateFrom_exact hlines _ _).2.1 hmissing⟩

end Scaffold.Script
