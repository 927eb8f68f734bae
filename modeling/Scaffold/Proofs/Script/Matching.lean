import Mathlib.Order.Bounds.Basic
import Scaffold.Proofs.Script.Cut
import Scaffold.Proofs.Text.Occurrence

/-!
# Matching brackets

The bracket that closes another one is found by the depth of the scan, which stops at zero.  What it
means is said by counting: the text up to it is the shortest that closes as many brackets as it opens
(`ClosesEvenly`).  As long as the bracket is open the depth is the difference of the two counts
(`exists_state_of_open`), so the first visit that leaves all brackets is the first one where the
counts agree (`closings_eq_openings_iff`).

The part up to the closing bracket is a balanced text between two brackets, so the bracket is found
whatever stands around that part (`matchingClose?_eq_some_iff`).
-/

namespace Scaffold.Script

/-! ## Counting -/

/-- The number of opening brackets of code. -/
def openings (vs : List Visit) : Nat := vs.countP fun v => v.lexeme == .code && isOpening v.char

/-- The number of closing brackets of code. -/
def closings (vs : List Visit) : Nat := vs.countP fun v => v.lexeme == .code && isClosing v.char

@[simp] theorem openings_nil : openings [] = 0 := rfl

@[simp] theorem closings_nil : closings [] = 0 := rfl

theorem openings_append (vs ws : List Visit) :
    openings (vs ++ ws) = openings vs + openings ws := List.countP_append

theorem closings_append (vs ws : List Visit) :
    closings (vs ++ ws) = closings vs + closings ws := List.countP_append

theorem openings_cons (v : Visit) (vs : List Visit) :
    openings (v :: vs) = openings [v] + openings vs := openings_append [v] vs

theorem closings_cons (v : Visit) (vs : List Visit) :
    closings (v :: vs) = closings [v] + closings vs := closings_append [v] vs

/-- No character opens and closes a bracket. -/
theorem isClosing_eq_false_of_opening {c : Char} (h : isOpening c = true) : isClosing c = false := by
  rcases (by simpa [isOpening] using h : (c = '[' ∨ c = '\x7b') ∨ c = '(') with
    (rfl | rfl) | rfl <;> rfl

/-- Inside a bracket a step changes the depth by the brackets it visits: the depth does not stop at
zero there. -/
theorem ScanState.depth_step {s : ScanState} (hs : 1 ≤ s.depth) (c : Char) (next : Option Char) :
    (s.step c next).2.depth + closings [(s.step c next).1] =
      s.depth + openings [(s.step c next).1] := by
  obtain ⟨mode, depth⟩ := s
  cases mode with
  | code =>
    simp only [step]
    split
    · simp [closings, openings]
    split
    · simp [closings, openings]
    split
    · simp [closings, openings]
    split
    · next hopen => simp [closings, openings, hopen, isClosing_eq_false_of_opening hopen]
    split
    · next hopen hclose =>
      have hdepth : depth - 1 + 1 = depth := Nat.sub_add_cancel hs
      simp [closings, openings, hopen, hclose, hdepth]
    · next hopen hclose => simp [closings, openings, hopen, hclose]
  | quoted q =>
    simp only [step]
    repeat' split
    all_goals simp [closings, openings]
  | lineComment =>
    simp only [step]
    split
    · next hline =>
      obtain rfl : c = '\n' := by simpa using hline
      simp [closings, openings, isClosing, isOpening]
    · simp [closings, openings]
  | block =>
    simp only [step]
    split <;> simp [closings, openings]
  | _ => simp [step, closings, openings]

/-- Inside a bracket, the step that leaves all brackets is the one that leads to depth zero. -/
theorem ScanState.closesAll_iff {s : ScanState} (hs : 1 ≤ s.depth) {c : Char}
    {next : Option Char} :
    (s.step c next).1.closesAll = true ↔ (s.step c next).2.depth = 0 := by
  constructor
  · intro h
    obtain ⟨rfl, hc⟩ := eq_of_closesAll hs h
    rw [step_closing hc]
  · intro h
    refine Decidable.byContradiction fun hopen => ?_
    have := (step_stays hs (Bool.eq_false_iff.2 hopen)).2
    omega

/-- As long as no bracket closes all, the depth is the one at the start with the brackets opened
since and without those closed. -/
theorem exists_state_of_open {t : Text} {s : ScanState} (hs : 1 ≤ s.depth) {us ws : List Visit}
    (hscan : scanFrom s t = us ++ ws) (hopen : ∀ v ∈ us, v.closesAll = false) :
    ∃ s' : ScanState, 1 ≤ s'.depth ∧ s'.depth + closings us = s.depth + openings us ∧
      ∃ u, scanFrom s' u = ws := by
  induction us generalizing s t with
  | nil => exact ⟨s, hs, rfl, t, hscan⟩
  | cons v us ih =>
    cases t with
    | nil => cases hscan
    | cons c t =>
      rw [scanFrom_cons, List.cons_append] at hscan
      obtain ⟨rfl, hrest⟩ := List.cons.inj hscan
      obtain ⟨hfirst, hothers⟩ := List.forall_mem_cons.1 hopen
      obtain ⟨s', hs', hcount, hu⟩ := ih (ScanState.step_stays hs hfirst).2 hrest hothers
      have hstep := ScanState.depth_step hs c t.head?
      refine ⟨s', hs', ?_, hu⟩
      rw [closings_cons, openings_cons]
      omega

/-- An opening bracket does not close all. -/
theorem closesAll_eq_false_of_opening {o : Char} (ho : isOpening o = true) :
    Visit.closesAll ⟨o, .code, 0⟩ = false := by
  simp [Visit.closesAll, isClosing_eq_false_of_opening ho]

/-- Up to the first visit that closes all brackets the code opens more brackets than it closes, and
with that visit it closes as many. -/
theorem closings_eq_openings_iff {o : Char} (ho : isOpening o = true) {t : Text}
    {us ws : List Visit} {w : Visit} (hscan : scan (o :: t) = us ++ w :: ws)
    (hopen : ∀ v ∈ us, v.closesAll = false) :
    closings (us ++ [w]) = openings (us ++ [w]) ↔ w.closesAll = true := by
  have hfirst : closings [⟨o, .code, 0⟩] = 0 ∧ openings [⟨o, .code, 0⟩] = 1 := by
    simp [closings, openings, ho, isClosing_eq_false_of_opening ho]
  rw [scan_opening ho] at hscan
  rw [closings_append, openings_append]
  cases us with
  | nil =>
    obtain ⟨rfl, -⟩ := List.cons.inj hscan
    simp [hfirst, closesAll_eq_false_of_opening ho]
  | cons v us =>
    obtain ⟨rfl, hrest⟩ := List.cons.inj hscan
    obtain ⟨s, hs, hcount, u, hu⟩ := exists_state_of_open (Nat.le_refl 1) hrest
      (List.forall_mem_cons.1 hopen).2
    obtain ⟨c, u, rfl⟩ : ∃ c v, u = c :: v := by
      cases u with
      | nil => cases hu
      | cons c u => exact ⟨c, u, rfl⟩
    rw [scanFrom_cons] at hu
    obtain ⟨rfl, -⟩ := List.cons.inj hu
    have hstep := ScanState.depth_step hs c u.head?
    simp only at hcount
    rw [ScanState.closesAll_iff hs, closings_cons, openings_cons, hfirst.1, hfirst.2]
    omega

/-- Before a visit that closes all brackets the counts differ. -/
theorem closings_ne_openings {o : Char} (ho : isOpening o = true) {t : Text} {vs ws : List Visit}
    (hscan : scan (o :: t) = vs ++ ws) (hne : vs ≠ []) (hopen : ∀ v ∈ vs, v.closesAll = false) :
    closings vs ≠ openings vs := by
  obtain ⟨us, w, rfl⟩ := (List.eq_nil_or_concat vs).resolve_left hne
  rw [List.concat_eq_append] at hscan hopen ⊢
  have hsplit : scan (o :: t) = us ++ w :: ws := hscan.trans (List.append_cons ..).symm
  intro heq
  have hclose := (closings_eq_openings_iff ho hsplit fun v hv => hopen v (by simp [hv])).1 heq
  rw [hopen w (by simp)] at hclose
  cases hclose

/-! ## Literals -/

/-- A balanced text between an opening and a closing bracket. -/
def IsLiteral (t : Text) : Prop :=
  ∃ o inner c, isOpening o = true ∧ isClosing c = true ∧ Balanced inner ∧ t = o :: inner ++ [c]

theorem bracketed?_eq_some_iff {t literal rest : Text} :
    bracketed? t = some (literal, rest) ↔ literal ++ rest = t ∧ IsLiteral literal := by
  constructor
  · exact fun h => ⟨append_eq_of_bracketed? h, exists_balanced_of_bracketed? h⟩
  · rintro ⟨rfl, o, inner, c, ho, hc, hinner, rfl⟩
    rw [List.append_assoc]
    exact bracketed?_of_balanced ho hc hinner rest

/-- A text that starts with an opening bracket starts with a literal when some visit closes all
brackets. -/
theorem exists_bracketed?_of_closesAll {o : Char} (ho : isOpening o = true) {t : Text} {v : Visit}
    (hv : v ∈ scan (o :: t)) (hclose : v.closesAll = true) :
    ∃ literal rest, bracketed? (o :: t) = some (literal, rest) := by
  rw [scan_opening ho, List.mem_cons] at hv
  have hinside : v ∈ scanFrom { depth := 1 } t := by
    refine hv.resolve_left ?_
    rintro rfl
    rw [closesAll_eq_false_of_opening ho] at hclose
    cases hclose
  cases hbreak : breakAt? Visit.closesAll (scanFrom { depth := 1 } t) with
  | none =>
    rw [breakAt?_eq_none_iff.1 hbreak v hinside] at hclose
    cases hclose
  | some division =>
    obtain ⟨us, w, ws⟩ := division
    refine ⟨o :: textOf us ++ [w.char], textOf ws, ?_⟩
    rw [bracketed?, scan_opening ho]
    simp [ho, hbreak]

/-- A literal is visited up to the first visit that closes all brackets, whatever follows it. -/
theorem IsLiteral.exists_scan {literal : Text} (h : IsLiteral literal) (rest : Text) :
    ∃ o body us w, isOpening o = true ∧ literal = o :: body ∧ us.length + 1 = literal.length ∧
      scan (literal ++ rest) = us ++ w :: scan rest ∧ (∀ v ∈ us, v.closesAll = false) ∧
      w.closesAll = true := by
  obtain ⟨o, inner, c, ho, hc, hinner, rfl⟩ := h
  refine ⟨o, inner ++ [c], ⟨o, .code, 0⟩ :: scanFrom { depth := 1 } inner, ⟨c, .code, 0⟩, ho, rfl,
    by simp, ?scanned, ?opened, ?closed⟩
  case scanned =>
    rw [List.append_assoc]
    exact (scanFrom_brackets ho hc hinner 0 rest).1
  case opened =>
    rw [List.forall_mem_cons]
    exact ⟨closesAll_eq_false_of_opening ho,
      fun v hv => Visit.closesAll_of_inside (hinner.stays_inside v hv)⟩
  case closed => simp [Visit.closesAll, Visit.isTopLevel, hc]

/-- A literal ends in a closing bracket, which is one byte long. -/
theorem IsLiteral.exists_last {literal : Text} (h : IsLiteral literal) :
    ∃ body c, isClosing c = true ∧ literal = body ++ [c] ∧
      literal.byteLength = body.byteLength + 1 := by
  obtain ⟨o, inner, c, -, hc, -, rfl⟩ := h
  have hsize : c.utf8Size = 1 := by
    rcases (by simpa [isClosing] using hc : (c = ']' ∨ c = '\x7d') ∨ c = ')') with
      (rfl | rfl) | rfl <;> rfl
  refine ⟨o :: inner, c, hc, rfl, ?_⟩
  rw [Text.byteLength_append, Text.byteLength_cons c, hsize, Text.byteLength_nil]

/-! ## Positions -/

/-- `slice` is the part of a text from the character at byte position `start` to the one at `stop`,
both included, and it stands between `lead` and `rest`. -/
structure IsSlice (t : Text) (start stop : Nat) (lead slice rest : Text) : Prop where
  split : lead ++ (slice ++ rest) = t
  ne_nil : slice ≠ []
  start_eq : lead.byteLength = start
  stop_eq : (lead ++ slice.dropLast).byteLength = stop

/-- From the character at byte position `start` to the one at `stop`, both included, the code closes
as many brackets as it opens when the text is scanned from `start` on. -/
def ClosesEvenly (t : Text) (start stop : Nat) : Prop :=
  ∃ lead slice rest, IsSlice t start stop lead slice rest ∧
    closings ((scan (slice ++ rest)).take slice.length) =
      openings ((scan (slice ++ rest)).take slice.length)

/-- What stands in front of a byte position and behind it is determined. -/
theorem IsSlice.eq_of_byteLength {t lead slice rest front back : Text} {start stop : Nat}
    (h : IsSlice t start stop lead slice rest) (hsplit : front ++ back = t)
    (hfront : front.byteLength = start) : front = lead ∧ back = slice ++ rest := by
  have hcut := Text.cutAt?_eq_some_iff.2 ⟨hsplit, hfront⟩
  have hcut' := Text.cutAt?_eq_some_iff.2 ⟨h.split, h.start_eq⟩
  exact Prod.mk.inj (Option.some.inj (hcut.symm.trans hcut'))

/-- A slice that ends earlier is a part of the other one, without its last character. -/
theorem IsSlice.prefix_dropLast {t lead slice rest lead' slice' rest' : Text} {start stop stop' : Nat}
    (h : IsSlice t start stop lead slice rest) (h' : IsSlice t start stop' lead' slice' rest')
    (hlt : stop' < stop) : slice' <+: slice.dropLast := by
  obtain ⟨hlead, htail⟩ := h.eq_of_byteLength h'.split h'.start_eq
  obtain ⟨body, c, rfl⟩ := (List.eq_nil_or_concat slice).resolve_left h.ne_nil
  obtain ⟨body', c', rfl⟩ := (List.eq_nil_or_concat slice').resolve_left h'.ne_nil
  have hstop := h.stop_eq
  have hstop' := h'.stop_eq
  rw [List.concat_eq_append, List.dropLast_concat, Text.byteLength_append] at hstop hstop'
  simp only [List.concat_eq_append, List.append_assoc, List.singleton_append] at htail
  rw [hlead] at hstop'
  obtain ⟨u, rfl, hu⟩ := Text.exists_eq_append_of_byteLength_le htail (by omega)
  rw [List.concat_eq_append, List.concat_eq_append, List.dropLast_concat]
  -- the later slice goes on behind the shorter one, with the last character of that one
  cases u with
  | nil =>
    rw [List.append_nil] at hstop
    omega
  | cons d u =>
    obtain ⟨rfl, -⟩ := List.cons.inj hu
    exact ⟨u, by simp⟩

/-- The bracket is matched in the text from its position on. -/
theorem matchingClose?_eq {t front back : Text} {start : Nat} (hsplit : front ++ back = t)
    (hfront : front.byteLength = start) :
    matchingClose? t start =
      (bracketed? back).map fun division => start + division.1.byteLength - 1 := by
  have hcut := Text.cutAt?_eq_some_iff.2 ⟨hsplit, hfront⟩
  rw [matchingClose?, hcut]
  change ((bracketed? back).bind fun division => some (start + division.1.byteLength - 1)) = _
  cases bracketed? back <;> rfl

/-- The closing bracket of the one at `start` is the last character of a literal from there on. -/
theorem matchingClose?_eq_some_iff {t : Text} {start stop : Nat} :
    matchingClose? t start = some stop ↔
      ∃ lead literal rest, IsSlice t start stop lead literal rest ∧ IsLiteral literal := by
  constructor
  · intro h
    obtain ⟨⟨lead, tail⟩, hcut, hbind⟩ := Option.bind_eq_some_iff.1 h
    obtain ⟨⟨literal, rest⟩, hbracketed, hstop⟩ := Option.bind_eq_some_iff.1 hbind
    obtain ⟨rfl, hlead⟩ := Text.cutAt?_eq_some_iff.1 hcut
    obtain ⟨rfl, hliteral⟩ := bracketed?_eq_some_iff.1 hbracketed
    obtain ⟨body, c, -, rfl, hlength⟩ := hliteral.exists_last
    have hposition : start + Text.byteLength (body ++ [c]) - 1 = stop := Option.some.inj hstop
    refine ⟨lead, _, rest, ⟨rfl, by simp, hlead, ?_⟩, hliteral⟩
    rw [List.dropLast_concat, Text.byteLength_append]
    omega
  · rintro ⟨lead, literal, rest, ⟨hsplit, -, hstart, hstop⟩, hliteral⟩
    have hbracketed : bracketed? (literal ++ rest) = some (literal, rest) :=
      bracketed?_eq_some_iff.2 ⟨rfl, hliteral⟩
    obtain ⟨body, c, -, rfl, hlength⟩ := hliteral.exists_last
    rw [List.dropLast_concat, Text.byteLength_append] at hstop
    have hposition : start + Text.byteLength (body ++ [c]) - 1 = stop := by omega
    rw [matchingClose?_eq hsplit hstart, hbracketed, ← hposition]
    rfl

/-- A literal is the shortest part from its start on that closes as many brackets as it opens. -/
theorem IsSlice.isLeast {t lead literal rest : Text} {start stop : Nat}
    (h : IsSlice t start stop lead literal rest) (hliteral : IsLiteral literal) :
    IsLeast {n | ClosesEvenly t start n} stop := by
  obtain ⟨o, body, us, w, ho, hstart, hlength, hscan, hopen, hclose⟩ := hliteral.exists_scan rest
  have htail : literal ++ rest = o :: (body ++ rest) := by rw [hstart, List.cons_append]
  constructor
  · have htake : (scan (literal ++ rest)).take literal.length = us ++ [w] := by
      rw [hscan, List.append_cons]
      exact List.take_left' (by simp [hlength])
    refine ⟨lead, literal, rest, h, ?_⟩
    rw [htake]
    exact (closings_eq_openings_iff ho (htail ▸ hscan) hopen).2 hclose
  · rintro n ⟨lead', slice, rest', h', heven⟩
    refine Nat.le_of_not_lt fun hlt => ?_
    obtain ⟨-, hsame⟩ := h.eq_of_byteLength h'.split h'.start_eq
    have hle : slice.length ≤ us.length := by
      have := (h.prefix_dropLast h' hlt).length_le
      rw [List.length_dropLast] at this
      omega
    have htake : (scan (slice ++ rest')).take slice.length = us.take slice.length := by
      rw [hsame, hscan, List.take_append_of_le_length hle]
    have hsplit : scan (o :: (body ++ rest)) =
        us.take slice.length ++ (us.drop slice.length ++ w :: scan rest) := by
      rw [← htail, hscan, ← List.append_assoc, List.take_append_drop]
    have hne : us.take slice.length ≠ [] := by
      have hpos := List.length_pos_iff.2 h'.ne_nil
      refine List.ne_nil_of_length_pos ?_
      rw [List.length_take]
      omega
    rw [htake] at heven
    exact closings_ne_openings ho hsplit hne (fun v hv => hopen v (List.mem_of_mem_take hv)) heven

/-- An opening bracket is closed when some part from it on closes as many brackets as it opens. -/
theorem ClosesEvenly.exists_matchingClose? {t : Text} {start stop : Nat}
    (h : ClosesEvenly t start stop) {o : Char} (ho : isOpening o = true)
    (hoccurs : Text.OccursAt [o] t start) : ∃ n, matchingClose? t start = some n := by
  obtain ⟨lead, slice, rest, hslice, heven⟩ := h
  obtain ⟨front, back, hsplit, hfront⟩ := hoccurs
  rw [List.append_assoc, List.singleton_append] at hsplit
  obtain ⟨rfl, htail⟩ := hslice.eq_of_byteLength hsplit hfront
  have hscan : scan (o :: back) =
      (scan (slice ++ rest)).take slice.length ++ (scan (slice ++ rest)).drop slice.length := by
    rw [List.take_append_drop, htail]
  have hne : (scan (slice ++ rest)).take slice.length ≠ [] := by
    refine List.ne_nil_of_length_pos ?_
    have := List.length_pos_iff.2 hslice.ne_nil
    rw [List.length_take, scan, length_scanFrom, List.length_append]
    omega
  obtain ⟨v, hv, hclose⟩ : ∃ v ∈ scan (o :: back), v.closesAll = true := by
    refine Decidable.byContradiction fun hnone => ?_
    refine closings_ne_openings ho hscan hne (fun v hv => Bool.eq_false_iff.2 fun hclose => ?_) heven
    exact hnone ⟨v, hscan ▸ List.mem_append_left _ hv, hclose⟩
  obtain ⟨literal, rest', hbracketed⟩ := exists_bracketed?_of_closesAll ho hv hclose
  rw [matchingClose?_eq hsplit hfront, hbracketed]
  exact ⟨_, rfl⟩

/-- Bracket matching finds the first balanced part.  The bracket that closes the one at `start` is
at the least position up to which the code closes as many brackets as it opens, and it is a closing
bracket.  It depends only on the text up to there: it is the same in front of any other text, and in
that part alone. -/
theorem matchingClose?_least (t : Text) (start stop : Nat) :
    (matchingClose? t start = some stop ↔
      (∃ o, isOpening o = true ∧ Text.OccursAt [o] t start) ∧
        IsLeast {n | ClosesEvenly t start n} stop) ∧
    (matchingClose? t start = some stop →
      (∃ c, isClosing c = true ∧ Text.OccursAt [c] t stop) ∧
      ∃ lead slice rest, IsSlice t start stop lead slice rest ∧
        (∀ other, matchingClose? (lead ++ slice ++ other) start = some stop) ∧
        matchingClose? slice 0 = some (stop - start)) := by
  constructor
  · constructor
    · intro h
      obtain ⟨lead, literal, rest, hslice, hliteral⟩ := matchingClose?_eq_some_iff.1 h
      refine ⟨?_, hslice.isLeast hliteral⟩
      obtain ⟨o, inner, c, ho, -, -, rfl⟩ := hliteral
      exact ⟨o, ho, lead, inner ++ [c] ++ rest, by simp [← hslice.split], hslice.start_eq⟩
    · rintro ⟨⟨o, ho, hoccurs⟩, hleast⟩
      obtain ⟨n, hn⟩ := hleast.1.exists_matchingClose? ho hoccurs
      obtain ⟨lead, literal, rest, hslice, hliteral⟩ := matchingClose?_eq_some_iff.1 hn
      rw [hn, (hslice.isLeast hliteral).unique hleast]
  · intro h
    obtain ⟨lead, literal, rest, hslice, hliteral⟩ := matchingClose?_eq_some_iff.1 h
    have hstop := hslice.stop_eq
    rw [Text.byteLength_append, hslice.start_eq] at hstop
    refine ⟨?closing, lead, literal, rest, hslice, fun other => ?other, ?alone⟩
    case closing =>
      obtain ⟨body, c, hc, rfl, -⟩ := hliteral.exists_last
      have hposition := hslice.stop_eq
      rw [List.dropLast_concat] at hposition
      exact ⟨c, hc, lead ++ body, rest, by simp [← hslice.split], hposition⟩
    case other =>
      exact matchingClose?_eq_some_iff.2
        ⟨lead, literal, other,
          ⟨(List.append_assoc ..).symm, hslice.ne_nil, hslice.start_eq, hslice.stop_eq⟩, hliteral⟩
    case alone =>
      refine matchingClose?_eq_some_iff.2 ⟨[], literal, [], ⟨by simp, hslice.ne_nil, rfl, ?_⟩, hliteral⟩
      rw [List.nil_append]
      omega

/-- A parenthesis behind a character of two bytes, with others in a string and in a comment, that is
closed at the byte position 19. -/
def nestedText : Text := "é(' (' /* ) */ [2]) b)"

theorem matchingClose?_least_sample :
    matchingClose? nestedText 2 = some 19 ∧ IsLeast {n | ClosesEvenly nestedText 2 n} 19 ∧
      (∃ c, isClosing c = true ∧ Text.OccursAt [c] nestedText 19) ∧
      ∃ lead slice rest, IsSlice nestedText 2 19 lead slice rest ∧
        (∀ other, matchingClose? (lead ++ slice ++ other) 2 = some 19) ∧
        matchingClose? slice 0 = some 17 := by
  have hfound : matchingClose? nestedText 2 = some 19 := by decide
  obtain ⟨hiff, hpart⟩ := matchingClose?_least nestedText 2 19
  exact ⟨hfound, (hiff.1 hfound).2, hpart hfound⟩

end Scaffold.Script
