import Scaffold.Proofs.Script.Cut

/-!
# Adding entries behind any text

A balanced text is code with comments and blanks behind it, each of them balanced
(`Balanced.filler_or_code`).  So a separator may be put between the two, a newline ends the last
comment, and entries that follow on lines of their own are read as further pieces
(`balanced_and_pieces_addedEntries`).
-/

namespace Scaffold.Script

/-! ## The last code -/

/-- The scan stands between two quotes. -/
def Mode.inString : Mode → Bool
  | .quoted _ | .escaped _ => true
  | _ => false

/-- Only quotation marks open strings. -/
def ScanState.QuoteOpened (s : ScanState) : Prop :=
  ∀ q, s.mode = .quoted q ∨ s.mode = .escaped q → isQuote q = true

theorem ScanState.QuoteOpened.step {s : ScanState} (h : s.QuoteOpened) (c : Char)
    (next : Option Char) : (s.step c next).2.QuoteOpened := by
  obtain ⟨mode, depth⟩ := s
  intro q hq
  cases mode with
  | code =>
    simp only [ScanState.step] at hq
    repeat' split at hq
    all_goals simp_all
  | quoted p =>
    have hp := h p (.inl rfl)
    simp only [ScanState.step] at hq
    repeat' split at hq
    all_goals simp_all
  | escaped p =>
    have hp := h p (.inr rfl)
    simp_all [ScanState.step]
  | _ =>
    simp only [ScanState.step] at hq
    repeat' split at hq
    all_goals simp_all

/-- Quotation marks are not blank. -/
theorem isBlank_of_quote {c : Char} (h : isQuote c = true) : isBlank c = false := by
  rcases (by simpa [isQuote] using h : (c = '\'' ∨ c = '"') ∨ c = '`') with (rfl | rfl) | rfl <;> rfl

/-- A step over a comment or a blank neither enters nor leaves a string or a bracket. -/
theorem ScanState.step_of_skipped {s : ScanState} (h : s.QuoteOpened) {c : Char}
    {next : Option Char} (hskip : (s.step c next).1.isSkipped = true) :
    (s.step c next).2.mode.inString = s.mode.inString ∧ (s.step c next).2.depth = s.depth := by
  obtain ⟨mode, depth⟩ := s
  cases mode with
  | code =>
    by_cases hblank : isBlank c = true
    · rw [step_blank hblank]
      exact ⟨rfl, rfl⟩
    · simp only [step] at hskip ⊢
      repeat' split at hskip
      all_goals simp_all [Visit.isSkipped, Mode.inString]
  | quoted q =>
    have hblank : isBlank c = true := by simpa [step, Visit.isSkipped] using hskip
    have hquote : c ≠ q := by
      rintro rfl
      rw [isBlank_of_quote (h c (.inl rfl))] at hblank
      cases hblank
    have hescape : c ≠ '\\' := by
      rintro rfl
      cases hblank
    simp [step, hquote, hescape]
  | lineComment =>
    simp only [step]
    split <;> exact ⟨rfl, rfl⟩
  | block =>
    simp only [step]
    split <;> exact ⟨rfl, rfl⟩
  | _ => exact ⟨rfl, rfl⟩

/-- A step that is neither over a comment nor over a blank does not depend on what follows. -/
theorem ScanState.step_of_solid {s : ScanState} {c : Char} {next : Option Char}
    (h : (s.step c next).1.isSkipped = false) : s.step c none = s.step c next := by
  obtain ⟨mode, depth⟩ := s
  cases mode with
  | code =>
    simp only [step] at h ⊢
    split at h
    · next hquote => rw [if_pos hquote, if_pos hquote]
    split at h
    · simp [Visit.isSkipped] at h
    split at h
    · simp [Visit.isSkipped] at h
    next hquote hline hblock =>
      rw [if_neg hquote, if_neg hline, if_neg hblock, if_neg hquote, if_neg (by simp),
        if_neg (by simp)]
  | block => simp [step, Visit.isSkipped] at h
  | _ => rfl

/-- Such a step is made in code or in a string. -/
theorem ScanState.code_or_inString {s : ScanState} {c : Char} {next : Option Char}
    (h : (s.step c next).1.isSkipped = false) : s.mode = .code ∨ s.mode.inString = true := by
  obtain ⟨mode, depth⟩ := s
  cases mode with
  | code => exact .inl rfl
  | quoted q => exact .inr rfl
  | escaped q => exact .inr rfl
  | lineComment =>
    simp only [step] at h
    split at h
    · next hc =>
      obtain rfl : c = '\n' := by simpa using hc
      cases h
    · simp [Visit.isSkipped] at h
  | _ => simp [step, Visit.isSkipped] at h

/-- Behind such a step the scan is in code or in a string. -/
theorem ScanState.mode_of_solid {s : ScanState} {c : Char} {next : Option Char}
    (h : (s.step c next).1.isSkipped = false)
    (hout : (s.step c next).2.mode.inString = false) : (s.step c next).2.mode = .code := by
  have hmode := code_or_inString h
  obtain ⟨mode, depth⟩ := s
  cases mode with
  | code =>
    simp only [step] at h hout ⊢
    split at h
    · next hquote => simp [hquote, Mode.inString] at hout
    split at h
    · simp [Visit.isSkipped] at h
    split at h
    · simp [Visit.isSkipped] at h
    next hquote hline hblock =>
      rw [if_neg hquote, if_neg hline, if_neg hblock]
      split
      · rfl
      · split <;> rfl
  | quoted q =>
    simp only [step] at hout ⊢
    repeat' split at hout
    all_goals simp_all [Mode.inString]
  | escaped q => simp [step, Mode.inString] at hout
  | _ => simp [Mode.inString] at hmode

/-- Text of comments and blanks neither enters nor leaves a string or a bracket. -/
theorem ScanState.after_of_skipped {t : Text} {s : ScanState} (h : s.QuoteOpened)
    (hskip : ∀ v ∈ scanFrom s t, v.isSkipped = true) :
    (s.after t).mode.inString = s.mode.inString ∧ (s.after t).depth = s.depth := by
  induction t generalizing s with
  | nil => exact ⟨rfl, rfl⟩
  | cons c t ih =>
    rw [scanFrom_cons, List.forall_mem_cons] at hskip
    obtain ⟨hmode, hdepth⟩ := step_of_skipped h hskip.1
    obtain ⟨hmode', hdepth'⟩ := ih (h.step c _) hskip.2
    exact ⟨hmode'.trans hmode, hdepth'.trans hdepth⟩

/-- The step over a character inside a text.  Comments and blanks in front of the character neither
enter nor leave a string or a bracket. -/
theorem exists_step {s : ScanState} (h : s.QuoteOpened) (t : Text) (c : Char) :
    ∃ (vs : List Visit) (s' : ScanState), s'.QuoteOpened ∧ vs.length = t.length ∧
      ((∀ v ∈ vs, v.isSkipped = true) →
        s'.mode.inString = s.mode.inString ∧ s'.depth = s.depth) ∧ ∀ u,
      scanFrom s (t ++ c :: u) =
          vs ++ (s'.step c u.head?).1 :: scanFrom (s'.step c u.head?).2 u ∧
        s.after (t ++ c :: u) = (s'.step c u.head?).2.after u := by
  induction t generalizing s with
  | nil => exact ⟨[], s, h, rfl, fun _ => ⟨rfl, rfl⟩, fun u => ⟨rfl, rfl⟩⟩
  | cons d t ih =>
    obtain ⟨next, hnext⟩ : ∃ next, ∀ u, (t ++ c :: u).head? = next := by
      cases t with
      | nil => exact ⟨some c, fun u => rfl⟩
      | cons e t => exact ⟨some e, fun u => rfl⟩
    obtain ⟨vs, s', hopened, hlength, hskip, hsplit⟩ := ih (h.step d next)
    refine ⟨(s.step d next).1 :: vs, s', hopened, by simp [hlength], fun hall => ?_, fun u => ?_⟩
    · obtain ⟨hfirst, hrest⟩ := List.forall_mem_cons.1 hall
      obtain ⟨hmode, hdepth⟩ := ScanState.step_of_skipped h hfirst
      exact ⟨(hskip hrest).1.trans hmode, (hskip hrest).2.trans hdepth⟩
    · rw [List.cons_append, scanFrom_cons, ScanState.after_cons, hnext, (hsplit u).1, (hsplit u).2]
      exact ⟨rfl, rfl⟩

theorem quoteOpened_code (k : Nat) : ScanState.QuoteOpened { depth := k } := by
  simp [ScanState.QuoteOpened]

/-- A text is scanned alike up to a character of code, whatever follows it. -/
theorem scanFrom_front {s : ScanState} (hs : s.QuoteOpened) {t : Text} {vs ws : List Visit}
    {w : Visit} (hscan : scanFrom s t = vs ++ w :: ws) (hw : w.isSkipped = false) :
    scanFrom s (textOf (vs ++ [w])) = vs ++ [w] := by
  have htext : t = textOf vs ++ w.char :: textOf ws := by
    rw [← textOf_scanFrom s t, hscan]
    simp [textOf]
  obtain ⟨xs, s', -, hlength, -, hsplit⟩ := exists_step hs (textOf vs) w.char
  have hvisits := (hsplit (textOf ws)).1
  rw [← htext, hscan] at hvisits
  obtain ⟨rfl, hrest⟩ := List.append_inj hvisits (by simp [hlength])
  obtain ⟨hstep, -⟩ := List.cons.inj hrest
  have hjoin : textOf (vs ++ [w]) = textOf vs ++ [w.char] := by simp [textOf]
  rw [hjoin, (hsplit []).1, List.head?_nil, ScanState.step_of_solid (hstep ▸ hw), ← hstep]
  rfl

/-- A text divided behind its last code: both parts are scanned as in the text, and the scan ends
where it started. -/
theorem scanFrom_divided {k : Nat} {t : Text} {vs ws : List Visit} {w : Visit}
    (hscan : scanFrom { depth := k } t = vs ++ w :: ws)
    (hafter : ScanState.after { depth := k } t = { depth := k })
    (hw : w.isSkipped = false) (hws : ∀ v ∈ ws, v.isSkipped = true) :
    (scanFrom { depth := k } (textOf (vs ++ [w])) = vs ++ [w] ∧
      ScanState.after { depth := k } (textOf (vs ++ [w])) = { depth := k }) ∧
    scanFrom { depth := k } (textOf ws) = ws ∧
      ScanState.after { depth := k } (textOf ws) = { depth := k } := by
  have htext : t = textOf vs ++ w.char :: textOf ws := by
    rw [← textOf_scanFrom { depth := k } t, hscan]
    simp [textOf]
  obtain ⟨xs, s, hopened, hlength, -, hsplit⟩ :=
    exists_step (quoteOpened_code k) (textOf vs) w.char
  obtain ⟨hvisits, hend⟩ := hsplit (textOf ws)
  rw [← htext, hscan] at hvisits
  rw [← htext, hafter] at hend
  obtain ⟨rfl, hrest⟩ := List.append_inj hvisits (by simp [hlength])
  obtain ⟨hstep, htail⟩ := List.cons.inj hrest
  -- what follows is skipped, so the scan is in code behind the last code already
  have hskip : ∀ v ∈ scanFrom (s.step w.char (textOf ws).head?).2 (textOf ws),
      v.isSkipped = true := htail ▸ hws
  obtain ⟨hmode, hdepth⟩ := ScanState.after_of_skipped (hopened.step _ _) hskip
  rw [← hend] at hmode hdepth
  have hcode : (s.step w.char (textOf ws).head?).2 = { depth := k } := by
    have hmode' := ScanState.mode_of_solid (hstep ▸ hw) hmode.symm
    cases hs : (s.step w.char (textOf ws).head?).2 with
    | mk mode depth =>
      rw [hs] at hmode' hdepth
      simp only at hmode' hdepth
      rw [hmode', hdepth]
  have hlastAfter := (hsplit []).2
  rw [List.head?_nil, ScanState.step_of_solid (hstep ▸ hw), hcode] at hlastAfter
  have hjoin : textOf (vs ++ [w]) = textOf vs ++ [w.char] := by simp [textOf]
  refine ⟨⟨scanFrom_front (quoteOpened_code k) hscan hw, hjoin ▸ hlastAfter⟩, ?_, ?_⟩
  · rw [← hcode]
    exact htail.symm
  · rw [hcode] at hend
    exact hend.symm

/-- A balanced text holds comments and blanks only, or it is balanced code with such behind it. -/
theorem Balanced.filler_or_code {t : Text} (h : Balanced t) :
    IsFiller t ∨ ∃ code tail, t = code ++ tail ∧ Balanced code ∧ SolidEnd code ∧ IsFiller tail ∧
      scan t = scan code ++ scan tail := by
  rcases exists_last_of_not_forall (p := Visit.isSkipped) (scan t) with hall | hlast
  · exact .inl ⟨h, hall⟩
  obtain ⟨vs, w, ws, hscan, hw, hws⟩ := hlast
  have htext : t = textOf (vs ++ [w]) ++ textOf ws := by
    rw [← textOf_scan t, hscan]
    simp [textOf]
  obtain ⟨⟨hcode, -⟩, htail, -⟩ := scanFrom_divided hscan (h.after_eq 0) hw hws
  have hraised : scanFrom { depth := 1 } t =
      vs.map (Visit.raise 1) ++ w.raise 1 :: ws.map (Visit.raise 1) := by
    rw [h.scanFrom_eq, hscan, List.map_append, List.map_cons]
  have hskipped : ∀ v ∈ ws.map (Visit.raise 1), v.isSkipped = true := by
    intro v hv
    obtain ⟨u, hu, rfl⟩ := List.mem_map.1 hv
    exact hws u hu
  obtain ⟨⟨hcode₁, hcodeEnd⟩, htail₁, htailEnd⟩ :=
    scanFrom_divided hraised h.after_inside hw hskipped
  have htextOf : textOf (vs.map (Visit.raise 1) ++ [w.raise 1]) = textOf (vs ++ [w]) := by
    simp [textOf]
  rw [htextOf] at hcode₁ hcodeEnd
  rw [textOf_map_raise] at htail₁ htailEnd
  have hinside (v : Visit) (hv : v ∈ scanFrom { depth := 1 } t) : 1 ≤ v.depth :=
    h.stays_inside v hv
  rw [hraised, List.append_cons] at hinside
  refine .inr ⟨_, _, htext, ⟨hcodeEnd, ?_⟩, ⟨w, ?_, hw⟩, ⟨⟨htailEnd, ?_⟩, ?_⟩, ?_⟩
  · rw [hcode₁]
    exact fun v hv => hinside v (List.mem_append_left _ hv)
  · rw [scan, hcode, List.getLast?_concat]
    rfl
  · rw [htail₁]
    exact fun v hv => hinside v (List.mem_append_right _ hv)
  · rw [scan, htail]
    exact hws
  · rw [hscan, scan, hcode, scan, htail]
    simp

/-- Behind text of any kind only quotation marks open strings. -/
theorem ScanState.QuoteOpened.after {s : ScanState} (h : s.QuoteOpened) (t : Text) :
    (s.after t).QuoteOpened := by
  induction t generalizing s with
  | nil => exact h
  | cons c t ih => exact ih (h.step c _)

/-- A plain character that is neither part of a comment nor blank, and leads to code, stands in
code. -/
theorem ScanState.eq_of_step_solid {s : ScanState} (h : s.QuoteOpened) {c : Char}
    {next : Option Char} (hc : isPlain c = true) (hskip : (s.step c next).1.isSkipped = false)
    {k : Nat} (hend : (s.step c next).2 = { depth := k }) : s = { depth := k } := by
  have hquote : isQuote c = false := by
    simp only [isPlain, Bool.and_eq_true, Bool.not_eq_true'] at hc
    exact hc.1.1.1
  obtain ⟨mode, depth⟩ := s
  cases mode with
  | code => rwa [step_plain hc] at hend
  | quoted q =>
    have hne : c ≠ q := by
      rintro rfl
      rw [h c (.inl rfl)] at hquote
      cases hquote
    simp only [step] at hend
    split at hend <;> simp_all
  | lineComment =>
    simp only [step] at hskip
    split at hskip
    · next hline =>
      obtain rfl : c = '\n' := by simpa using hline
      cases hskip
    · simp [Visit.isSkipped] at hskip
  | escaped q => simp [step] at hend
  | _ => simp [step, Visit.isSkipped] at hskip

/-- What stands in front of a separator that is the last code is balanced. -/
theorem Balanced.of_concat {sep : Char} (hsep : IsSeparator sep) {t : Text}
    (h : Balanced (t ++ [sep])) (hsolid : SolidEnd (t ++ [sep])) : Balanced t := by
  have hm : Apart t [sep] := apart_separator hsep t []
  have hopened : (ScanState.after {} t).QuoteOpened := (quoteOpened_code 0).after t
  obtain ⟨v, hv, hskip⟩ := hsolid
  rw [scan, Script.scanFrom_append hm, scanFrom_cons, scanFrom_nil, List.getLast?_concat] at hv
  have hend : ((ScanState.after {} t).step sep none).2 = {} := by
    have := h.after_eq 0
    rwa [after_append hm] at this
  have hstate := ScanState.eq_of_step_solid hopened hsep.1 (Option.some.inj hv ▸ hskip) hend
  exact (Balanced.of_append h hm hstate).1

/-- The scan stands in code or in a comment that is about to end. -/
def ScanState.Ends (s : ScanState) (k : Nat) : Prop :=
  s.depth = k ∧ (s.mode = .code ∨ s.mode = .lineComment ∨ s.mode = .blockClose)

/-- A newline leads back to code. -/
theorem ScanState.Ends.step_newline {s : ScanState} {k : Nat} (h : s.Ends k)
    (next : Option Char) :
    (s.step '\n' next).1.depth = k ∧ (s.step '\n' next).2 = { depth := k } := by
  obtain ⟨mode, depth⟩ := s
  obtain ⟨rfl, rfl | rfl | rfl⟩ : depth = k ∧ _ := h
  all_goals exact ⟨rfl, rfl⟩

/-- Blanks neither start a comment nor end a block. -/
theorem ScanState.Ends.of_step {s : ScanState} (hs : s.QuoteOpened) {c : Char}
    (hc : isBlank c = true) {next : Option Char} {k : Nat} (h : (s.step c next).2.Ends k) :
    s.Ends k := by
  obtain ⟨mode, depth⟩ := s
  cases mode with
  | code => rwa [step_blank hc] at h
  | quoted q =>
    have hquote : c ≠ q := by
      rintro rfl
      rw [isBlank_of_quote (hs c (.inl rfl))] at hc
      cases hc
    have hescape : c ≠ '\\' := by
      rintro rfl
      cases hc
    simp [step, Ends, hquote, hescape] at h
  | lineComment =>
    refine ⟨?_, .inr (.inl rfl)⟩
    obtain ⟨hdepth, -⟩ := h
    simp only [step] at hdepth
    split at hdepth <;> exact hdepth
  | block =>
    have hstar : c ≠ '*' := by
      rintro rfl
      cases hc
    simp [step, Ends, hstar] at h
  | blockClose => exact ⟨h.1, .inr (.inr rfl)⟩
  | _ => simp [step, Ends] at h

theorem ScanState.Ends.of_after {s : ScanState} (hs : s.QuoteOpened) {b : Text} (hb : IsBlank b)
    {k : Nat} (h : (s.after b).Ends k) : s.Ends k := by
  induction b generalizing s with
  | nil => exact h
  | cons c b ih =>
    obtain ⟨hc, hrest⟩ := List.forall_mem_cons.1 hb
    exact .of_step hs hc (ih (hs.step c _) hrest h)

/-- Blanks behind comments may be replaced by a newline. -/
theorem scanFrom_newline {k : Nat} {t b : Text} (hb : IsBlank b)
    (h : ScanState.after { depth := k } (t ++ b) = { depth := k }) :
    ∃ v, v.char = '\n' ∧ v.depth = k ∧
      scanFrom { depth := k } (t ++ ['\n']) = scanFrom { depth := k } t ++ [v] ∧
      ScanState.after { depth := k } (t ++ ['\n']) = { depth := k } := by
  rw [after_append (hb.apart_right t)] at h
  have hopened := (quoteOpened_code k).after t
  have hend : (ScanState.after { depth := k } (t ++ b)).Ends k := by
    rw [after_append (hb.apart_right t), h]
    exact ⟨rfl, .inl rfl⟩
  rw [after_append (hb.apart_right t)] at hend
  obtain ⟨hdepth, hstate⟩ := (ScanState.Ends.of_after hopened hb hend).step_newline none
  have hm : Apart t ['\n'] := (IsBlank.newline IsBlank.nil).apart_right t
  exact ⟨_, ScanState.char_step _ _ _, hdepth, scanFrom_append hm _,
    (after_append hm _).trans hstate⟩

theorem IsFiller.newline {t b : Text} (h : IsFiller (t ++ b)) (hb : IsBlank b) :
    IsFiller (t ++ ['\n']) := by
  have hm := hb.apart_right t
  obtain ⟨v, -, hdepth, hscan, hafter⟩ := scanFrom_newline hb h.balanced.after_inside
  obtain ⟨w, hchar, -, hscan₀, -⟩ := scanFrom_newline hb (h.balanced.after_eq 0)
  refine ⟨⟨hafter, fun u hu => ?_⟩, fun u hu => ?_⟩
  · rw [hscan, List.mem_append, List.mem_singleton] at hu
    rcases hu with hu | rfl
    · refine h.balanced.stays_inside u ?_
      rw [scanFrom_append hm]
      exact List.mem_append_left _ hu
    · exact Nat.le_of_eq hdepth.symm
  · rw [scan, hscan₀, List.mem_append, List.mem_singleton] at hu
    rcases hu with hu | rfl
    · refine h.skipped u ?_
      rw [scan, scanFrom_append hm]
      exact List.mem_append_left _ hu
    · simp [Visit.isSkipped, hchar, show isBlank '\n' = true from rfl]

/-! ## Adding entries -/

section

variable {t : Text} (h : IsFiller (t ++ ['\n']))
include h

/-- A newline ends the comments in front of it, so balanced text may follow. -/
theorem IsFiller.newline_append {u : Text} (hu : Balanced ('\n' :: u)) :
    Balanced (t ++ '\n' :: u) := by
  rw [List.append_cons]
  exact h.balanced.append (hu.of_separator (by decide)) (apart_concat _ _ (by decide) (by decide))

/-- Comments in front of a new line do not count. -/
theorem pieces_newline_append {sep : Char} (hs : isBlank sep = false) (u : Text) :
    pieces sep (t ++ '\n' :: u) = pieces sep ('\n' :: u) := by
  have hnewline : IsBlank ['\n'] := .newline .nil
  rw [List.append_cons, pieces_filler_append hs h fun u => apart_concat _ _ (by decide) (by decide)]
  exact (pieces_filler_append (a := ['\n']) hs hnewline.filler hnewline.apart_left u).symm

/-- Lines behind comments: what is added is balanced, and its pieces are the lines. -/
theorem balanced_and_pieces_lines {n m : Nat} {ts : List Text} (hne : ts ≠ [])
    (hts : ∀ u ∈ ts, IsPiece ',' u) :
    Balanced (t ++ (commaLines n ts ++ '\n' :: Text.spaces m)) ∧
      pieces ',' (t ++ (commaLines n ts ++ '\n' :: Text.spaces m)) = ts := by
  have hblank : IsBlank ('\n' :: Text.spaces m) := .newline (.spaces m)
  obtain ⟨u, hu⟩ : ∃ u, commaLines n ts ++ '\n' :: Text.spaces m = '\n' :: u := by
    obtain ⟨x, xs, rfl⟩ := List.exists_cons_of_ne_nil hne
    by_cases hxs : xs = []
    · subst hxs
      exact ⟨_, by rw [commaLines_singleton]; rfl⟩
    · exact ⟨_, by rw [commaLines_cons n x hxs]; rfl⟩
  have hlines : Balanced (commaLines n ts ++ '\n' :: Text.spaces m) :=
    (balanced_commaLines hts).append hblank.balanced (hblank.apart_right _)
  have hpieces := pieces_commaLines (n := n) hts hblank
  rw [hu] at hlines hpieces ⊢
  exact ⟨h.newline_append hlines, (pieces_newline_append h rfl u).trans hpieces⟩

end

/-- Blanks behind code are trimmed away, and the comments in front of them are not. -/
theorem trimEnd_append_of_solid {t : Text} (h : SolidEnd t) (u : Text) :
    Text.trimEnd (t ++ u) = t ++ Text.trimEnd u := by
  obtain ⟨init, c, rfl, hc⟩ := h.exists_concat
  rw [List.append_assoc, List.append_assoc, List.singleton_append, List.singleton_append,
    Text.trimEnd_append_cons hc]

/-- What is scanned in front of blanks does not depend on them. -/
theorem scan_append_trimmed {t u b : Text} {vs : List Visit} (hb : IsBlank b)
    (h : scan (t ++ (u ++ b)) = scan t ++ vs) : scan (t ++ u) = scan t ++ vs.take u.length := by
  have hlength : u.length ≤ vs.length := by
    have := congrArg List.length h
    simp only [scan, List.length_append, length_scanFrom] at this
    omega
  rw [← List.append_assoc, scan, scanFrom_append (hb.apart_right _),
    ← List.take_append_drop u.length vs, ← List.append_assoc] at h
  exact (List.append_inj h (by simp [scan, Nat.min_eq_left hlength])).1

/-- A text is broken behind its last code, if it has any. -/
theorem breakAfterCode_append {t u : Text} (h : ∀ v ∈ (scan t).getLast?, v.isSkipped = false)
    {ws : List Visit} (hscan : scan (t ++ u) = scan t ++ ws)
    (hws : ∀ v ∈ ws, v.isSkipped = true) : breakAfterCode (t ++ u) = (t, u) := by
  have hwsr : ∀ v ∈ ws.reverse, v.isSkipped = true := fun v hv => hws v (List.mem_reverse.1 hv)
  have htext : textOf ws = u := by
    have := textOf_scan (t ++ u)
    rw [hscan, textOf, List.map_append] at this
    exact List.append_cancel_left (((congrArg (· ++ textOf ws) (textOf_scan t)).symm).trans this)
  have hedge : (scan t).reverse.dropWhile Visit.isSkipped = (scan t).reverse ∧
      (scan t).reverse.takeWhile Visit.isSkipped = [] := by
    rw [← List.head?_reverse] at h
    cases hvs : (scan t).reverse with
    | nil => exact ⟨rfl, rfl⟩
    | cons v vs =>
      have hneg : ¬ v.isSkipped = true := by simp [h v (by rw [hvs]; rfl)]
      exact ⟨List.dropWhile_cons_of_neg hneg, List.takeWhile_cons_of_neg hneg⟩
  rw [breakAfterCode]
  simp only [hscan, List.reverse_append, List.dropWhile_append_of_pos hwsr,
    List.takeWhile_append_of_pos hwsr, hedge, List.append_nil, List.reverse_reverse,
    textOf_scan, htext]

/-- Entries of comments and blanks only need no separator. -/
theorem closeEntries_of_skipped (delimiter : Delimiter) {t : Text}
    (h : ∀ v ∈ scan t, v.isSkipped = true) : closeEntries delimiter t = t := by
  have hbreak : breakAfterCode t = ([], t) :=
    breakAfterCode_append (t := []) (u := t) (by simp [scan]) rfl h
  rw [closeEntries, hbreak]
  rfl

/-- A character that stands between two entries: the separator, and a comma in type blocks. -/
def Delimiter.Separates (delimiter : Delimiter) (sep : Char) : Prop :=
  sep = delimiter.char ∨ delimiter = .semicolon ∧ sep = ','

theorem Delimiter.Separates.isSeparator {delimiter : Delimiter} {sep : Char}
    (h : delimiter.Separates sep) : IsSeparator sep := by
  rcases h with rfl | ⟨-, rfl⟩
  · cases delimiter <;> decide
  · decide

/-- Behind the last code of old entries there is one separator, an old or a new one. -/
theorem exists_closeEntries_eq (delimiter : Delimiter) {code tail : Text} (hcode : Balanced code)
    (hsolid : SolidEnd code) (hbreak : breakAfterCode (code ++ tail) = (code, tail)) :
    ∃ front sep, closeEntries delimiter (code ++ tail) = front ++ sep :: tail ∧
      delimiter.Separates sep ∧ Balanced front ∧ (code = front ∨ code = front ++ [sep]) := by
  rw [closeEntries, hbreak]
  by_cases hlast : ∃ sep, code.getLast? = some sep ∧ delimiter.Separates sep
  · obtain ⟨sep, hlast, hsep⟩ := hlast
    obtain ⟨front, rfl⟩ := List.getLast?_eq_some_iff.1 hlast
    refine ⟨front, sep, ?_, hsep, hcode.of_concat hsep.isSeparator hsolid, .inr rfl⟩
    rcases hsep with rfl | ⟨rfl, rfl⟩ <;> simp
  · have hnone : (code.getLast? == some delimiter.char ||
        (delimiter == .semicolon && code.getLast? == some ',')) = false := by
      refine Bool.eq_false_iff.2 fun h => hlast ?_
      rcases (by simpa using h : _ ∨ _) with h | ⟨h, hcomma⟩
      · exact ⟨_, h, .inl rfl⟩
      · exact ⟨_, hcomma, .inr ⟨h, rfl⟩⟩
    obtain ⟨v, hv, -⟩ := hsolid
    have hne : code ≠ [] := by
      rintro rfl
      cases hv
    refine ⟨code, delimiter.char, ?_, .inl rfl, hcode, .inl rfl⟩
    simp only [hnone, Bool.or_false, List.isEmpty_iff, hne, if_false]

/-- What a literal holds once entries are added on lines of their own. -/
def addedEntries (delimiter : Delimiter) (inner : Text) (n m : Nat) (entries : List Text) : Text :=
  closeEntries delimiter (Text.trimEnd inner) ++
    (newEntries delimiter n entries ++ '\n' :: Text.spaces m)

/-- The lines that are added stand behind comments that end with a newline, and these behind a
separator and the old code, if there is any. -/
theorem addedEntries_eq (delimiter : Delimiter) {inner : Text} (h : Balanced inner) (n m : Nat)
    (entries : List Text) :
    ∃ a, IsFiller (a ++ ['\n']) ∧
      ((IsFiller inner ∧ addedEntries delimiter inner n m entries =
          a ++ (newEntries delimiter n entries ++ '\n' :: Text.spaces m)) ∨
        ∃ code tail front sep, inner = code ++ tail ∧ Balanced code ∧ IsFiller tail ∧
          scan inner = scan code ++ scan tail ∧ delimiter.Separates sep ∧ Balanced front ∧
          (code = front ∨ code = front ++ [sep]) ∧ addedEntries delimiter inner n m entries =
            front ++ sep :: (a ++ (newEntries delimiter n entries ++ '\n' :: Text.spaces m))) := by
  rcases h.filler_or_code with hfiller | ⟨code, tail, rfl, hcode, hsolid, htail, hscan⟩
  · obtain ⟨b, hb, hinner⟩ := Text.exists_eq_trimEnd_append inner
    have hskipped : ∀ v ∈ scan (Text.trimEnd inner), v.isSkipped = true := by
      intro v hv
      refine hfiller.skipped v ?_
      rw [hinner, scan, scanFrom_append (hb.apart_right _)]
      exact List.mem_append_left _ hv
    refine ⟨_, (hinner ▸ hfiller).newline hb, .inl ⟨hfiller, ?_⟩⟩
    rw [addedEntries, closeEntries_of_skipped delimiter hskipped]
  · obtain ⟨b, hb, htrim⟩ := Text.exists_eq_trimEnd_append tail
    have hskipped : ∀ v ∈ (scan tail).take (Text.trimEnd tail).length, v.isSkipped = true :=
      fun v hv => htail.skipped v (List.mem_of_mem_take hv)
    have hbreak : breakAfterCode (code ++ Text.trimEnd tail) = (code, Text.trimEnd tail) := by
      obtain ⟨v, hv, hv'⟩ := hsolid
      exact breakAfterCode_append (fun w hw => Option.some.inj (hv.symm.trans hw) ▸ hv')
        (scan_append_trimmed hb (by rwa [← htrim])) hskipped
    obtain ⟨front, sep, hclose, hsep, hfront, heq⟩ :=
      exists_closeEntries_eq delimiter hcode hsolid hbreak
    refine ⟨_, (htrim ▸ htail).newline hb, .inr ⟨code, tail, front, sep, rfl, hcode, htail, hscan,
      hsep, hfront, heq, ?_⟩⟩
    rw [addedEntries, trimEnd_append_of_solid hsolid, hclose, List.append_assoc, List.cons_append]

/-- Behind balanced text and a separator balanced text may follow. -/
theorem Balanced.append_separator {front u : Text} {sep : Char} (hsep : IsSeparator sep)
    (hfront : Balanced front) (hu : Balanced u) : Balanced (front ++ sep :: u) := by
  have hrest : Balanced ([sep] ++ u) := by
    refine (Balanced.of_plain (t := [sep]) (by simp [hsep.1])).append hu (apart_concat [] u ?_ hsep.2)
    rintro rfl
    exact absurd hsep.1 (by decide)
  exact hfront.append hrest (apart_separator hsep _ _)

/-- Entries that are added behind balanced text are read as further pieces, whatever stood there:
entries with or without a separator behind the last one, comments behind it, or no entry at all. -/
theorem balanced_and_pieces_addedEntries {inner : Text} (h : Balanced inner) {n m : Nat}
    {ts : List Text} (hne : ts ≠ []) (hts : ∀ t ∈ ts, IsPiece ',' t) :
    Balanced (addedEntries .comma inner n m ts) ∧
      pieces ',' (addedEntries .comma inner n m ts) = pieces ',' inner ++ ts := by
  have hcomma : IsSeparator ',' := by decide
  obtain ⟨a, ha, ⟨hfiller, hadded⟩ | ⟨code, tail, front, sep, rfl, hcode, htail, hscan, hsep, hfront,
    heq, hadded⟩⟩ := addedEntries_eq .comma h n m ts
  · rw [hadded, hfiller.pieces_eq_nil hcomma rfl]
    exact balanced_and_pieces_lines ha hne hts
  · obtain rfl : sep = ',' := by
      rcases hsep with rfl | ⟨h, -⟩
      · rfl
      · cases h
    have hpieces : pieces ',' front = pieces ',' code := by
      rcases heq with rfl | rfl
      · rfl
      · rw [pieces_append_separator hcomma hfront, pieces_blank .nil rfl, List.append_nil]
    obtain ⟨hlines, hnew⟩ := balanced_and_pieces_lines ha (n := n) (m := m) hne hts
    rw [hadded, pieces_append_skipped hcomma rfl hcode hscan htail.skipped]
    refine ⟨hfront.append_separator hcomma hlines, ?_⟩
    rw [pieces_append_separator hcomma hfront, ← hpieces]
    exact congrArg (pieces ',' front ++ ·) hnew

end Scaffold.Script
