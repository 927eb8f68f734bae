import Scaffold.Proofs.Script.Region

/-!
# Cutting text that is already there

What a file holds has not been put together by this library, so its parts are known only from what
the scan says about them.  A literal that is found is balanced between its brackets
(`exists_balanced_of_bracketed?`), a balanced text divides at a separator into balanced texts
(`Balanced.divide`), and comments in front of its first piece or behind its last one do not count
(`pieces_filler_append`, `pieces_append_skipped`).
-/

namespace Scaffold

namespace Script

/-! ## The literal between brackets -/

/-- A step inside a bracket stays inside, unless it closes that bracket. -/
theorem ScanState.step_stays {s : ScanState} {c : Char} {next : Option Char} (hs : 1 ≤ s.depth)
    (h : (s.step c next).1.closesAll = false) :
    1 ≤ (s.step c next).1.depth ∧ 1 ≤ (s.step c next).2.depth := by
  obtain ⟨mode, depth⟩ := s
  cases mode with
  | code =>
    simp only [step] at h ⊢
    split
    · exact ⟨hs, hs⟩
    split
    · exact ⟨hs, hs⟩
    split
    · exact ⟨hs, hs⟩
    split
    · exact ⟨hs, Nat.le_succ_of_le hs⟩
    split
    · next hclosing =>
      have hdeep : 1 ≤ depth - 1 := by
        simp_all [Visit.closesAll, Visit.isTopLevel]
        omega
      exact ⟨hdeep, hdeep⟩
    · exact ⟨hs, hs⟩
  | quoted q =>
    simp only [step] at h ⊢
    refine ⟨hs, ?_⟩
    repeat' split
    all_goals exact hs
  | lineComment =>
    simp only [step] at h ⊢
    split <;> exact ⟨hs, hs⟩
  | block =>
    simp only [step] at h ⊢
    refine ⟨hs, ?_⟩
    split <;> exact hs
  | _ => exact ⟨hs, hs⟩

/-- A step that closes the only bracket is made in code, one bracket deep. -/
theorem ScanState.eq_of_closesAll {s : ScanState} {c : Char} {next : Option Char}
    (hs : 1 ≤ s.depth) (h : (s.step c next).1.closesAll = true) :
    s = { depth := 1 } ∧ isClosing c = true := by
  obtain ⟨mode, depth⟩ := s
  cases mode with
  | code =>
    simp only [step] at h
    repeat' split at h
    all_goals simp_all [Visit.closesAll, Visit.isTopLevel]
    all_goals omega
  | lineComment =>
    simp only [step] at h
    split at h
    · next hc =>
      obtain rfl : c = '\n' := by simpa using hc
      simp [Visit.closesAll, isClosing] at h
    · simp [Visit.closesAll, Visit.isTopLevel] at h
  | _ => simp [step, Visit.closesAll, Visit.isTopLevel] at h

/-- Inside a bracket that is not closed every visit is inside it. -/
theorem stays_of_not_closesAll {t : Text} {s : ScanState} (hs : 1 ≤ s.depth)
    (h : ∀ v ∈ scanFrom s t, v.closesAll = false) :
    (∀ v ∈ scanFrom s t, 1 ≤ v.depth) ∧ 1 ≤ (s.after t).depth := by
  induction t generalizing s with
  | nil => exact ⟨by simp, hs⟩
  | cons c t ih =>
    rw [scanFrom_cons, List.forall_mem_cons] at h
    obtain ⟨hvisit, hstate⟩ := ScanState.step_stays hs h.1
    obtain ⟨hrest, hafter⟩ := ih hstate h.2
    rw [scanFrom_cons, ScanState.after_cons, List.forall_mem_cons]
    exact ⟨⟨hvisit, hrest⟩, hafter⟩

/-- A literal that is found opens and closes with brackets around a balanced text. -/
theorem exists_balanced_of_bracketed? {t literal rest : Text}
    (h : bracketed? t = some (literal, rest)) : ∃ o inner c, isOpening o = true ∧
      isClosing c = true ∧ Balanced inner ∧ literal = o :: inner ++ [c] := by
  cases t with
  | nil => cases h
  | cons o t =>
    rw [bracketed?, scan, scanFrom_cons] at h
    simp only [ScanState.char_step] at h
    split at h
    · next ho =>
      rw [ScanState.step_opening ho] at h
      obtain ⟨⟨body, w, after⟩, hbreak, heq⟩ := Option.map_eq_some_iff.1 h
      obtain ⟨hscan, hclose, hbody⟩ := eq_append_of_breakAt? hbreak
      change scanFrom { depth := 1 } t = _ at hscan
      have hclosing : isClosing w.char = true := by
        simp only [Visit.closesAll, Bool.and_eq_true] at hclose
        exact hclose.2
      have htext : t = textOf body ++ w.char :: textOf after := by
        rw [← textOf_scanFrom { depth := 1 } t, hscan]
        simp [textOf]
      rw [htext, scanFrom_append (apart_closing hclosing _ _), scanFrom_cons] at hscan
      obtain ⟨hinside, hvisits⟩ := List.append_inj hscan (by simp)
      have hw := (List.cons.inj hvisits).1
      obtain ⟨hdeep, hstate⟩ :=
        stays_of_not_closesAll (s := { depth := 1 }) (Nat.le_refl 1) (hinside ▸ hbody)
      obtain ⟨hafter, -⟩ := ScanState.eq_of_closesAll hstate (hw ▸ hclose)
      refine ⟨o, textOf body, w.char, ho, hclosing, ⟨hafter, hdeep⟩, ?_⟩
      exact (Prod.mk.inj heq).1.symm
    · cases h

/-! ## Comments and blanks -/

/-- A balanced text of comments and blanks. -/
structure IsFiller (t : Text) : Prop where
  balanced : Balanced t
  skipped : ∀ v ∈ scan t, v.isSkipped = true

end Script

theorem IsBlank.filler {t : Text} (h : IsBlank t) : Script.IsFiller t := ⟨h.balanced, h.skipped⟩

namespace Script

/-- A separator is no comment and no blank. -/
theorem not_separator_of_skipped {sep : Char} (hs : isBlank sep = false) {v : Visit}
    (h : v.isSkipped = true) : (v.char == sep && v.isTopLevel) = false := by
  simp only [Visit.isSkipped, Bool.or_eq_true, beq_iff_eq] at h
  rcases h with hcomment | hblank
  · simp [Visit.isTopLevel, hcomment]
  · have hne : v.char ≠ sep := by
      rintro rfl
      rw [hs] at hblank
      cases hblank
    simp [hne]

/-- Blanks and comments hold no separator. -/
theorem IsFiller.freeOf {sep : Char} (hs : isBlank sep = false) {t : Text} (h : IsFiller t) :
    FreeOf sep t := by
  intro v hv htop hchar
  have := not_separator_of_skipped hs (h.skipped v hv)
  simp [htop, hchar] at this

/-- A text without separators joins the first part of what follows it. -/
theorem splitTopLevel_freeOf_append {sep : Char} {a u : Text} (hf : FreeOf sep a) (hb : Balanced a)
    (hm : Apart a u) : splitTopLevel sep (a ++ u) = (splitTopLevel sep u).modifyHead (a ++ ·) := by
  have hfirst (vs : List Visit) {ws : List Visit}
      (hws : ∀ v ∈ ws, (v.char == sep && v.isTopLevel) = false) :
      (ws ++ vs).splitOnP (fun v => v.char == sep && v.isTopLevel) =
        (vs.splitOnP fun v => v.char == sep && v.isTopLevel).modifyHead (ws ++ ·) := by
    induction ws with
    | nil => cases hvs : vs.splitOnP _ <;> simp [hvs]
    | cons w ws ih =>
      obtain ⟨hw, hrest⟩ := List.forall_mem_cons.1 hws
      rw [List.cons_append, List.splitOnP_cons_eq_if_modifyHead, ih hrest, hw,
        if_neg Bool.false_ne_true, List.modifyHead_modifyHead]
      rfl
  rw [splitTopLevel, hb.scan_append hm, hfirst _ (freeOf_iff.1 hf), splitTopLevel]
  obtain ⟨v, vs, hvs⟩ := List.exists_cons_of_ne_nil
    (List.splitOnP_ne_nil (fun v => v.char == sep && v.isTopLevel) (scan u))
  have htext : textOf (scan a ++ v) = a ++ textOf v := by
    rw [textOf, List.map_append]
    exact congrArg (· ++ textOf v) (textOf_scan a)
  rw [hvs, List.modifyHead_cons, List.map_cons, List.map_cons, List.modifyHead_cons, htext]

/-- There is a first part, if only an empty one. -/
theorem splitTopLevel_ne_nil (sep : Char) (t : Text) : splitTopLevel sep t ≠ [] := by
  simp [splitTopLevel, List.splitOnP_ne_nil]

/-- Comments and blanks in front of the first piece do not count. -/
theorem pieces_filler_append {sep : Char} (hs : isBlank sep = false) {a : Text} (ha : IsFiller a)
    (hm : ∀ u, Apart a u) (u : Text) : pieces sep (a ++ u) = pieces sep u := by
  have htrim (t : Text) : trimCode (a ++ t) = trimCode t := by
    rw [trimCode, ha.balanced.scan_append (hm t), ← List.append_nil (scan a ++ scan t),
      trimEdges_append _ ha.skipped (by simp), trimCode]
  rw [pieces, splitTopLevel_freeOf_append (ha.freeOf hs) ha.balanced (hm u), pieces]
  obtain ⟨t, ts, hts⟩ := List.exists_cons_of_ne_nil (splitTopLevel_ne_nil sep u)
  rw [hts, List.modifyHead_cons, List.map_cons, List.map_cons, htrim]

/-- The pieces around a separator. -/
theorem pieces_append_separator {sep : Char} (hsep : IsSeparator sep) {t : Text} (ht : Balanced t)
    (u : Text) : pieces sep (t ++ sep :: u) = pieces sep t ++ pieces sep u := by
  rw [pieces, splitTopLevel, scan_separator hsep ht,
    List.splitOnP_append_cons _ _ (by simp [Visit.isTopLevel]), List.map_append, List.map_append,
    List.filter_append]
  rfl

/-! ## Dividing at a separator -/

/-- A plain character that is visited as code stands in code. -/
theorem ScanState.eq_of_step_plain {s : ScanState} {c : Char} {next : Option Char}
    (hc : isPlain c = true) (hline : c ≠ '\n') (h : (s.step c next).1.lexeme = .code) :
    s = { depth := (s.step c next).1.depth } := by
  obtain ⟨mode, depth⟩ := s
  cases mode with
  | code => rw [step_plain hc]
  | lineComment => simp [step, hline] at h
  | _ => simp [step] at h

/-- The parts of a balanced text, when behind the first one the scan is where it started. -/
theorem Balanced.of_append {t u : Text} (h : Balanced (t ++ u)) (hm : Apart t u)
    (ht : ScanState.after {} t = {}) : Balanced t ∧ Balanced u := by
  have hscan (v : Visit) (hv : v ∈ scanFrom { depth := 1 } t) : 1 ≤ v.depth := by
    refine h.stays_inside v ?_
    rw [Script.scanFrom_append hm]
    exact List.mem_append_left _ hv
  have hafter : ScanState.after { depth := 1 } t = { depth := 1 } := by
    have hraise := (scanFrom_raise (s := {}) hscan 1).2
    rw [ht] at hraise
    exact hraise
  refine ⟨⟨hafter, hscan⟩, ?_, fun v hv => h.stays_inside v ?_⟩
  · have hinside := h.after_inside
    rwa [after_append hm, hafter] at hinside
  · rw [Script.scanFrom_append hm, hafter]
    exact List.mem_append_right _ hv

theorem Balanced.of_separator {sep : Char} (hsep : IsSeparator sep) {u : Text}
    (h : Balanced (sep :: u)) : Balanced u := by
  have hm : Apart [sep] u := by
    refine apart_concat [] u ?_ hsep.2
    rintro rfl
    exact absurd hsep.1 (by decide)
  exact (Balanced.of_append h hm (by rw [ScanState.after_cons, ScanState.step_plain hsep.1]; rfl)).2

/-- The parts of a text around a separator that is code outside all brackets are scanned like texts
of their own, and behind the first one the scan is where it started. -/
theorem scan_around_separator {sep : Char} (hsep : IsSeparator sep) (hline : sep ≠ '\n') {t : Text}
    {vs ws : List Visit} {v : Visit} (hscan : scan t = vs ++ v :: ws)
    (htop : v.isTopLevel = true) (hchar : v.char = sep) :
    t = textOf vs ++ sep :: textOf ws ∧ ScanState.after {} (textOf vs) = {} ∧
      scan (textOf vs) = vs ∧ scan (textOf ws) = ws := by
  have htext : t = textOf vs ++ sep :: textOf ws := by
    rw [← textOf_scan t, hscan, ← hchar]
    simp [textOf]
  have hm : Apart (textOf vs) (sep :: textOf ws) := apart_separator hsep _ _
  rw [htext, scan, Script.scanFrom_append hm, scanFrom_cons] at hscan
  obtain ⟨hfront, hvisits⟩ := List.append_inj hscan (by simp)
  obtain ⟨hvisit, hback⟩ := List.cons.inj hvisits
  simp only [Visit.isTopLevel, Bool.and_eq_true, beq_iff_eq] at htop
  have hstate := ScanState.eq_of_step_plain hsep.1 hline (hvisit ▸ htop.1)
  rw [hvisit, htop.2] at hstate
  rw [hstate, ScanState.step_plain hsep.1] at hback
  exact ⟨htext, hstate, hfront, hback⟩

/-- The parts of a balanced text around a separator that is code outside all brackets. -/
theorem Balanced.around_separator {sep : Char} (hsep : IsSeparator sep) (hline : sep ≠ '\n') {t : Text}
    (h : Balanced t) {vs ws : List Visit} {v : Visit} (hscan : scan t = vs ++ v :: ws)
    (htop : v.isTopLevel = true) (hchar : v.char = sep) :
    t = textOf vs ++ sep :: textOf ws ∧ Balanced (textOf vs) ∧ Balanced (textOf ws) := by
  obtain ⟨htext, hstate, -, -⟩ := scan_around_separator hsep hline hscan htop hchar
  have hparts := htext ▸ h
  obtain ⟨hp, hu⟩ := Balanced.of_append hparts (apart_separator hsep _ _) hstate
  exact ⟨htext, hp, hu.of_separator hsep⟩

/-- A balanced text has no separator, or it is divided at one into balanced texts. -/
theorem Balanced.divide {sep : Char} (hsep : IsSeparator sep) (hline : sep ≠ '\n') {t : Text}
    (h : Balanced t) : FreeOf sep t ∨ ∃ p u, t = p ++ sep :: u ∧ Balanced p ∧ Balanced u := by
  by_cases hfree : FreeOf sep t
  · exact .inl hfree
  obtain ⟨v, hv, htop, hchar⟩ : ∃ v ∈ scan t, v.isTopLevel = true ∧ v.char = sep := by
    simpa [FreeOf] using hfree
  obtain ⟨vs, ws, hscan⟩ := List.append_of_mem hv
  exact .inr ⟨_, _, h.around_separator hsep hline hscan htop hchar⟩

/-- Induction on the parts of a balanced text between separators. -/
theorem Balanced.separatorInduction {sep : Char} (hsep : IsSeparator sep) (hs : isBlank sep = false)
    {P : Text → Prop} (last : ∀ t, Balanced t → FreeOf sep t → P t)
    (cons : ∀ p u, Balanced p → Balanced u → P p → P u → P (p ++ sep :: u)) {t : Text}
    (h : Balanced t) : P t := by
  have hline : sep ≠ '\n' := by
    rintro rfl
    cases hs
  induction hn : t.length using Nat.strongRecOn generalizing t with
  | _ n ih =>
    rcases h.divide hsep hline with hfree | ⟨p, u, rfl, hp, hu⟩
    · exact last t h hfree
    · have hlength : p.length < n ∧ u.length < n := by
        rw [← hn, List.length_append, List.length_cons]
        omega
      exact cons p u hp hu (ih p.length hlength.1 hp rfl) (ih u.length hlength.2 hu rfl)

/-- Text of comments and blanks adds no separator to a text without any. -/
theorem FreeOf.of_append_skipped {sep : Char} (hs : isBlank sep = false) {t u : Text}
    (hf : FreeOf sep t) {vs : List Visit} (hscan : scan (t ++ u) = scan t ++ vs)
    (hskipped : ∀ v ∈ vs, v.isSkipped = true) : FreeOf sep (t ++ u) := by
  intro v hv htop hchar
  rw [hscan, List.mem_append] at hv
  rcases hv with hv | hv
  · exact hf v hv htop hchar
  · have := not_separator_of_skipped hs (hskipped v hv)
    simp [htop, hchar] at this

/-- What is scanned behind a separator does not depend on what stands in front of it. -/
theorem scan_of_separator {sep : Char} (hsep : IsSeparator sep) {p q u : Text} (hp : Balanced p)
    {vs : List Visit} (h : scan (p ++ sep :: q ++ u) = scan (p ++ sep :: q) ++ vs) :
    scan (q ++ u) = scan q ++ vs := by
  rw [List.append_assoc, List.cons_append, scan_separator hsep hp, scan_separator hsep hp,
    List.append_assoc, List.append_cancel_left_eq, List.cons_append, List.cons.injEq] at h
  exact h.2

/-- Comments and blanks behind the last piece do not count. -/
theorem pieces_append_skipped {sep : Char} (hsep : IsSeparator sep) (hs : isBlank sep = false)
    {t u : Text} (ht : Balanced t) {vs : List Visit} (hscan : scan (t ++ u) = scan t ++ vs)
    (hskipped : ∀ v ∈ vs, v.isSkipped = true) : pieces sep (t ++ u) = pieces sep t := by
  revert hscan
  refine Balanced.separatorInduction hsep hs (P := fun t => scan (t ++ u) = scan t ++ vs →
    pieces sep (t ++ u) = pieces sep t) ?last ?cons ht
  case last =>
    intro t ht hfree hscan
    have htrim : trimCode (t ++ u) = trimCode t := by
      have hfront : ∀ v ∈ ([] : List Visit), v.isSkipped = true := by simp
      have := trimEdges_append (scan t) hfront hskipped
      rw [List.nil_append] at this
      rw [trimCode, hscan, this, trimCode]
    rw [pieces, splitTopLevel_last (hfree.of_append_skipped hs hscan hskipped), pieces,
      splitTopLevel_last hfree, List.map_singleton, List.map_singleton, htrim]
  case cons =>
    intro p q hp hq _ ih hscan
    rw [List.append_assoc, List.cons_append, pieces_append_separator hsep hp,
      pieces_append_separator hsep hp, ih (scan_of_separator hsep hp hscan)]

theorem IsFiller.pieces_eq_nil {sep : Char} (hsep : IsSeparator sep) (hs : isBlank sep = false)
    {t : Text} (h : IsFiller t) : pieces sep t = [] :=
  (pieces_append_skipped hsep hs (t := []) .nil rfl h.skipped).trans (pieces_blank .nil hs)

end Script

end Scaffold
