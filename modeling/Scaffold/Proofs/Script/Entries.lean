import Scaffold.Proofs.Script.Extension
import Scaffold.Script.Import

/-!
# Entries that are written again

The pieces of balanced text are pieces themselves (`isPiece_of_mem_pieces`): what is cut out between
two separators, without the comments and blanks around it, opens and closes its own strings and
brackets.  So the names of an import may be put on one line, in front of further ones, and they are
read from it again (`balanced_and_pieces_nameList`).
-/

namespace Scaffold.Script

/-! ## The first code -/

/-- Behind comments and blanks the first code is scanned like a text of its own. -/
theorem scanFrom_at_code {k : Nat} {t : Text} {vs ws : List Visit} {w : Visit}
    (hscan : scanFrom { depth := k } t = vs ++ w :: ws) (hvs : ∀ v ∈ vs, v.isSkipped = true)
    (hw : w.isSkipped = false) :
    scanFrom { depth := k } (textOf (w :: ws)) = w :: ws ∧
      ScanState.after { depth := k } (textOf (w :: ws)) = ScanState.after { depth := k } t := by
  have htext : t = textOf vs ++ w.char :: textOf ws := by
    rw [← textOf_scanFrom { depth := k } t, hscan]
    simp [textOf]
  obtain ⟨xs, s, -, hlength, hskip, hsplit⟩ := exists_step (quoteOpened_code k) (textOf vs) w.char
  obtain ⟨hvisits, hend⟩ := hsplit (textOf ws)
  rw [← htext, hscan] at hvisits
  rw [← htext] at hend
  obtain ⟨rfl, hrest⟩ := List.append_inj hvisits (by simp [hlength])
  obtain ⟨hstep, -⟩ := List.cons.inj hrest
  obtain ⟨hmode, hdepth⟩ := hskip hvs
  have hcode : s = { depth := k } := by
    have hmode' :=
      (ScanState.code_or_inString (hstep ▸ hw)).resolve_right (Bool.eq_false_iff.1 hmode)
    obtain ⟨mode, depth⟩ := s
    simp only at hmode' hdepth
    rw [hmode', hdepth]
  subst hcode
  exact ⟨hrest.symm, hend.symm⟩

/-- Behind comments and blanks the rest of a balanced text is balanced. -/
theorem Balanced.of_skipped {t : Text} (h : Balanced t) {vs ws : List Visit} {w : Visit}
    (hscan : scan t = vs ++ w :: ws) (hvs : ∀ v ∈ vs, v.isSkipped = true)
    (hw : w.isSkipped = false) :
    Balanced (textOf (w :: ws)) ∧ scan (textOf (w :: ws)) = w :: ws := by
  have hraised : scanFrom { depth := 1 } t =
      vs.map (Visit.raise 1) ++ w.raise 1 :: ws.map (Visit.raise 1) := by
    rw [h.scanFrom_eq, hscan, List.map_append, List.map_cons]
  have hskipped : ∀ v ∈ vs.map (Visit.raise 1), v.isSkipped = true := by
    intro v hv
    obtain ⟨u, hu, rfl⟩ := List.mem_map.1 hv
    exact hvs u hu
  obtain ⟨hinside, hafter⟩ := scanFrom_at_code hraised hskipped hw
  have htext : textOf (w.raise 1 :: ws.map (Visit.raise 1)) = textOf (w :: ws) :=
    textOf_map_raise 1 (w :: ws)
  rw [htext] at hinside hafter
  refine ⟨⟨hafter.trans h.after_inside, fun v hv => h.stays_inside v ?_⟩,
    (scanFrom_at_code hscan hvs hw).1⟩
  rw [hraised]
  exact List.mem_append_right _ (hinside ▸ hv)

/-- A balanced text holds comments and blanks only, or what is left when they are trimmed away is
balanced code. -/
theorem Balanced.filler_or_trimmed {t : Text} (h : Balanced t) :
    IsFiller t ∨ (Balanced (trimCode t) ∧ SolidStart (trimCode t) ∧ SolidEnd (trimCode t) ∧
      trimCode t <:+: t ∧ ∀ v ∈ scan (trimCode t), v ∈ scan t) := by
  rcases h.filler_or_code with hfiller | ⟨code, tail, rfl, hcode, ⟨x, hx, hsolid⟩, htail, hscan⟩
  · exact .inl hfiller
  rcases exists_first_of_not_forall (p := Visit.isSkipped) (scan code) with hall | hfirst
  · rw [hall x (List.mem_of_getLast? hx)] at hsolid
    cases hsolid
  obtain ⟨vs, w, ws, hsplit, hw, hvs⟩ := hfirst
  obtain ⟨hbal, hrest⟩ := hcode.of_skipped hsplit hvs hw
  have hstart : SolidStart (textOf (w :: ws)) := ⟨w, by rw [hrest]; rfl, hw⟩
  have hend : SolidEnd (textOf (w :: ws)) := by
    refine ⟨x, ?_, hsolid⟩
    rw [hsplit, List.getLast?_append, List.getLast?_cons, Option.some_or] at hx
    rwa [hrest, List.getLast?_cons]
  have hwhole : scan (code ++ tail) = vs ++ scan (textOf (w :: ws)) ++ scan tail := by
    rw [hscan, hsplit, hrest]
  have htrim : trimCode (code ++ tail) = textOf (w :: ws) := by
    rw [trimCode, hwhole, trimEdges_append _ hvs htail.skipped]
    exact trimCode_eq_self hstart hend
  have htext : code = textOf vs ++ textOf (w :: ws) := by
    rw [← textOf_scan code, hsplit]
    simp [textOf]
  refine .inr ⟨htrim ▸ hbal, htrim ▸ hstart, htrim ▸ hend, ?_, fun v hv => ?_⟩
  · rw [htrim, htext]
    exact ⟨_, _, rfl⟩
  · rw [htrim] at hv
    rw [hwhole]
    exact List.mem_append_left _ (List.mem_append_right _ hv)

/-! ## Pieces of balanced text -/

/-- The pieces of balanced text may stand between separators, and they stand in the text. -/
theorem isPiece_of_mem_pieces {sep : Char} (hsep : IsSeparator sep) (hs : isBlank sep = false)
    {t : Text} (h : Balanced t) : ∀ p ∈ pieces sep t, IsPiece sep p ∧ p <:+: t := by
  refine Balanced.separatorInduction hsep hs
    (P := fun t => ∀ p ∈ pieces sep t, IsPiece sep p ∧ p <:+: t) ?last ?cons h
  case last =>
    intro t ht hfree p hp
    rcases ht.filler_or_trimmed with hfiller | ⟨hbal, hstart, hend, hwithin, hvisits⟩
    · rw [hfiller.pieces_eq_nil hsep hs] at hp
      cases hp
    · rw [pieces, splitTopLevel_last hfree] at hp
      obtain rfl := List.mem_singleton.1 (List.mem_filter.1 hp).1
      exact ⟨.of_solid hstart hend hbal fun v hv => hfree v (hvisits v hv), hwithin⟩
  case cons =>
    intro q u hq _ ihq ihu p hp
    rw [pieces_append_separator hsep hq, List.mem_append] at hp
    rcases hp with hp | hp
    · exact ⟨(ihq p hp).1, (ihq p hp).2.trans (List.prefix_append _ _).isInfix⟩
    · obtain ⟨hpiece, hwithin⟩ := ihu p hp
      exact ⟨hpiece, hwithin.trans ((List.suffix_cons sep u).trans (List.suffix_append _ _)).isInfix⟩

/-! ## Names on one line -/

theorem nameList_cons (t u : Text) (ts : List Text) :
    Document.nameList (t :: u :: ts) = t ++ ',' :: ' ' :: Document.nameList (u :: ts) := by
  simp [Document.nameList, List.intercalate]

theorem exists_mem_of_mem_nameList {ts : List Text} {c : Char} (hc : c ≠ ',' ∧ c ≠ ' ')
    (h : c ∈ Document.nameList ts) : ∃ t ∈ ts, c ∈ t := by
  induction ts with
  | nil => cases h
  | cons t ts ih =>
    cases ts with
    | nil => exact ⟨t, List.mem_cons_self, by simpa [Document.nameList] using h⟩
    | cons u ts =>
      rw [nameList_cons, List.mem_append, List.mem_cons, List.mem_cons] at h
      rcases h with h | rfl | rfl | h
      · exact ⟨t, List.mem_cons_self, h⟩
      · exact absurd rfl hc.1
      · exact absurd rfl hc.2
      · obtain ⟨v, hv, hmem⟩ := ih h
        exact ⟨v, List.mem_cons_of_mem _ hv, hmem⟩

/-- Texts on one line, a comma between two of them: they are balanced, and the pieces are the
texts. -/
theorem balanced_and_pieces_nameList {ts : List Text} {a b : Text} (ha : IsBlank a) (hb : IsBlank b)
    (hts : ∀ t ∈ ts, IsPiece ',' t) :
    Balanced (a ++ Document.nameList ts ++ b) ∧ pieces ',' (a ++ Document.nameList ts ++ b) = ts := by
  have hcomma : IsSeparator ',' := by decide
  induction ts generalizing a with
  | nil =>
    have hblank : IsBlank (a ++ Document.nameList [] ++ b) := by
      simpa [Document.nameList] using ha.append hb
    exact ⟨hblank.balanced, pieces_blank hblank rfl⟩
  | cons t ts ih =>
    obtain ⟨ht, hrest⟩ := List.forall_mem_cons.1 hts
    have hfront : Balanced (a ++ t) := ha.balanced.append ht.balanced (ha.apart_left t)
    cases ts with
    | nil =>
      have hlast : Document.nameList [t] = t := by simp [Document.nameList]
      rw [hlast]
      exact ⟨hfront.append hb.balanced (hb.apart_right _), pieces_last ht ha rfl hb⟩
    | cons u ts =>
      obtain ⟨hbal, hpieces⟩ := ih (a := [' ']) (.spaces 1) hrest
      have hsplit : a ++ Document.nameList (t :: u :: ts) ++ b =
          a ++ t ++ ',' :: ([' '] ++ Document.nameList (u :: ts) ++ b) := by
        rw [nameList_cons]
        simp
      rw [hsplit, pieces_cons ht ha rfl hcomma, hpieces]
      exact ⟨hfront.append_separator hcomma hbal, rfl⟩

/-- Names on one line, as they stand between braces. -/
def namesLine (ts : List Text) : Text := " ".toList ++ Document.nameList ts ++ " ".toList

theorem balanced_and_entries_namesLine {ts : List Text} (hts : ∀ t ∈ ts, IsPiece ',' t) :
    Balanced (namesLine ts) ∧ entriesOf (namesLine ts) = ts :=
  balanced_and_pieces_nameList (.spaces 1) (.spaces 1) hts

theorem exists_mem_of_mem_namesLine {ts : List Text} {c : Char} (hc : c ≠ ',' ∧ c ≠ ' ')
    (h : c ∈ namesLine ts) : ∃ t ∈ ts, c ∈ t :=
  exists_mem_of_mem_nameList hc (by simpa [namesLine, hc.2] using h)

end Scaffold.Script
