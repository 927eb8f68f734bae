import Scaffold.Proofs.Script.Cut

/-!
# Blanks and comments

`Spacing` says what may stand between two words of a script without meaning anything: blanks, line
comments up to their newline, and block comments up to the first mark that ends one.  Whatever a
comment holds, the scan skips it and goes on in code (`Spacing.filler`), so such text may stand
around a piece and between two pieces that are put together (`pieces_filler_cons`,
`IsPiece.join_filler`).
-/

namespace Scaffold.Script

/-- The mark that ends a block comment. -/
def commentEnd : Text := ['*', '/']

/-- Blanks and comments in any order. -/
inductive Spacing : Text → Prop
  | nil : Spacing []
  | blank {c : Char} {t : Text} (hc : isBlank c = true) (ht : Spacing t) : Spacing (c :: t)
  | line {body t : Text} (hbody : '\n' ∉ body) (ht : Spacing t) :
    Spacing ('/' :: '/' :: (body ++ '\n' :: t))
  | block {body t : Text} (hbody : ¬ commentEnd <:+: body) (ht : Spacing t) :
    Spacing ('/' :: '*' :: (body ++ commentEnd ++ t))

/-! ## Scanning comments -/

/-- A line comment is skipped up to its newline. -/
theorem scanFrom_lineComment {body : Text} (h : '\n' ∉ body) (k : Nat) (t : Text) :
    scanFrom ⟨.lineComment, k⟩ (body ++ '\n' :: t) =
        body.map (⟨·, .comment, k⟩) ++ ⟨'\n', .code, k⟩ :: scanFrom { depth := k } t ∧
      ScanState.after ⟨.lineComment, k⟩ (body ++ '\n' :: t) = ScanState.after { depth := k } t := by
  induction body with
  | nil => exact ⟨rfl, rfl⟩
  | cons c body ih =>
    obtain ⟨hc, hbody⟩ : c ≠ '\n' ∧ '\n' ∉ body := by
      simpa [eq_comm] using h
    have hstep (next : Option Char) :
        ScanState.step ⟨.lineComment, k⟩ c next = (⟨c, .comment, k⟩, ⟨.lineComment, k⟩) := by
      simp [ScanState.step, hc]
    obtain ⟨hscan, hafter⟩ := ih hbody
    rw [List.cons_append, scanFrom_cons, ScanState.after_cons, hstep]
    exact ⟨by rw [hscan]; rfl, hafter⟩

/-- A block comment is skipped up to the mark that ends it. -/
theorem scanFrom_blockComment {body : Text} (h : ¬ commentEnd <:+: body) (k : Nat) (t : Text) :
    scanFrom ⟨.block, k⟩ (body ++ commentEnd ++ t) =
        (body ++ commentEnd).map (⟨·, .comment, k⟩) ++ scanFrom { depth := k } t ∧
      ScanState.after ⟨.block, k⟩ (body ++ commentEnd ++ t) = ScanState.after { depth := k } t := by
  induction body with
  | nil => exact ⟨rfl, rfl⟩
  | cons c body ih =>
    have hnext : (c == '*' && (body ++ commentEnd ++ t).head? == some '/') = false := by
      refine Bool.eq_false_iff.2 fun hmark => h ?_
      obtain ⟨rfl, hhead⟩ : c = '*' ∧ (body ++ commentEnd ++ t).head? = some '/' := by
        simpa using hmark
      cases body with
      | nil => simp [commentEnd] at hhead
      | cons d body =>
        obtain rfl : d = '/' := by simpa using hhead
        exact ⟨[], body, rfl⟩
    have hstep : ScanState.step ⟨.block, k⟩ c (body ++ commentEnd ++ t).head? =
        (⟨c, .comment, k⟩, ⟨.block, k⟩) := by
      simp only [ScanState.step, hnext]
      rfl
    obtain ⟨hscan, hafter⟩ := ih fun hwithin => h (hwithin.trans (List.suffix_cons c body).isInfix)
    rw [List.cons_append, List.cons_append, scanFrom_cons, ScanState.after_cons, hstep]
    exact ⟨by rw [hscan]; rfl, hafter⟩

/-- The scan skips blanks and comments, and behind them it is where it was. -/
theorem Spacing.scanFrom_skipped {t : Text} (h : Spacing t) (k : Nat) :
    (∀ v ∈ scanFrom { depth := k } t, v.isSkipped = true ∧ v.depth = k) ∧
      ScanState.after { depth := k } t = { depth := k } := by
  induction h with
  | nil => exact ⟨by simp, rfl⟩
  | @blank c t hc _ ih =>
    rw [scanFrom_cons, ScanState.after_cons, ScanState.step_blank hc]
    exact ⟨List.forall_mem_cons.2 ⟨⟨by simp [Visit.isSkipped, hc], rfl⟩, ih.1⟩, ih.2⟩
  | @line body t hbody _ ih =>
    have hopen : scanFrom { depth := k } ('/' :: '/' :: (body ++ '\n' :: t)) =
        ⟨'/', .comment, k⟩ :: ⟨'/', .comment, k⟩ ::
          scanFrom ⟨.lineComment, k⟩ (body ++ '\n' :: t) := rfl
    obtain ⟨hscan, hafter⟩ := scanFrom_lineComment hbody k t
    refine ⟨fun v hv => ?_, hafter.trans ih.2⟩
    rw [hopen, hscan] at hv
    simp only [List.mem_cons, List.mem_append, List.mem_map] at hv
    rcases hv with rfl | rfl | ⟨c, -, rfl⟩ | rfl | hv
    iterate 4 exact ⟨rfl, rfl⟩
    exact ih.1 v hv
  | @block body t hbody _ ih =>
    have hopen : scanFrom { depth := k } ('/' :: '*' :: (body ++ commentEnd ++ t)) =
        ⟨'/', .comment, k⟩ :: ⟨'*', .comment, k⟩ ::
          scanFrom ⟨.block, k⟩ (body ++ commentEnd ++ t) := rfl
    obtain ⟨hscan, hafter⟩ := scanFrom_blockComment hbody k t
    refine ⟨fun v hv => ?_, hafter.trans ih.2⟩
    rw [hopen, hscan, List.mem_cons, List.mem_cons, List.mem_append, List.mem_map] at hv
    rcases hv with rfl | rfl | ⟨c, -, rfl⟩ | hv
    iterate 3 exact ⟨rfl, rfl⟩
    exact ih.1 v hv

/-- Blanks and comments are balanced and hold no code. -/
theorem Spacing.filler {t : Text} (h : Spacing t) : IsFiller t where
  balanced :=
    ⟨(h.scanFrom_skipped 1).2, fun v hv => Nat.le_of_eq ((h.scanFrom_skipped 1).1 v hv).2.symm⟩
  skipped := fun v hv => ((h.scanFrom_skipped 0).1 v hv).1

theorem Spacing.of_isBlank {t : Text} (h : IsBlank t) : Spacing t := by
  induction t with
  | nil => exact .nil
  | cons c t ih =>
    obtain ⟨hc, ht⟩ := List.forall_mem_cons.1 h
    exact .blank hc (ih ht)

/-! ## Pieces between comments -/

/-- Blanks and comments around a balanced text do not count. -/
theorem trimCode_between_fillers {a t b : Text} (ha : IsFiller a) (ht : Balanced t)
    (hb : IsFiller b) (hat : Apart a t) (htb : Apart (a ++ t) b) :
    trimCode (a ++ t ++ b) = trimCode t := by
  have hscan : scan (a ++ t ++ b) = scan a ++ scan t ++ scan b := by
    rw [(ha.balanced.append ht hat).scan_append htb, ha.balanced.scan_append hat]
  rw [trimCode, hscan, trimEdges_append _ ha.skipped hb.skipped, trimCode]

theorem trimCode_filler_append {a t : Text} (ha : IsFiller a) (ht : Balanced t) (hm : Apart a t) :
    trimCode (a ++ t) = trimCode t := by
  have := trimCode_between_fillers ha ht IsBlank.nil.filler hm (apart_nil_right _)
  rwa [List.append_nil] at this

section

variable {sep : Char} (hs : isBlank sep = false)
include hs

/-- The first of several pieces, behind blanks and comments. -/
theorem pieces_filler_cons (hsep : IsSeparator sep) {a t : Text} (ha : IsFiller a)
    (ht : IsPiece sep t) (hm : Apart a t) (u : Text) :
    pieces sep (a ++ t ++ sep :: u) = t :: pieces sep u := by
  have hfree : FreeOf sep (a ++ t) := (ha.freeOf hs).append ha.balanced ht.free hm
  have hfirst : pieces sep (a ++ t) = [t] := by
    rw [pieces, splitTopLevel_last hfree, List.map_singleton,
      trimCode_filler_append ha ht.balanced hm, ht.trimmed, List.filter_cons,
      if_pos (by simpa using ht.ne_nil), List.filter_nil]
  rw [pieces_append_separator hsep (ha.balanced.append ht.balanced hm), hfirst, List.singleton_append]

/-- Two pieces are one piece with plain text, blanks and comments between them. -/
theorem IsPiece.join_filler {t u m a : Text} (ht : IsPiece sep t) (hu : IsPiece sep u) (hm : m ≠ [])
    (hplain : ∀ c ∈ m, IsSeparator c ∧ c ≠ sep) (ha : IsFiller a) (hau : Apart a u) :
    IsPiece sep (t ++ (m ++ a) ++ u) := by
  have hbal : Balanced m := .of_plain fun c hc => (hplain c hc).1.1
  have hfree : FreeOf sep m := .of_notMem fun hc => (hplain sep hc).2 rfl
  have hma : Apart m a := separators_apart hm hplain [] a
  have htm : Apart t (m ++ a) := by
    obtain ⟨c, m, rfl⟩ := List.exists_cons_of_ne_nil hm
    exact apart_separator (hplain c List.mem_cons_self).1 t _
  have hmu : Apart (t ++ (m ++ a)) u := by
    cases a with
    | nil =>
      rw [List.append_nil]
      exact separators_apart hm hplain t u
    | cons b a =>
      intro d e hd he
      refine hau d e ?_ he
      rwa [← List.append_assoc, List.getLast?_append, List.getLast?_cons, Option.some_or,
        ← List.getLast?_cons] at hd
  exact ht.join_balanced hu (hbal.append ha.balanced hma) (hfree.append hbal (ha.freeOf hs) hma) htm hmu

end

end Scaffold.Script
