import Scaffold.Proofs.Script.Cut

/-!
# Splitting at separators

The readers split a text at a separator and scan every part again as a text of its own.  That is
sound for every text, also for one that closes brackets it did not open or ends inside a string or a
comment: a separator is found only where the scan stands in code outside all brackets, which is where
every scan starts, and it makes no comment mark with a neighbour (`scan_around_separator`).

So a text divides at its first separator (`splitTopLevel_cases`), and by induction on the text the
parts are those of the text, joined by the separator (`intercalate_splitTopLevel`), and so are their
visits (`intercalate_scan_splitTopLevel`).
-/

namespace Scaffold.Script

section

variable {sep : Char} (hsep : IsSeparator sep) (hline : sep ≠ '\n')
include hsep hline

/-- A text without separators is its only part, and any other text divides at its first one. -/
theorem splitTopLevel_cases (t : Text) :
    (FreeOf sep t ∧ splitTopLevel sep t = [t]) ∨
      ∃ a u, t = a ++ sep :: u ∧ FreeOf sep a ∧ scan t = scan a ++ ⟨sep, .code, 0⟩ :: scan u ∧
        splitTopLevel sep t = a :: splitTopLevel sep u := by
  cases hbreak : breakAt? (fun v => v.char == sep && v.isTopLevel) (scan t) with
  | none =>
    have hfree : FreeOf sep t := freeOf_iff.2 (breakAt?_eq_none_iff.1 hbreak)
    exact .inl ⟨hfree, splitTopLevel_last hfree⟩
  | some division =>
    obtain ⟨vs, v, ws⟩ := division
    obtain ⟨hscan, hfound, hbefore⟩ := eq_append_of_breakAt? hbreak
    obtain ⟨hchar, htop⟩ : v.char = sep ∧ v.isTopLevel = true := by simpa using hfound
    obtain ⟨htext, -, hfront, hback⟩ := scan_around_separator hsep hline hscan htop hchar
    refine .inr ⟨textOf vs, textOf ws, htext, ?free, ?visits, ?parts⟩
    case free => rwa [freeOf_iff, hfront]
    case visits =>
      obtain ⟨hcode, hdepth⟩ : v.lexeme = .code ∧ v.depth = 0 := by
        simpa [Visit.isTopLevel] using htop
      rw [hscan, hfront, hback, ← hchar, ← hcode, ← hdepth]
    case parts =>
      rw [splitTopLevel, hscan, List.splitOnP_append_cons_of_forall_mem hbefore v hfound,
        List.map_cons, splitTopLevel, hback]

/-- Induction on the parts of a text between separators. -/
theorem splitTopLevel_induction {P : Text → Prop}
    (last : ∀ t, FreeOf sep t → splitTopLevel sep t = [t] → P t)
    (cons : ∀ a u, FreeOf sep a → scan (a ++ sep :: u) = scan a ++ ⟨sep, .code, 0⟩ :: scan u →
      splitTopLevel sep (a ++ sep :: u) = a :: splitTopLevel sep u → P u → P (a ++ sep :: u))
    (t : Text) : P t := by
  induction hn : t.length using Nat.strongRecOn generalizing t with
  | _ n ih =>
    rcases splitTopLevel_cases hsep hline t with ⟨hfree, hparts⟩ | ⟨a, u, rfl, hfree, hscan, hparts⟩
    · exact last t hfree hparts
    · have hlength : u.length < n := by
        rw [← hn, List.length_append, List.length_cons]
        omega
      exact cons a u hfree hscan hparts (ih u.length hlength u rfl)

/-- The parts with the separator between two of them are the text. -/
theorem intercalate_splitTopLevel (t : Text) : [sep].intercalate (splitTopLevel sep t) = t := by
  induction t using splitTopLevel_induction hsep hline with
  | last t _ hparts => rw [hparts, List.intercalate_singleton]
  | cons a u _ _ hparts ih =>
    rw [hparts, List.intercalate_cons_of_ne_nil (splitTopLevel_ne_nil sep u), ih]
    simp

/-- The visits of the parts, each scanned as a text of its own, with those of the separators between
them are the visits of the text. -/
theorem intercalate_scan_splitTopLevel (t : Text) :
    [⟨sep, .code, 0⟩].intercalate ((splitTopLevel sep t).map scan) = scan t := by
  induction t using splitTopLevel_induction hsep hline with
  | last t _ hparts => rw [hparts, List.map_singleton, List.intercalate_singleton]
  | cons a u _ hscan hparts ih =>
    have hne : (splitTopLevel sep u).map scan ≠ [] := by
      simpa using splitTopLevel_ne_nil sep u
    rw [hparts, List.map_cons, List.intercalate_cons_of_ne_nil hne, ih, hscan]
    simp

/-- No part holds a separator. -/
theorem freeOf_of_mem_splitTopLevel (t : Text) : ∀ p ∈ splitTopLevel sep t, FreeOf sep p := by
  induction t using splitTopLevel_induction hsep hline with
  | last t hfree hparts => simpa [hparts] using hfree
  | cons a u hfree _ hparts ih =>
    rw [hparts, List.forall_mem_cons]
    exact ⟨hfree, ih⟩

end

/-- Splitting at a comma, a semicolon or a colon loses nothing, and the parts may be read on their
own: every character of a part has the class and depth that it has in the text, no part holds the
separator as code outside all brackets, and a part that is split again is its only part. -/
theorem splitTopLevel_composes {sep : Char} (hsep : sep ∈ [',', ';', ':']) (t : Text) :
    [sep].intercalate (splitTopLevel sep t) = t ∧
      [⟨sep, .code, 0⟩].intercalate ((splitTopLevel sep t).map scan) = scan t ∧
      ∀ p ∈ splitTopLevel sep t,
        (∀ v ∈ scan p, ¬ (v.char = sep ∧ v.lexeme = .code ∧ v.depth = 0)) ∧
          splitTopLevel sep p = [p] := by
  have hplain : IsSeparator sep ∧ sep ≠ '\n' := by
    revert hsep sep
    decide
  refine ⟨intercalate_splitTopLevel hplain.1 hplain.2 t,
    intercalate_scan_splitTopLevel hplain.1 hplain.2 t, fun p hp => ?_⟩
  have hfree := freeOf_of_mem_splitTopLevel hplain.1 hplain.2 t p hp
  refine ⟨fun v hv ⟨hchar, hcode, hdepth⟩ => ?_, splitTopLevel_last hfree⟩
  exact hfree v hv (by simp [Visit.isTopLevel, hcode, hdepth]) hchar

/-- A text that closes a bracket it did not open and ends in a comment that is not closed. -/
def openText : Text := "a), 'x,\\'y' // b,\n, [c, (d], e), /* f,"

theorem splitTopLevel_composes_sample :
    ',' ∈ [',', ';', ':'] ∧
      splitTopLevel ',' openText =
        ["a)".toList, " 'x,\\'y' // b,\n".toList, " [c, (d], e)".toList, " /* f,".toList] ∧
      [','].intercalate (splitTopLevel ',' openText) = openText ∧
      [⟨',', .code, 0⟩].intercalate ((splitTopLevel ',' openText).map scan) = scan openText ∧
      splitTopLevel ',' " [c, (d], e)" = [" [c, (d], e)".toList] := by
  have hcomma : ',' ∈ [',', ';', ':'] := by decide
  have hparts : splitTopLevel ',' openText =
      ["a)".toList, " 'x,\\'y' // b,\n".toList, " [c, (d], e)".toList, " /* f,".toList] := by decide
  obtain ⟨hjoin, hscan, hpart⟩ := splitTopLevel_composes hcomma openText
  exact ⟨hcomma, hparts, hjoin, hscan, (hpart _ (by simp [hparts])).2⟩

end Scaffold.Script
