import Scaffold.Proofs.Script.Entries

/-!
# What trimming leaves

The text that is left when the blanks and comments around some code are trimmed away is scanned like
the same part of the whole text (`scan_trimCode`).  Two facts make this so for every text: behind
blanks and comments the scan is in code, outside all brackets, and a character that is code or
quoted is scanned alike whatever follows it.  So nothing is left to trim (`trimCode_trimCode`), and
trimming keeps exactly the code (`trimCode_keeps_code`).
-/

namespace Scaffold.Script

/-- What is left of a text is scanned as in the text. -/
theorem scan_trimCode (t : Text) : scan (trimCode t) = trimEdges Visit.isSkipped (scan t) := by
  obtain ⟨xs, ys, hsplit, hxs, -, hfirst, hlast⟩ := exists_eq_trimEdges Visit.isSkipped (scan t)
  rw [trimCode]
  generalize trimEdges Visit.isSkipped (scan t) = vs at *
  cases vs with
  | nil => rfl
  | cons v vs =>
    have hcode : scan (textOf (v :: vs ++ ys)) = v :: vs ++ ys := by
      have hscan : scanFrom { depth := 0 } t = xs ++ v :: (vs ++ ys) :=
        hsplit.trans (List.append_assoc ..)
      exact (scanFrom_at_code hscan hxs (hfirst v rfl)).1
    obtain ⟨front, w, hfront⟩ := (List.eq_nil_or_concat (v :: vs)).resolve_left (by simp)
    rw [List.concat_eq_append] at hfront
    rw [hfront] at hcode hlast ⊢
    have hwhole : scan (textOf (front ++ [w] ++ ys)) = front ++ w :: ys :=
      hcode.trans (List.append_cons ..).symm
    exact scanFrom_front (quoteOpened_code 0) hwhole (hlast w (by simp))

/-- What is left has nothing to trim. -/
theorem trimCode_trimCode (t : Text) : trimCode (trimCode t) = trimCode t := by
  rw [trimCode, scan_trimCode, trimEdges_trimEdges, trimCode]

/-- Code between blanks and comments starts behind the first of them and ends where it ends. -/
theorem codeBounds?_eq {t : Text} {before after : List Visit}
    (hsplit : scan t = before ++ scan (trimCode t) ++ after)
    (hbefore : ∀ v ∈ before, v.isSkipped = true)
    (hfirst : ∀ v ∈ (scan (trimCode t)).head?, v.isSkipped = false) :
    codeBounds? t =
      if trimCode t = [] then none
      else some ((textOf before).byteLength, (textOf before ++ trimCode t).byteLength) := by
  by_cases hcode : trimCode t = []
  · simp [codeBounds?, hcode]
  · obtain ⟨c, code, htrim⟩ := List.exists_cons_of_ne_nil hcode
    have hlead : (scan t).takeWhile Visit.isSkipped = before := by
      rw [hsplit, List.append_assoc]
      refine takeWhile_append_of_head? hbefore fun v hv => hfirst v ?_
      rw [htrim] at hv ⊢
      exact hv
    rw [codeBounds?, hlead, if_neg hcode, Text.byteLength_append]
    simp [hcode]

/-- Trimming keeps exactly the code.  What is left is a part of the text, and it is scanned on its
own as it is in the text; what is removed on both sides is blank or part of a comment there, and the
first and the last character that are left are neither.  `codeBounds?` are the ends of that part in
bytes.  Nothing is left to trim. -/
theorem trimCode_keeps_code (t : Text) : ∃ before after : List Visit,
    scan t = before ++ scan (trimCode t) ++ after ∧
      t = textOf before ++ trimCode t ++ textOf after ∧
      (∀ v ∈ before ++ after, v.lexeme = .comment ∨ isBlank v.char = true) ∧
      (∀ v, v ∈ (scan (trimCode t)).head? ∨ v ∈ (scan (trimCode t)).getLast? →
        ¬ (v.lexeme = .comment ∨ isBlank v.char = true)) ∧
      codeBounds? t =
        (if trimCode t = [] then none
        else some ((textOf before).byteLength, (textOf before ++ trimCode t).byteLength)) ∧
      trimCode (trimCode t) = trimCode t := by
  have hskipped (v : Visit) : v.isSkipped = true ↔ v.lexeme = .comment ∨ isBlank v.char = true := by
    simp [Visit.isSkipped]
  obtain ⟨before, after, hsplit, hbefore, hafter, hfirst, hlast⟩ :=
    exists_eq_trimEdges Visit.isSkipped (scan t)
  rw [← scan_trimCode] at hsplit hfirst hlast
  refine ⟨before, after, hsplit, ?text, ?removed, ?kept, codeBounds?_eq hsplit hbefore hfirst,
    trimCode_trimCode t⟩
  case text =>
    have hparts := congrArg textOf hsplit
    rwa [textOf_scan, textOf, List.map_append, List.map_append, ← textOf, ← textOf, ← textOf,
      textOf_scan] at hparts
  case removed =>
    intro v hv
    rw [← hskipped]
    exact (List.mem_append.1 hv).elim (hbefore v) (hafter v)
  case kept =>
    intro v hv
    rw [← hskipped, Bool.not_eq_true]
    exact hv.elim (hfirst v) (hlast v)

end Scaffold.Script
