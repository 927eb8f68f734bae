import Mathlib.Data.List.TakeWhile
import Scaffold.Text.Basic

/-!
# Blanks and trimming

A list is divided at its first or last element with some property, and the elements at its edges
with a property are trimmed away.  Both are said of all lists, since texts and scanned texts are
trimmed alike; `exists_eq_trimEdges` says what trimming leaves.  A text is trimmed of its blanks
(`IsBlank`).
-/

namespace Scaffold

/-! ## First and last elements -/

/-- All elements have `p`, or there is a first one without it. -/
theorem exists_first_of_not_forall {α : Type} {p : α → Bool} (l : List α) :
    (∀ x ∈ l, p x = true) ∨
      ∃ front x back, l = front ++ x :: back ∧ p x = false ∧ ∀ y ∈ front, p y = true := by
  induction l with
  | nil => exact .inl (by simp)
  | cons y l ih =>
    cases hy : p y with
    | false => exact .inr ⟨[], y, l, rfl, hy, by simp⟩
    | true =>
      rcases ih with hall | ⟨front, x, back, rfl, hx, hfront⟩
      · exact .inl (List.forall_mem_cons.2 ⟨hy, hall⟩)
      · exact .inr ⟨y :: front, x, back, rfl, hx, List.forall_mem_cons.2 ⟨hy, hfront⟩⟩

/-- All elements have `p`, or there is a last one without it. -/
theorem exists_last_of_not_forall {α : Type} {p : α → Bool} (l : List α) :
    (∀ x ∈ l, p x = true) ∨
      ∃ front x back, l = front ++ x :: back ∧ p x = false ∧ ∀ y ∈ back, p y = true := by
  induction l with
  | nil => exact .inl (by simp)
  | cons y l ih =>
    rcases ih with hall | ⟨front, x, back, rfl, hx, hback⟩
    · cases hy : p y with
      | true => exact .inl (List.forall_mem_cons.2 ⟨hy, hall⟩)
      | false => exact .inr ⟨[], y, l, rfl, hy, hall⟩
    · exact .inr ⟨y :: front, x, back, rfl, hx, hback⟩

/-- Dividing a list at an element with `p` that no earlier element has. -/
theorem breakAt?_append {α : Type} {p : α → Bool} {before : List α} {x : α}
    (h : ∀ y ∈ before, p y = false) (hx : p x = true) (rest : List α) :
    breakAt? p (before ++ x :: rest) = some (before, x, rest) := by
  induction before with
  | nil => simp [breakAt?, hx]
  | cons y before ih =>
    have hy : p y = false := h y List.mem_cons_self
    have := ih fun z hz => h z (List.mem_cons_of_mem _ hz)
    simp [breakAt?, hy, this]

/-- A list is not divided when no element has `p`. -/
theorem breakAt?_eq_none_iff {α : Type} {p : α → Bool} {l : List α} :
    breakAt? p l = none ↔ ∀ x ∈ l, p x = false := by
  induction l with
  | nil => simp [breakAt?]
  | cons x l ih => cases hx : p x <;> simp [breakAt?, hx, ih]

/-- The longest start with `p` ends in front of the first element without it. -/
theorem takeWhile_append_of_head? {α : Type} {p : α → Bool} {xs l : List α}
    (hxs : ∀ x ∈ xs, p x = true) (hfirst : ∀ x ∈ l.head?, p x = false) :
    (xs ++ l).takeWhile p = xs := by
  rw [List.takeWhile_append_of_pos hxs]
  cases l with
  | nil => rw [List.takeWhile_nil, List.append_nil]
  | cons x l => rw [List.takeWhile_cons_of_neg (by simp [hfirst x rfl]), List.append_nil]

/-! ## Edges -/

/-- Elements with `p` around a list are trimmed away. -/
theorem trimEdges_append {α : Type} {p : α → Bool} {xs ys : List α} (l : List α)
    (hx : ∀ x ∈ xs, p x = true) (hy : ∀ y ∈ ys, p y = true) :
    trimEdges p (xs ++ l ++ ys) = trimEdges p l := by
  have hyr : ∀ y ∈ ys.reverse, p y = true := fun y hm => hy y (List.mem_reverse.1 hm)
  have hdrop : ((l ++ ys).dropWhile p).reverse.dropWhile p = (l.dropWhile p).reverse.dropWhile p := by
    rw [List.dropWhile_append]
    split
    · next hnil =>
      have hl : l.dropWhile p = [] := by simpa using hnil
      have hys : (ys ++ []).dropWhile p = [] := List.dropWhile_append_of_pos hy
      rw [List.append_nil] at hys
      rw [hl, hys]
    · rw [List.reverse_append, List.dropWhile_append_of_pos hyr]
  rw [trimEdges, List.append_assoc, List.dropWhile_append_of_pos hx, hdrop, trimEdges]

/-- A list whose edges do not have `p` is not trimmed. -/
theorem trimEdges_eq_self {α : Type} {p : α → Bool} {l : List α}
    (hfirst : ∀ x ∈ l.head?, p x = false) (hlast : ∀ x ∈ l.getLast?, p x = false) :
    trimEdges p l = l := by
  have hkeep {l : List α} (h : ∀ x ∈ l.head?, p x = false) : l.dropWhile p = l := by
    cases l with
    | nil => rfl
    | cons x l => rw [List.dropWhile_cons_of_neg (by simp [h x rfl])]
  rw [trimEdges, hkeep hfirst, hkeep (by simpa using hlast), List.reverse_reverse]

/-- A list is what is left when its edges are trimmed, between elements with `p`. -/
theorem exists_eq_trimEdges {α : Type} (p : α → Bool) (l : List α) :
    ∃ xs ys, l = xs ++ trimEdges p l ++ ys ∧ (∀ x ∈ xs, p x = true) ∧ (∀ y ∈ ys, p y = true) ∧
      (∀ x ∈ (trimEdges p l).head?, p x = false) ∧ ∀ x ∈ (trimEdges p l).getLast?, p x = false := by
  have hedge (l : List α) : ∀ x ∈ (l.dropWhile p).head?, p x = false := by
    intro x hx
    have := List.head?_dropWhile_not p l
    rw [hx] at this
    simpa using this
  have hsplit : l.dropWhile p =
      trimEdges p l ++ ((l.dropWhile p).reverse.takeWhile p).reverse := by
    rw [trimEdges, ← List.reverse_append, List.takeWhile_append_dropWhile, List.reverse_reverse]
  refine ⟨l.takeWhile p, ((l.dropWhile p).reverse.takeWhile p).reverse, ?_,
    List.all_eq_true.1 List.all_takeWhile, fun y hy => ?_, fun x hx => ?_, fun x hx => ?_⟩
  · rw [List.append_assoc, ← hsplit, List.takeWhile_append_dropWhile]
  · exact List.all_eq_true.1 List.all_takeWhile y (List.mem_reverse.1 hy)
  · refine hedge l x ?_
    rw [hsplit, List.head?_append, hx]
    rfl
  · refine hedge (l.dropWhile p).reverse x ?_
    rwa [trimEdges, List.getLast?_reverse] at hx

theorem trimEdges_trimEdges {α : Type} (p : α → Bool) (l : List α) :
    trimEdges p (trimEdges p l) = trimEdges p l := by
  obtain ⟨-, -, -, -, -, hfirst, hlast⟩ := exists_eq_trimEdges p l
  exact trimEdges_eq_self hfirst hlast

/-- A list that keeps its length when it is trimmed has edges without `p`. -/
theorem not_of_trimEdges {α : Type} {p : α → Bool} {l : List α}
    (h : (trimEdges p l).length = l.length) :
    (∀ x ∈ l.head?, p x = false) ∧ ∀ x ∈ l.getLast?, p x = false := by
  obtain ⟨xs, ys, hsplit, -, -, hedges⟩ := exists_eq_trimEdges p l
  have hlength := congrArg List.length hsplit
  simp only [List.length_append] at hlength
  obtain rfl : xs = [] := List.length_eq_zero_iff.1 (by omega)
  obtain rfl : ys = [] := List.length_eq_zero_iff.1 (by omega)
  rw [List.nil_append, List.append_nil] at hsplit
  rwa [← hsplit] at hedges

/-! ## Blanks -/

/-- The visible ASCII characters are not blank. -/
theorem isBlank_of_visible {c : Char} (h₁ : 0x20 < c.toNat) (h₂ : c.toNat < 0x7F) :
    isBlank c = false := by
  simp [isBlank, blankRanges]
  omega

/-- The code points of the ASCII letters and digits. -/
theorem toNat_of_isAlphanum {c : Char} (h : c.isAlphanum = true) :
    (0x41 ≤ c.toNat ∧ c.toNat ≤ 0x5A) ∨ (0x61 ≤ c.toNat ∧ c.toNat ≤ 0x7A) ∨
      0x30 ≤ c.toNat ∧ c.toNat ≤ 0x39 := by
  delta Char.isAlphanum Char.isAlpha Char.isUpper Char.isLower Char.isDigit at h
  simpa [UInt32.le_iff_toNat_le, or_assoc] using h

theorem isBlank_of_isAlphanum {c : Char} (h : c.isAlphanum = true) : isBlank c = false := by
  have hcode := toNat_of_isAlphanum h
  exact isBlank_of_visible (by omega) (by omega)

/-- A text of blanks only. -/
def IsBlank (t : Text) : Prop := ∀ c ∈ t, isBlank c = true

namespace IsBlank

variable {a b : Text}

theorem nil : IsBlank [] := by simp [IsBlank]

theorem spaces (n : Nat) : IsBlank (Text.spaces n) := by
  intro c hc
  rw [List.eq_of_mem_replicate hc]
  rfl

theorem append (ha : IsBlank a) (hb : IsBlank b) : IsBlank (a ++ b) := by
  intro c hc
  exact (List.mem_append.1 hc).elim (ha c) (hb c)

theorem newline (ha : IsBlank a) : IsBlank ('\n' :: a) := by
  intro c hc
  rcases List.mem_cons.1 hc with rfl | hc
  · rfl
  · exact ha c hc

theorem ne_of_mem (ha : IsBlank a) {c d : Char} (hc : c ∈ a) (hd : isBlank d = false) : c ≠ d := by
  rintro rfl
  rw [ha c hc] at hd
  cases hd

end IsBlank

/-! ## Trimmed texts -/

namespace Text

theorem exists_eq_trimEnd_append (t : Text) : ∃ b, IsBlank b ∧ t = trimEnd t ++ b := by
  refine ⟨(t.reverse.takeWhile isBlank).reverse, fun c hc => ?_, ?_⟩
  · exact List.all_eq_true.1 List.all_takeWhile c (List.mem_reverse.1 hc)
  · rw [trimEnd, ← List.reverse_append, List.takeWhile_append_dropWhile, List.reverse_reverse]

/-- A text without blanks is not trimmed. -/
theorem trim_of_notBlank {t : Text} (h : ∀ c ∈ t, isBlank c = false) : trim t = t :=
  trimEdges_eq_self (fun c hc => h c (List.mem_of_mem_head? hc)) fun c hc =>
    h c (List.mem_of_getLast? hc)

/-- A character that is no blank ends the blanks behind it. -/
theorem trimEnd_append_cons {c : Char} (hc : isBlank c = false) (t u : Text) :
    trimEnd (t ++ c :: u) = t ++ c :: trimEnd u := by
  have hstop : (c :: t.reverse).dropWhile isBlank = c :: t.reverse :=
    List.dropWhile_cons_of_neg (by simp [hc])
  rw [trimEnd, trimEnd, List.reverse_append, List.reverse_cons, List.append_assoc,
    List.singleton_append, List.dropWhile_append, hstop]
  split
  · next hempty => simp_all
  · simp

theorem trimEnd_of_notBlank {t : Text} (h : ∀ c ∈ t, isBlank c = false) : trimEnd t = t := by
  obtain rfl | ⟨init, c, rfl⟩ := List.eq_nil_or_concat t
  · rfl
  · rw [List.concat_eq_append] at h ⊢
    exact trimEnd_append_cons (h c (by simp)) init []

theorem trimEnd_blank {b : Text} (h : IsBlank b) : trimEnd b = [] := by
  have hnone : b.reverse.dropWhile isBlank = [] :=
    List.dropWhile_eq_nil_iff.2 fun c hc => h c (List.mem_reverse.1 hc)
  rw [trimEnd, hnone]
  rfl

end Text

end Scaffold
