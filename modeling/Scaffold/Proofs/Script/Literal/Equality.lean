import Scaffold.Proofs.Decimal.Equality
import Scaffold.Script.Literal.Basic

/-!
# Equality of literals

Equality of literals is symmetric and transitive.  It is not reflexive, because numbers are compared
as numbers.
-/

namespace Scaffold.Script.Literal

mutual

theorem beq_symm : ∀ {v w : Literal}, (v == w) = true → (w == v) = true
  | .string t, w, h => by
    cases w with
    | string u =>
      obtain rfl : t = u := beq_iff_eq.1 h
      exact h
    | _ => cases h
  | .number x, w, h => by
    cases w with
    | number y => exact Decimal.beq_symm h
    | _ => cases h
  | .boolean b, w, h => by
    cases w with
    | boolean c =>
      obtain rfl : b = c := beq_iff_eq.1 h
      exact h
    | _ => cases h
  | .null, w, h => by
    cases w with
    | null => rfl
    | _ => cases h
  | .undefined, w, h => by
    cases w with
    | undefined => rfl
    | _ => cases h
  | .array xs, w, h => by
    cases w with
    | array ys => exact beqItems_symm h
    | _ => cases h
  | .object xs, w, h => by
    cases w with
    | object ys => exact beqEntries_symm h
    | _ => cases h
  | .lazyImport m e, w, h => by
    cases w with
    | lazyImport n f =>
      have h : (m == n && e == f) = true := h
      obtain ⟨rfl, rfl⟩ : m = n ∧ e = f := by simpa using h
      exact h
    | _ => cases h
  | .expression s, w, h => by
    cases w with
    | expression t =>
      obtain rfl : s = t := beq_iff_eq.1 h
      exact h
    | _ => cases h

theorem beqItems_symm : ∀ {xs ys : List Literal}, beqItems xs ys = true → beqItems ys xs = true
  | [], [], _ => rfl
  | x :: xs, y :: ys, h => by
    obtain ⟨hx, hxs⟩ := Bool.and_eq_true_iff.1 h
    exact Bool.and_eq_true_iff.2 ⟨beq_symm hx, beqItems_symm hxs⟩

theorem beqEntries_symm : ∀ {xs ys : List (Text × Literal)}, beqEntries xs ys = true →
    beqEntries ys xs = true
  | [], [], _ => rfl
  | (k, x) :: xs, (l, y) :: ys, h => by
    obtain ⟨hhead, hxs⟩ := Bool.and_eq_true_iff.1 h
    obtain ⟨hkey, hx⟩ := Bool.and_eq_true_iff.1 hhead
    obtain rfl := beq_iff_eq.1 hkey
    exact Bool.and_eq_true_iff.2 ⟨Bool.and_eq_true_iff.2 ⟨hkey, beq_symm hx⟩, beqEntries_symm hxs⟩

end

mutual

theorem beq_trans : ∀ {u v w : Literal}, (u == v) = true → (v == w) = true → (u == w) = true
  | .string t, v, w, h, h' => by
    cases v with
    | string u =>
      obtain rfl : t = u := beq_iff_eq.1 h
      exact h'
    | _ => cases h
  | .number x, v, w, h, h' => by
    cases v with
    | number y =>
      cases w with
      | number z => exact Decimal.beq_trans h h'
      | _ => cases h'
    | _ => cases h
  | .boolean b, v, w, h, h' => by
    cases v with
    | boolean c =>
      obtain rfl : b = c := beq_iff_eq.1 h
      exact h'
    | _ => cases h
  | .null, v, w, h, h' => by
    cases v with
    | null => exact h'
    | _ => cases h
  | .undefined, v, w, h, h' => by
    cases v with
    | undefined => exact h'
    | _ => cases h
  | .array xs, v, w, h, h' => by
    cases v with
    | array ys =>
      cases w with
      | array zs => exact beqItems_trans h h'
      | _ => cases h'
    | _ => cases h
  | .object xs, v, w, h, h' => by
    cases v with
    | object ys =>
      cases w with
      | object zs => exact beqEntries_trans h h'
      | _ => cases h'
    | _ => cases h
  | .lazyImport m e, v, w, h, h' => by
    cases v with
    | lazyImport n f =>
      have h : (m == n && e == f) = true := h
      obtain ⟨rfl, rfl⟩ : m = n ∧ e = f := by simpa using h
      exact h'
    | _ => cases h
  | .expression s, v, w, h, h' => by
    cases v with
    | expression t =>
      obtain rfl : s = t := beq_iff_eq.1 h
      exact h'
    | _ => cases h

theorem beqItems_trans : ∀ {xs ys zs : List Literal}, beqItems xs ys = true →
    beqItems ys zs = true → beqItems xs zs = true
  | [], [], zs, _, h' => h'
  | x :: xs, y :: ys, [], _, h' => by cases h'
  | x :: xs, y :: ys, z :: zs, h, h' => by
    obtain ⟨hx, hxs⟩ := Bool.and_eq_true_iff.1 h
    obtain ⟨hy, hys⟩ := Bool.and_eq_true_iff.1 h'
    exact Bool.and_eq_true_iff.2 ⟨beq_trans hx hy, beqItems_trans hxs hys⟩

theorem beqEntries_trans : ∀ {xs ys zs : List (Text × Literal)}, beqEntries xs ys = true →
    beqEntries ys zs = true → beqEntries xs zs = true
  | [], [], zs, _, h' => h'
  | x :: xs, y :: ys, [], _, h' => by cases h'
  | (k, x) :: xs, (l, y) :: ys, (m, z) :: zs, h, h' => by
    obtain ⟨hhead, hxs⟩ := Bool.and_eq_true_iff.1 h
    obtain ⟨hkey, hx⟩ := Bool.and_eq_true_iff.1 hhead
    obtain rfl := beq_iff_eq.1 hkey
    obtain ⟨hhead', hys⟩ := Bool.and_eq_true_iff.1 h'
    obtain ⟨hkey', hy⟩ := Bool.and_eq_true_iff.1 hhead'
    exact Bool.and_eq_true_iff.2
      ⟨Bool.and_eq_true_iff.2 ⟨hkey', beq_trans hx hy⟩, beqEntries_trans hxs hys⟩

end

end Scaffold.Script.Literal
