import Mathlib.Tactic.ByContra
import Scaffold.Proofs.Decimal.Bits

/-!
# Equality of numbers

Numbers are equal when they are the same number and not undefined, or when both are zeros
(`beq_iff`): no numbers of different kinds are equal (`compare_ne_of_ctorIdx`), and those of one
kind are when their parts are.  So equality is symmetric and transitive (`beq_symm`, `beq_trans`),
but the undefined number is equal to none, not even to itself.  A finite number is equal to itself,
and to zero exactly when its significand is zero (`beq_self_of_isFinite`, `beq_zero_of_parts`).
-/

namespace Scaffold.Decimal

open Float.Model Float.Model.UnpackedFloat

/-! ## When numbers are equal -/

/-- A zero, whatever its sign. -/
def IsZero (x : UnpackedFloat) : Prop := ∃ s, x = .zero s

/-- Numbers of different kinds are not equal. -/
theorem compare_ne_of_ctorIdx {a b : UnpackedFloat} (h : a.ctorIdx ≠ b.ctorIdx) :
    a.compare b ≠ some .eq := by
  cases a with
  | notANumber => exact nofun
  | infinity s =>
    cases b with
    | infinity s' => exact absurd rfl h
    | _ => cases s <;> exact nofun
  | zero s =>
    cases b with
    | infinity s' => cases s' <;> exact nofun
    | zero s' => exact absurd rfl h
    | finite s' => cases s' <;> exact nofun
    | notANumber => exact nofun
  | finite s =>
    cases b with
    | infinity s' => cases s <;> cases s' <;> exact nofun
    | finite s' => exact absurd rfl h
    | _ => cases s <;> exact nofun

theorem compare_infinity_eq_iff {s s' : Sign} :
    (UnpackedFloat.infinity s).compare (.infinity s') = some .eq ↔ s = s' := by
  cases s <;> cases s'
  · exact iff_of_true rfl rfl
  · exact ⟨nofun, nofun⟩
  · exact ⟨nofun, nofun⟩
  · exact iff_of_true rfl rfl

/-- Finite numbers other than zeros are equal when their parts are. -/
theorem compare_finite_eq_iff {s s' : Sign} {m m' : Nat} {e e' : Int} (hm : 0 < m) (hm' : 0 < m') :
    (UnpackedFloat.finite s m e hm).compare (.finite s' m' e' hm') = some .eq ↔
      s = s' ∧ m = m' ∧ e = e' := by
  cases s <;> cases s'
  · show some ((compare e e').then (compare m m')).swap = some .eq ↔ _
    simp [Ordering.then_eq_eq, and_comm]
  · exact ⟨nofun, nofun⟩
  · exact ⟨nofun, nofun⟩
  · show some ((compare e e').then (compare m m')) = some .eq ↔ _
    simp [Ordering.then_eq_eq, and_comm]

/-- What it takes for two numbers to be equal. -/
theorem unpacked_beq_iff (a b : UnpackedFloat) :
    a.beq b = true ↔ a ≠ .notANumber ∧ (a = b ∨ IsZero a ∧ IsZero b) := by
  show (a.compare b == some .eq) = true ↔ _
  rw [beq_iff_eq]
  by_cases hkind : a.ctorIdx = b.ctorIdx
  · cases a with
    | notANumber => exact iff_of_false nofun fun h => h.1 rfl
    | infinity s =>
      cases b with
      | infinity s' =>
        rw [compare_infinity_eq_iff, UnpackedFloat.infinity.injEq]
        exact ⟨fun h => ⟨UnpackedFloat.noConfusion, .inl h⟩,
          fun h => h.2.resolve_right fun hboth => nomatch hboth.1⟩
      | _ => cases hkind
    | zero s =>
      cases b with
      | zero s' => exact iff_of_true rfl ⟨UnpackedFloat.noConfusion, .inr ⟨⟨s, rfl⟩, s', rfl⟩⟩
      | _ => cases hkind
    | finite s m e hm =>
      cases b with
      | finite s' m' e' hm' =>
        rw [compare_finite_eq_iff, UnpackedFloat.finite.injEq]
        exact ⟨fun h => ⟨UnpackedFloat.noConfusion, .inl h⟩,
          fun h => h.2.resolve_right fun hboth => nomatch hboth.1⟩
      | _ => cases hkind
  · refine iff_of_false (compare_ne_of_ctorIdx hkind) ?_
    rintro ⟨-, rfl | ⟨⟨s, rfl⟩, s', rfl⟩⟩
    · exact hkind rfl
    · exact hkind rfl

theorem beq_eq (x y : Float) : (x == y) = x.toModel.unpack.beq y.toModel.unpack := rfl

theorem beq_iff {x y : Float} :
    (x == y) = true ↔ x.toModel.unpack ≠ .notANumber ∧
      (x.toModel.unpack = y.toModel.unpack ∨ IsZero x.toModel.unpack ∧ IsZero y.toModel.unpack) := by
  rw [beq_eq, unpacked_beq_iff]

theorem IsZero.ne_notANumber {x : UnpackedFloat} (h : IsZero x) : x ≠ .notANumber := by
  obtain ⟨s, rfl⟩ := h
  exact UnpackedFloat.noConfusion

theorem beq_symm {x y : Float} (h : (x == y) = true) : (y == x) = true := by
  obtain ⟨hne, heq | ⟨hx, hy⟩⟩ := beq_iff.1 h
  · exact beq_iff.2 ⟨heq ▸ hne, .inl heq.symm⟩
  · exact beq_iff.2 ⟨hy.ne_notANumber, .inr ⟨hy, hx⟩⟩

theorem beq_trans {x y z : Float} (hxy : (x == y) = true) (hyz : (y == z) = true) :
    (x == z) = true := by
  obtain ⟨hne, heq | ⟨hx, hy⟩⟩ := beq_iff.1 hxy
  · rw [beq_iff, heq]
    exact beq_iff.1 hyz
  · obtain ⟨-, heq | ⟨-, hz⟩⟩ := beq_iff.1 hyz
    · exact beq_iff.2 ⟨hne, .inr ⟨hx, heq ▸ hy⟩⟩
    · exact beq_iff.2 ⟨hne, .inr ⟨hx, hz⟩⟩

/-! ## Finite numbers -/

/-- Zeros are equal, whatever their signs. -/
theorem beq_of_zero {x y : Float} {negative negative' : Bool} {e e' : Int}
    (hx : parts x = .finite negative 0 e) (hy : parts y = .finite negative' 0 e') :
    (x == y) = true := by
  rw [beq_eq, unpack_of_parts hx, unpack_of_parts hy]
  rfl

/-- A finite number is equal to itself. -/
theorem beq_self_of_isFinite {x : Float} (h : isFinite x = true) : (x == x) = true := by
  obtain ⟨negative, m, e, hparts⟩ := exists_parts h
  refine beq_iff.2 ⟨?_, .inl rfl⟩
  rw [unpack_of_parts hparts, unpacked]
  by_cases hm : 0 < m
  · rw [dif_pos hm]
    exact UnpackedFloat.noConfusion
  · rw [dif_neg hm]
    exact UnpackedFloat.noConfusion

/-- A finite number is zero when its significand is. -/
theorem beq_zero_of_parts {x : Float} {negative : Bool} {m : Nat} {e : Int}
    (h : parts x = .finite negative m e) : (x == 0) = decide (m = 0) := by
  have hzero : (0 : Float).toModel.unpack = unpacked false 0 0 := rfl
  rw [beq_eq, unpack_of_parts h, hzero, unpacked]
  by_cases hm : 0 < m
  · have hne : m ≠ 0 := Nat.ne_of_gt hm
    rw [dif_pos hm, decide_eq_false hne]
    cases negative <;> rfl
  · obtain rfl : m = 0 := Nat.eq_zero_of_not_pos hm
    cases negative <;> rfl

/-! ## Numbers that are not finite -/

/-- Bits with the greatest exponent are unpacked as infinity or as the undefined number. -/
theorem not_isZero_unpack {b : BitVec Format.binary64.numBits}
    (h : b.toNat / leastFull % 2048 = 2047) : ¬ IsZero (UnpackedFloat.unpack .binary64 b) := by
  have hexponent : unpackExponent b = -1#_ := by
    rw [← BitVec.toNat_inj, toNat_unpackExponent, h]
    rfl
  rintro ⟨s, hs⟩
  delta UnpackedFloat.unpack at hs
  dsimp only at hs
  rw [if_pos hexponent] at hs
  split at hs <;> cases hs

theorem not_isZero_of_not_finite {x : Float} (h : isFinite x = false) :
    ¬ IsZero x.toModel.unpack := by
  refine not_isZero_unpack ?_
  show x.toBits.toNat / leastFull % 2048 = 2047
  by_contra hfinite
  have hbiased : (x.toBits.toNat / leastFull % 2048 == 2047) = false := by simpa using hfinite
  rw [isFinite, parts, Parts.ofBits] at h
  simp only [hbiased, Bool.false_eq_true, if_false] at h
  split at h
  · cases h
  · next hparts => split at hparts <;> exact hparts _ _ _ rfl

/-- A number that is not finite is not zero. -/
theorem beq_zero_of_not_finite {x : Float} (h : isFinite x = false) : (x == 0) = false := by
  rw [Bool.eq_false_iff, ne_eq, beq_iff]
  have hzero : IsZero (0 : Float).toModel.unpack := ⟨.positive, rfl⟩
  rintro ⟨-, heq | ⟨hx, -⟩⟩
  · exact not_isZero_of_not_finite h (heq ▸ hzero)
  · exact not_isZero_of_not_finite h hx

end Scaffold.Decimal
