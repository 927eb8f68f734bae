import Mathlib.Tactic.Linarith
import Mathlib.Tactic.Positivity
import Mathlib.Tactic.Ring
import Scaffold.Proofs.Decimal.Bits

/-!
# Rounding to binary numbers

Ratios are compared as rationals (`Ratio.toRat`).  The rationals that round to `m · 2 ^ q` are those
of `Rounds m q`: half a step of the format to either side, a quarter below the least significand
with all its digits, and the ends only when the significand is even.  Every ratio in that interval
is rounded to the bits of `m · 2 ^ q` (`Ratio.toBits_eq`), and so is the decimal `d · 10 ^ k`
(`ofDigits_eq`).
-/

namespace Scaffold.Decimal

/-! ## Ratios as rationals -/

namespace Ratio

/-- The rational number of a ratio. -/
def toRat (r : Ratio) : ℚ := r.num / r.den

theorem toRat_shift (r : Ratio) (k : Int) : (r.shift k).toRat = r.toRat / 10 ^ k := by
  rw [shift]
  split
  · next h =>
    obtain ⟨n, rfl⟩ := Int.eq_ofNat_of_zero_le h
    simp [toRat, div_div]
  · next h =>
    obtain ⟨n, rfl⟩ : ∃ n : ℕ, k = -n := ⟨(-k).toNat, by omega⟩
    simp [toRat, mul_div_right_comm]

theorem toRat_shiftBinary (r : Ratio) (e : Int) : (r.shiftBinary e).toRat = r.toRat / 2 ^ e := by
  rw [shiftBinary]
  split
  · next h =>
    obtain ⟨n, rfl⟩ := Int.eq_ofNat_of_zero_le h
    simp [toRat, div_div]
  · next h =>
    obtain ⟨n, rfl⟩ : ∃ n : ℕ, e = -n := ⟨(-e).toNat, by omega⟩
    simp [toRat, mul_div_right_comm]

theorem toRat_ofBinary (n : ℕ) (e : Int) : (ofBinary n e).toRat = n * 2 ^ e := by
  rw [ofBinary]
  split
  · next h =>
    obtain ⟨k, rfl⟩ := Int.eq_ofNat_of_zero_le h
    simp [toRat]
  · next h =>
    obtain ⟨k, rfl⟩ : ∃ k : ℕ, e = -k := ⟨(-e).toNat, by omega⟩
    simp [toRat, div_eq_mul_inv]

theorem den_shift_pos {r : Ratio} (h : 0 < r.den) (k : Int) : 0 < (r.shift k).den := by
  rw [shift]
  split
  · exact Nat.mul_pos h (Nat.pow_pos (by decide))
  · exact h

theorem den_shiftBinary_pos {r : Ratio} (h : 0 < r.den) (e : Int) : 0 < (r.shiftBinary e).den := by
  rw [shiftBinary]
  split
  · exact Nat.mul_pos h (Nat.pow_pos (by decide))
  · exact h

theorem den_ofBinary_pos (n : ℕ) (e : Int) : 0 < (ofBinary n e).den := by
  rw [ofBinary]
  split
  · exact Nat.one_pos
  · exact Nat.pow_pos (by decide)

section

variable {r : Ratio} (h : 0 < r.den)
include h

theorem le_toRat_iff (n : ℕ) : (n : ℚ) ≤ r.toRat ↔ n * r.den ≤ r.num := by
  rw [toRat, le_div_iff₀ (by exact_mod_cast h)]
  exact_mod_cast Iff.rfl

theorem toRat_le_iff (n : ℕ) : r.toRat ≤ n ↔ r.num ≤ n * r.den := by
  rw [toRat, div_le_iff₀ (by exact_mod_cast h)]
  exact_mod_cast Iff.rfl

theorem lt_toRat_iff (n : ℕ) : (n : ℚ) < r.toRat ↔ n * r.den < r.num := by
  rw [← not_le, toRat_le_iff h, Nat.not_le]

theorem toRat_lt_iff (n : ℕ) : r.toRat < n ↔ r.num < n * r.den := by
  rw [← not_le, le_toRat_iff h, Nat.not_le]

/-- A ratio is its integral part and the remainder. -/
theorem toRat_eq : r.toRat = (r.num / r.den : ℕ) + (r.num % r.den : ℕ) / r.den := by
  have hden : (r.den : ℚ) ≠ 0 := by exact_mod_cast Nat.ne_of_gt h
  rw [toRat, div_eq_iff hden, add_mul, div_mul_cancel₀ _ hden]
  exact_mod_cast (Nat.div_add_mod' r.num r.den).symm

/-- A ratio is rounded to the integer that it is nearest to, from the middle to an even one. -/
theorem round_eq {n : ℕ} (hlow : (n : ℚ) - 1 / 2 ≤ r.toRat) (hhigh : r.toRat ≤ n + 1 / 2)
    (htie : n % 2 = 0 ∨ ((n : ℚ) - 1 / 2 < r.toRat ∧ r.toRat < n + 1 / 2)) : r.round = n := by
  have hden : (0 : ℚ) < r.den := by exact_mod_cast h
  have hlt : ((2 * (r.num % r.den) : ℕ) : ℚ) < r.den ↔
      ((r.num % r.den : ℕ) : ℚ) / r.den < 1 / 2 := by
    rw [div_lt_iff₀ hden]
    push_cast
    constructor <;> intro <;> linarith
  have hgt : (r.den : ℚ) < (2 * (r.num % r.den) : ℕ) ↔
      1 / 2 < ((r.num % r.den : ℕ) : ℚ) / r.den := by
    rw [lt_div_iff₀ hden]
    push_cast
    constructor <;> intro <;> linarith
  have hbelow : ((r.num % r.den : ℕ) : ℚ) / r.den < 1 :=
    (div_lt_one hden).2 (by exact_mod_cast Nat.mod_lt _ h)
  have habove : (0 : ℚ) ≤ ((r.num % r.den : ℕ) : ℚ) / r.den := by positivity
  rw [Nat.cast_lt] at hlt hgt
  rw [toRat_eq h] at hlow hhigh htie
  rw [round]
  simp only [hlt, hgt]
  generalize ((r.num % r.den : ℕ) : ℚ) / r.den = f at *
  generalize r.num / r.den = d at *
  have hle (a b : ℕ) (hab : (a : ℚ) < b + 1) : a ≤ b := by
    have : a < b + 1 := by exact_mod_cast hab
    omega
  split
  · next hf => exact Nat.le_antisymm (hle _ _ (by linarith)) (hle _ _ (by linarith))
  split
  · next hf =>
    refine Nat.le_antisymm (hle _ _ ?_) (hle _ _ ?_) <;> push_cast <;> linarith
  · obtain rfl : f = 1 / 2 := by linarith
    have hnear : d ≤ n ∧ n ≤ d + 1 := by
      refine ⟨hle _ _ (by linarith), hle _ _ ?_⟩
      push_cast
      linarith
    have htie' : n % 2 = 0 := by
      refine htie.resolve_right fun ⟨hl, hu⟩ => ?_
      have hn : n < d + 1 := by
        have : (n : ℚ) < (d + 1 : ℕ) := by push_cast; linarith
        exact_mod_cast this
      have hd : d < n := by
        have : (d : ℚ) < n := by linarith
        exact_mod_cast this
      omega
    split <;> simp_all <;> omega

end

/-! ## The exponent of a ratio -/

/-- The exponent at which a ratio is rounded. -/
def binade (r : Ratio) : Int :=
  let estimate := max ((r.num.log2 : Int) - r.den.log2 - 52) (-1074)
  let scaled := r.shiftBinary estimate
  if scaled.num / scaled.den < leastFull then max (estimate - 1) (-1074) else estimate

/-- The exponent `e` at which `v` has 53 digits before the point, or the least one. -/
structure IsBinade (v : ℚ) (e : Int) : Prop where
  least : -1074 ≤ e
  lt : v < 2 ^ (e + 53)
  full : (2 : ℚ) ^ (e + 52) ≤ v ∨ e = -1074

theorem IsBinade.unique {v : ℚ} {e e' : Int} (h : IsBinade v e) (h' : IsBinade v e') : e = e' := by
  have hle {a b : Int} (ha : IsBinade v a) (hb : IsBinade v b) : a ≤ b := by
    obtain hfull | hleast := ha.full
    · have hpow : (2 : ℚ) ^ (a + 52) < 2 ^ (b + 53) := hfull.trans_lt hb.lt
      have := (zpow_lt_zpow_iff_right₀ (by norm_num : (1 : ℚ) < 2)).1 hpow
      omega
    · exact hleast.trans_le hb.least
  exact le_antisymm (hle h h') (hle h' h)

section

variable {r : Ratio} (hnum : 0 < r.num) (hden : 0 < r.den)
include hnum hden

/-- The binary logarithms of numerator and denominator give that of the ratio but for one. -/
theorem toRat_log2 : (2 : ℚ) ^ ((r.num.log2 : Int) - r.den.log2 - 1) < r.toRat ∧
    r.toRat < 2 ^ ((r.num.log2 : Int) - r.den.log2 + 1) := by
  have hdenQ : (0 : ℚ) < r.den := by exact_mod_cast hden
  have hnumLow : (2 : ℚ) ^ (r.num.log2 : Int) ≤ r.num := by
    exact_mod_cast Nat.log2_self_le (Nat.ne_of_gt hnum)
  have hnumHigh : (r.num : ℚ) < 2 ^ ((r.num.log2 : Int) + 1) := by
    exact_mod_cast Nat.lt_log2_self
  have hdenLow : (2 : ℚ) ^ (r.den.log2 : Int) ≤ r.den := by
    exact_mod_cast Nat.log2_self_le (Nat.ne_of_gt hden)
  have hdenHigh : (r.den : ℚ) < 2 ^ ((r.den.log2 : Int) + 1) := by
    exact_mod_cast Nat.lt_log2_self
  have hpow (e : Int) : (0 : ℚ) < 2 ^ e := zpow_pos (by norm_num) e
  constructor
  · rw [toRat, lt_div_iff₀ hdenQ]
    calc (2 : ℚ) ^ ((r.num.log2 : Int) - r.den.log2 - 1) * r.den
        < 2 ^ ((r.num.log2 : Int) - r.den.log2 - 1) * 2 ^ ((r.den.log2 : Int) + 1) :=
          mul_lt_mul_of_pos_left hdenHigh (hpow _)
      _ = 2 ^ (r.num.log2 : Int) := by rw [← zpow_add₀ (by norm_num)]; congr 1; ring
      _ ≤ r.num := hnumLow
  · rw [toRat, div_lt_iff₀ hdenQ]
    calc (r.num : ℚ) < 2 ^ ((r.num.log2 : Int) + 1) := hnumHigh
      _ = 2 ^ ((r.num.log2 : Int) - r.den.log2 + 1) * 2 ^ (r.den.log2 : Int) := by
          rw [← zpow_add₀ (by norm_num)]; congr 1; ring
      _ ≤ 2 ^ ((r.num.log2 : Int) - r.den.log2 + 1) * r.den :=
          mul_le_mul_of_nonneg_left hdenLow (hpow _).le

theorem isBinade_binade : IsBinade r.toRat r.binade := by
  obtain ⟨hlow, hhigh⟩ := toRat_log2 hnum hden
  have hmono {a b : Int} (hab : a ≤ b) : (2 : ℚ) ^ a ≤ 2 ^ b :=
    zpow_le_zpow_right₀ (by norm_num) hab
  generalize hestimate : max ((r.num.log2 : Int) - r.den.log2 - 52) (-1074) = e
  have hpos : (0 : ℚ) < 2 ^ e := zpow_pos (by norm_num) e
  have hfloor : (r.shiftBinary e).num / (r.shiftBinary e).den < leastFull ↔
      r.toRat < 2 ^ (e + 52) := by
    rw [Nat.div_lt_iff_lt_mul (den_shiftBinary_pos hden e),
      ← toRat_lt_iff (den_shiftBinary_pos hden e), toRat_shiftBinary, div_lt_iff₀ hpos,
      zpow_add₀ (by norm_num), mul_comm, leastFull_eq]
    norm_num
  have hbinade : r.binade = if r.toRat < 2 ^ (e + 52) then max (e - 1) (-1074) else e := by
    rw [binade]
    simp only [hestimate, hfloor]
  rw [hbinade]
  split
  · next hsmall =>
    refine ⟨le_max_right _ _, hsmall.trans_le (hmono ?_), ?_⟩
    · omega
    · by_cases hleast : e = -1074
      · exact .inr (by omega)
      · exact .inl ((hmono (by omega)).trans hlow.le)
  · next hlarge =>
    exact ⟨by omega, hhigh.trans_le (hmono (by omega)), .inl (not_lt.1 hlarge)⟩

end

end Ratio

/-! ## The rationals that round to a number -/

/-- The numbers of the format below `m · 2 ^ q` lie twice as dense. -/
def isNarrow (m : ℕ) (q : Int) : Bool := m == leastFull && -1074 < q

/-- The least rational of the interval of `m · 2 ^ q`. -/
def lowEnd (m : ℕ) (q : Int) : ℚ := (m - if isNarrow m q then 1 / 4 else 1 / 2) * 2 ^ q

/-- The greatest rational of the interval of `m · 2 ^ q`. -/
def highEnd (m : ℕ) (q : Int) : ℚ := (m + 1 / 2) * 2 ^ q

/-- A rational that is rounded to `m · 2 ^ q`: the ends of the interval are when `m` is even. -/
structure Rounds (m : ℕ) (q : Int) (v : ℚ) : Prop where
  low : lowEnd m q ≤ v
  high : v ≤ highEnd m q
  tie : m % 2 = 0 ∨ (lowEnd m q < v ∧ v < highEnd m q)

section

variable {m : ℕ} {q : Int} {v : ℚ}

theorem lowEnd_pos (hm : 0 < m) : 0 < lowEnd m q := by
  have hone : (1 : ℚ) ≤ m := by exact_mod_cast hm
  refine mul_pos ?_ (zpow_pos (by norm_num) q)
  split <;> linarith

theorem Rounds.pos (hm : 0 < m) (h : Rounds m q v) : 0 < v := (lowEnd_pos hm).trans_le h.low

theorem half_le_lowEnd : ((m : ℚ) - 1 / 2) * 2 ^ q ≤ lowEnd m q := by
  refine mul_le_mul_of_nonneg_right ?_ (zpow_pos (by norm_num) q).le
  split <;> linarith

theorem two_zpow_add (q : Int) (n : ℕ) : (2 : ℚ) ^ (q + n) = 2 ^ n * 2 ^ q := by
  rw [zpow_add₀ (by norm_num), zpow_natCast, mul_comm]

theorem two_zpow_half (q : Int) : (2 : ℚ) ^ q = 2 * 2 ^ (q - 1) := by
  have hstep := two_zpow_add (q - 1) 1
  rw [show q - 1 + (1 : ℕ) = q by omega] at hstep
  rw [hstep]
  norm_num

theorem two_zpow_quarter (q : Int) : (2 : ℚ) ^ q = 4 * 2 ^ (q - 2) := by
  have hstep := two_zpow_add (q - 2) 2
  rw [show q - 2 + (2 : ℕ) = q by omega] at hstep
  rw [hstep]
  norm_num

/-- A rational that rounds to a number has its exponent, or it lies right below the numbers of that
exponent. -/
theorem Rounds.binade (hc : IsCanonical m q) (h : Rounds m q v) :
    Ratio.IsBinade v q ∨ (m = leastFull ∧ Ratio.IsBinade v (q - 1) ∧
      ((2 : ℚ) ^ 53 - 1 / 2) * 2 ^ (q - 1) ≤ v ∧ v < 2 ^ 53 * 2 ^ (q - 1)) := by
  have hpos : (0 : ℚ) < 2 ^ q := zpow_pos (by norm_num) q
  have hlt : (m : ℚ) + 1 ≤ 2 ^ 53 := by
    have := hc.lt
    rw [leastFull_eq] at this
    exact_mod_cast this
  have hupper : v < 2 ^ (q + 53) := by
    have hhigh := h.high
    rw [highEnd] at hhigh
    rw [show q + 53 = q + (53 : ℕ) from rfl, two_zpow_add]
    nlinarith
  by_cases hfull : (2 : ℚ) ^ (q + 52) ≤ v ∨ q = -1074
  · exact .inl ⟨hc.least, hupper, hfull⟩
  · refine .inr ?_
    obtain ⟨hsmall, hq⟩ := not_or.1 hfull
    rw [not_le] at hsmall
    have hleast := hc.least
    have hstep : (2 : ℚ) ^ q = 2 * 2 ^ (q - 1) := two_zpow_half q
    have hprev : (0 : ℚ) < 2 ^ (q - 1) := zpow_pos (by norm_num) _
    have hbelow : v < 2 ^ 53 * 2 ^ (q - 1) := by
      rw [show q + 52 = q + (52 : ℕ) from rfl, two_zpow_add, hstep] at hsmall
      linarith
    have hm : m = leastFull := by
      refine le_antisymm ?_ (hc.full.resolve_right hq)
      by_contra hgt
      have hge : (2 : ℚ) ^ 52 + 1 ≤ m := by
        rw [leastFull_eq] at hgt
        exact_mod_cast not_le.1 hgt
      have hlow := half_le_lowEnd.trans h.low
      nlinarith
    have hlow : ((2 : ℚ) ^ 53 - 1 / 2) * 2 ^ (q - 1) ≤ v := by
      have hnarrow : isNarrow m q = true := by
        simp only [isNarrow, hm, beq_self_eq_true, Bool.true_and, decide_eq_true_eq]
        omega
      have hend := h.low
      rw [lowEnd, hnarrow, if_pos rfl, hm, leastFull_eq, hstep] at hend
      push_cast at hend
      linarith
    refine ⟨hm, ⟨by omega, ?_, .inl ?_⟩, hlow, hbelow⟩
    · rw [show q - 1 + 53 = q - 1 + (53 : ℕ) from rfl, two_zpow_add]
      exact hbelow
    · rw [show q - 1 + 52 = q - 1 + (52 : ℕ) from rfl, two_zpow_add]
      linarith

end

/-- A ratio is rounded to the multiple of a power of two that is nearest to it, or to the even one of
two. -/
theorem Ratio.round_shiftBinary_eq {r : Ratio} (hden : 0 < r.den) {e : Int} {n : ℕ}
    (hlow : ((n : ℚ) - 1 / 2) * 2 ^ e ≤ r.toRat) (hhigh : r.toRat ≤ (n + 1 / 2) * 2 ^ e)
    (htie : n % 2 = 0 ∨ ((n - 1 / 2) * 2 ^ e < r.toRat ∧ r.toRat < (n + 1 / 2) * 2 ^ e)) :
    (r.shiftBinary e).round = n := by
  have hpos : (0 : ℚ) < 2 ^ e := zpow_pos (by norm_num) e
  refine round_eq (den_shiftBinary_pos hden e) ?_ ?_ ?_ <;>
    simp only [toRat_shiftBinary, le_div_iff₀ hpos, div_le_iff₀ hpos, lt_div_iff₀ hpos,
      div_lt_iff₀ hpos]
  · exact hlow
  · exact hhigh
  · exact htie

/-- A ratio that rounds to a number gets the bits of the number. -/
theorem Ratio.toBits_eq {m : ℕ} {q : Int} (hc : IsCanonical m q) {r : Ratio} (hnum : 0 < r.num)
    (hden : 0 < r.den) (h : Rounds m q r.toRat) : r.toBits = magnitudeBits m q := by
  have hunfold : r.toBits =
      min (if (r.shiftBinary r.binade).round < leastFull then (r.shiftBinary r.binade).round
        else (r.binade + 1074).toNat * leastFull + (r.shiftBinary r.binade).round) infiniteBits := rfl
  have hinfinite := hc.magnitudeBits_lt
  obtain hbinade | ⟨rfl, hbinade, hlow, hbelow⟩ := h.binade hc
  · have hexponent : r.binade = q := (isBinade_binade hnum hden).unique hbinade
    have hsignificand : (r.shiftBinary q).round = m :=
      round_shiftBinary_eq hden (half_le_lowEnd.trans h.low) h.high
        (h.tie.imp_right fun ⟨hl, hu⟩ => ⟨half_le_lowEnd.trans_lt hl, hu⟩)
    rw [hunfold, hexponent, hsignificand]
    exact min_eq_left hinfinite.le
  · have hexponent : r.binade = q - 1 := (isBinade_binade hnum hden).unique hbinade
    have hsignificand : (r.shiftBinary (q - 1)).round = 2 * leastFull := by
      have hpos : (0 : ℚ) < 2 ^ (q - 1) := zpow_pos (by norm_num) _
      refine round_shiftBinary_eq hden ?_ ?_ (.inl (by decide))
      · rw [leastFull_eq]
        push_cast
        linarith
      · rw [leastFull_eq]
        push_cast
        linarith
    have hleast := hbinade.least
    have hbits : magnitudeBits leastFull q = (q + 1074).toNat * leastFull + leastFull :=
      if_neg (lt_irrefl _)
    have hcarry : (q - 1 + 1074).toNat * leastFull + 2 * leastFull =
        (q + 1074).toNat * leastFull + leastFull := by
      obtain ⟨n, hn⟩ : ∃ n : ℕ, q + 1074 = n + 1 := ⟨(q + 1073).toNat, by omega⟩
      have hprev : q - 1 + 1074 = n := by omega
      rw [hn, hprev]
      simp only [Int.toNat_natCast, Int.toNat_natCast_add_one]
      ring
    rw [hunfold, hexponent, hsignificand, if_neg (by decide), hcarry, ← hbits]
    exact min_eq_left hinfinite.le

/-! ## Decimals -/

/-- The number of digits of a number, as powers of ten around it. -/
theorem length_toDigits_bounds {d : ℕ} (hd : 0 < d) :
    (10 : ℚ) ^ (((Nat.toDigits 10 d).length : Int) - 1) ≤ d ∧
      (d : ℚ) < 10 ^ ((Nat.toDigits 10 d).length : Int) := by
  have hlength : 0 < (Nat.toDigits 10 d).length := Nat.length_toDigits_pos
  have hbelow := (Nat.length_toDigits_le_iff (b := 10) (by decide) hlength).1 (le_refl _)
  have habove : 10 ^ ((Nat.toDigits 10 d).length - 1) ≤ d := by
    by_cases hone : (Nat.toDigits 10 d).length = 1
    · rw [hone]
      exact hd
    · have hpred : 0 < (Nat.toDigits 10 d).length - 1 := by omega
      have := (Nat.length_toDigits_le_iff (b := 10) (n := d) (by decide) hpred).not.1 (by omega)
      exact not_lt.1 this
  constructor
  · rw [← Int.natCast_pred_of_pos hlength, zpow_natCast]
    exact_mod_cast habove
  · rw [zpow_natCast]
    exact_mod_cast hbelow

/-- The rationals that round to a number are within the range of the format. -/
theorem Rounds.range {m : ℕ} {q : Int} {v : ℚ} (hc : IsCanonical m q) (hm : 0 < m)
    (h : Rounds m q v) : (10 : ℚ) ^ (-324 : Int) < v ∧ v < 10 ^ (309 : Int) := by
  constructor
  · have hone : (1 : ℚ) ≤ m := by exact_mod_cast hm
    have hpow : 2 * 2 ^ 1074 < 10 ^ 324 := by decide +kernel
    have hleast : (10 : ℚ) ^ (-324 : Int) < 1 / 2 * 2 ^ (-1074 : Int) := by
      have hinv : (2 * 2 ^ 1074 : ℚ) < 10 ^ 324 := by exact_mod_cast hpow
      have := one_div_lt_one_div_of_lt (by positivity) hinv
      rwa [one_div, one_div, mul_inv, ← zpow_natCast, ← zpow_natCast, ← zpow_neg, ← zpow_neg,
        ← one_div] at this
    calc (10 : ℚ) ^ (-324 : Int) < 1 / 2 * 2 ^ (-1074 : Int) := hleast
      _ ≤ 1 / 2 * 2 ^ q :=
          mul_le_mul_of_nonneg_left (zpow_le_zpow_right₀ (by norm_num) hc.least) (by norm_num)
      _ ≤ (m - 1 / 2) * 2 ^ q :=
          mul_le_mul_of_nonneg_right (by linarith) (zpow_pos (by norm_num) q).le
      _ ≤ v := half_le_lowEnd.trans h.low
  · have hbinade : ∃ e : Int, e ≤ 971 ∧ Ratio.IsBinade v e := by
      obtain he | ⟨-, he, -⟩ := h.binade hc
      · exact ⟨q, hc.most, he⟩
      · exact ⟨q - 1, by have := hc.most; omega, he⟩
    obtain ⟨e, he, hv⟩ := hbinade
    have hpow : 2 ^ 1024 < 10 ^ 309 := by decide +kernel
    calc v < 2 ^ (e + 53) := hv.lt
      _ ≤ 2 ^ (1024 : Int) := zpow_le_zpow_right₀ (by norm_num) (by omega)
      _ < 10 ^ (309 : Int) := by exact_mod_cast hpow

/-- A decimal that rounds to a number is read as the number. -/
theorem ofDigits_eq {m : ℕ} {q : Int} (hc : IsCanonical m q) (hm : 0 < m) {d : ℕ} {k : Int}
    (h : Rounds m q (d * 10 ^ k)) :
    ofDigits d k = Float.ofBits (UInt64.ofNat (finiteBits false m q)) := by
  have hten : (0 : ℚ) < 10 ^ k := zpow_pos (by norm_num) k
  have hd : 0 < d := by
    have := (pos_iff_pos_of_mul_pos (h.pos hm)).2 hten
    exact_mod_cast this
  obtain ⟨hlow, hhigh⟩ := length_toDigits_bounds hd
  obtain ⟨hleast, hmost⟩ := h.range hc hm
  have hmagnitude : -330 ≤ ((Nat.toDigits 10 d).length + k : Int) ∧
      ((Nat.toDigits 10 d).length + k : Int) ≤ 311 := by
    have hlt {a b : Int} (hab : (10 : ℚ) ^ a < 10 ^ b) : a < b :=
      (zpow_lt_zpow_iff_right₀ (by norm_num)).1 hab
    constructor
    · have : (-324 : Int) < (Nat.toDigits 10 d).length + k := by
        refine hlt (hleast.trans ?_)
        rw [zpow_add₀ (by norm_num)]
        exact mul_lt_mul_of_pos_right hhigh hten
      omega
    · have : ((Nat.toDigits 10 d).length : Int) - 1 + k < 309 := by
        refine hlt (lt_of_le_of_lt ?_ hmost)
        rw [zpow_add₀ (by norm_num)]
        exact mul_le_mul_of_nonneg_right hlow hten.le
      omega
  have hratio : ((⟨d, 1⟩ : Ratio).shift (-k)).toRat = d * 10 ^ k := by
    rw [Ratio.toRat_shift]
    simp [Ratio.toRat]
  have hden : 0 < ((⟨d, 1⟩ : Ratio).shift (-k)).den := Ratio.den_shift_pos Nat.one_pos _
  have hnum : 0 < ((⟨d, 1⟩ : Ratio).shift (-k)).num := by
    have hpos := h.pos hm
    rw [← hratio, show (0 : ℚ) = (0 : ℕ) from Nat.cast_zero.symm, Ratio.lt_toRat_iff hden,
      Nat.zero_mul] at hpos
    exact hpos
  have hguard : (d == 0 || decide (((Nat.toDigits 10 d).length + k : Int) < -330)) = false := by
    simp only [Bool.or_eq_false_iff, beq_eq_false_iff_ne, decide_eq_false_iff_not]
    omega
  rw [ofDigits]
  simp only [hguard, Bool.false_eq_true, if_false, if_neg (not_lt.2 hmagnitude.2)]
  rw [Ratio.toBits_eq hc hnum hden (by rwa [hratio]), finiteBits, if_neg Bool.false_ne_true,
    Nat.zero_add]

end Scaffold.Decimal
