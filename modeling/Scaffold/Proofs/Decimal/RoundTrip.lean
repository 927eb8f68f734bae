import Scaffold.Proofs.Decimal.Equality
import Scaffold.Proofs.Decimal.Rounding
import Scaffold.Proofs.Decimal.Text

/-!
# Numbers that are written and read

The search for the shortest decimal of a number ends in a decimal that rounds to the number
(`rounds_shortest`), so the text of a finite number is read as a number equal to it
(`read?_scriptText`).  Only the sign of zero is lost.
-/

namespace Scaffold.Decimal

/-! ## The search for a decimal -/

section

variable {m : ℕ} (hm : 0 < m) (q : Int)
include hm

/-! The interval of a number in units of `10 ^ k`. -/

theorem toRat_low_shift (k : Int) :
    ((Interval.ofBinary m q (isNarrow m q)).shift k).low.toRat = lowEnd m q / 10 ^ k := by
  rw [Interval.shift, Interval.ofBinary]
  simp only
  rw [Ratio.toRat_shift, Ratio.toRat_ofBinary, lowEnd, two_zpow_quarter q]
  cases isNarrow m q with
  | true =>
    rw [if_pos rfl, if_pos rfl, Nat.cast_sub (by omega)]
    push_cast
    ring
  | false =>
    rw [if_neg Bool.false_ne_true, if_neg Bool.false_ne_true, Nat.cast_sub (by omega)]
    push_cast
    ring

omit hm in
theorem toRat_high_shift (k : Int) :
    ((Interval.ofBinary m q (isNarrow m q)).shift k).high.toRat = highEnd m q / 10 ^ k := by
  rw [Interval.shift, Interval.ofBinary]
  simp only
  rw [Ratio.toRat_shift, Ratio.toRat_ofBinary, highEnd, two_zpow_quarter q]
  push_cast
  ring

omit hm in
theorem toRat_value_shift (k : Int) :
    ((Interval.ofBinary m q (isNarrow m q)).shift k).value.toRat = m * 2 ^ q / 10 ^ k := by
  rw [Interval.shift, Interval.ofBinary]
  simp only
  rw [Ratio.toRat_shift, Ratio.toRat_ofBinary, two_zpow_quarter q]
  push_cast
  ring

/-- The integers of an interval that is measured in units of `10 ^ k` are those whose decimal rounds
to the number. -/
theorem holds_iff (k : Int) (d : ℕ) :
    ((Interval.ofBinary m q (isNarrow m q)).shift k).holds d = true ↔ Rounds m q (d * 10 ^ k) := by
  have hten : (0 : ℚ) < 10 ^ k := zpow_pos (by norm_num) k
  have hlow := toRat_low_shift hm q k
  have hhigh := toRat_high_shift (m := m) q k
  have hlowDen : 0 < ((Interval.ofBinary m q (isNarrow m q)).shift k).low.den :=
    Ratio.den_shift_pos (Ratio.den_ofBinary_pos _ _) k
  have hhighDen : 0 < ((Interval.ofBinary m q (isNarrow m q)).shift k).high.den :=
    Ratio.den_shift_pos (Ratio.den_ofBinary_pos _ _) k
  have hclosed : ((Interval.ofBinary m q (isNarrow m q)).shift k).closed = (m % 2 == 0) := rfl
  rw [Interval.holds, hclosed]
  by_cases heven : m % 2 = 0
  · rw [if_pos (by simpa using heven), Bool.and_eq_true, decide_eq_true_eq, decide_eq_true_eq,
      ← Ratio.toRat_le_iff hlowDen, ← Ratio.le_toRat_iff hhighDen, hlow, hhigh, div_le_iff₀ hten,
      le_div_iff₀ hten]
    exact ⟨fun h => ⟨h.1, h.2, .inl heven⟩, fun h => ⟨h.low, h.high⟩⟩
  · rw [if_neg (by simpa using heven), Bool.and_eq_true, decide_eq_true_eq, decide_eq_true_eq,
      ← Ratio.toRat_lt_iff hlowDen, ← Ratio.lt_toRat_iff hhighDen, hlow, hhigh, div_lt_iff₀ hten,
      lt_div_iff₀ hten]
    exact ⟨fun h => ⟨h.1.le, h.2.le, .inr h⟩, fun h => h.tie.resolve_left heven⟩

omit hm q in
theorem Interval.holds_of_nearest? {i : Interval} {tie : Tie} {d : ℕ}
    (h : i.nearest? tie = some d) : i.holds d = true := by
  unfold nearest? at h
  simp only at h
  split at h
  · cases h
  · next hd _ =>
    cases h
    exact hd
  · next hd =>
    cases h
    exact hd
  · next hd hd' =>
    split at h
    · cases h
      exact hd
    split at h
    · cases h
      exact hd'
    cases tie
    · cases h
      exact hd'
    · simp only [Option.some.injEq] at h
      split at h <;> subst h
      · exact hd
      · exact hd'

/-- On a grid finer than half a step of the format the search hits. -/
theorem nearest?_ne_none (tie : Tie) {k : Int} (hk : (10 : ℚ) ^ k < 2 ^ (q - 1)) :
    ((Interval.ofBinary m q (isNarrow m q)).shift k).nearest? tie ≠ none := by
  have hten : (0 : ℚ) < 10 ^ k := zpow_pos (by norm_num) k
  generalize hi : (Interval.ofBinary m q (isNarrow m q)).shift k = i
  have hden : 0 < i.value.den := by
    rw [← hi]
    exact Ratio.den_shift_pos (Ratio.den_ofBinary_pos _ _) k
  have hvalue : i.value.toRat = m * 2 ^ q / 10 ^ k := by
    rw [← hi, toRat_value_shift]
  have hbelow : (m : ℚ) * 2 ^ q < (i.value.num / i.value.den + 1 : ℕ) * 10 ^ k := by
    rw [← div_lt_iff₀ hten, ← hvalue, Ratio.toRat_lt_iff hden, Nat.add_mul, Nat.one_mul]
    exact Nat.lt_div_mul_add hden
  have habove : ((i.value.num / i.value.den + 1 : ℕ) : ℚ) * 10 ^ k < (m + 1 / 2) * 2 ^ q := by
    have hfloor : ((i.value.num / i.value.den : ℕ) : ℚ) * 10 ^ k ≤ m * 2 ^ q := by
      rw [← le_div_iff₀ hten, ← hvalue, Ratio.le_toRat_iff hden]
      exact Nat.div_mul_le_self _ _
    push_cast at hfloor ⊢
    rw [two_zpow_half] at hfloor ⊢
    linarith
  have hlow : lowEnd m q < m * 2 ^ q := by
    refine mul_lt_mul_of_pos_right ?_ (zpow_pos (by norm_num) q)
    split <;> linarith
  have hholds : i.holds (i.value.num / i.value.den + 1) = true := by
    rw [← hi, holds_iff hm, hi]
    exact ⟨(hlow.trans hbelow).le, habove.le, .inr ⟨hlow.trans hbelow, habove⟩⟩
  unfold Interval.nearest?
  simp only [hholds]
  cases i.holds (i.value.num / i.value.den) with
  | false => simp
  | true =>
    simp only
    split
    · simp
    split
    · simp
    cases tie <;> simp

/-- A search that reaches a fine grid ends in a decimal that rounds to the number. -/
theorem rounds_search (tie : Tie) (fuel : ℕ) (k : Int) (hk : (10 : ℚ) ^ (k - fuel) < 2 ^ (q - 1)) :
    Rounds m q
      (((Interval.ofBinary m q (isNarrow m q)).search tie (fuel + 1) k).1 *
        10 ^ ((Interval.ofBinary m q (isNarrow m q)).search tie (fuel + 1) k).2) := by
  induction fuel generalizing k with
  | zero =>
    rw [Interval.search]
    split
    · next d hd => exact (holds_iff hm q k d).1 (Interval.holds_of_nearest? hd)
    · next hnone => exact absurd hnone (nearest?_ne_none hm q tie (by simpa using hk))
  | succ fuel ih =>
    rw [Interval.search]
    split
    · next d hd => exact (holds_iff hm q k d).1 (Interval.holds_of_nearest? hd)
    · refine ih (k - 1) ?_
      rwa [show k - 1 - (fuel : Int) = k - (fuel + 1 : ℕ) by push_cast; ring]

end

/-- The logarithm of ten lies between 93/28 and 10/3, which is enough for the numbers of the
format. -/
theorem ten_zpow_lt {k q : Int} (hleast : -1074 ≤ q) (hmost : q ≤ 971)
    (h : 100000 * (k + 22) ≤ (q + 53) * 30103) : (10 : ℚ) ^ k < 2 ^ (q - 1) := by
  have hthree (n : ℕ) : (10 : ℚ) ^ (3 * n : Int) ≤ 2 ^ (10 * n : Int) := by
    rw [zpow_mul, zpow_mul, zpow_natCast, zpow_natCast]
    exact pow_le_pow_left₀ (by norm_num) (by norm_num) n
  have hmany (n : ℕ) : (10 : ℚ) ^ (-28 * n : Int) ≤ 2 ^ (-93 * n : Int) := by
    rw [zpow_mul, zpow_mul, zpow_natCast, zpow_natCast]
    exact pow_le_pow_left₀ (by norm_num) (by norm_num) n
  have hmono {a b : Int} (hab : a ≤ b) : (10 : ℚ) ^ a ≤ 10 ^ b :=
    zpow_le_zpow_right₀ (by norm_num) hab
  -- a power is bounded by one with an exponent that three or twenty-eight divides
  obtain ⟨a, b, hk, hq⟩ : ∃ a b : ℕ, k ≤ 3 * a + -28 * b ∧ 10 * (a : Int) + -93 * b < q - 1 := by
    by_cases hnonneg : 0 ≤ k
    · refine ⟨((k + 2) / 3).toNat, 0, ?_, ?_⟩ <;> omega
    · refine ⟨((k + 28 * ((27 - k) / 28) + 2) / 3).toNat, ((27 - k) / 28).toNat, ?_, ?_⟩ <;> omega
  calc (10 : ℚ) ^ k ≤ 10 ^ (3 * a + -28 * b : Int) := hmono hk
    _ = 10 ^ (3 * a : Int) * 10 ^ (-28 * b : Int) := zpow_add₀ (by norm_num) _ _
    _ ≤ 2 ^ (10 * a : Int) * 2 ^ (-93 * b : Int) :=
        mul_le_mul (hthree a) (hmany b) (zpow_pos (by norm_num) _).le (zpow_pos (by norm_num) _).le
    _ = 2 ^ (10 * a + -93 * b : Int) := (zpow_add₀ (by norm_num) _ _).symm
    _ < 2 ^ (q - 1) := zpow_lt_zpow_right₀ (by norm_num) hq

/-- The shortest decimal of a number rounds to the number. -/
theorem rounds_shortest {m : ℕ} {q : Int} (hc : IsCanonical m q) (hm : 0 < m) (tie : Tie) :
    Rounds m q ((shortest m q (isNarrow m q) tie).1 *
      10 ^ (shortest m q (isNarrow m q) tie).2) := by
  refine rounds_search hm q tie 23 _ (ten_zpow_lt hc.least hc.most ?_)
  have hlog : m.log2 < 53 := (Nat.log2_lt (Nat.ne_of_gt hm)).2 hc.lt
  omega

/-! ## Decimals as text -/

/-- Moving zeros into the exponent does not change a decimal. -/
theorem stripZeros_eq (fuel d : ℕ) (k : Int) :
    ((stripZeros fuel d k).1 : ℚ) * 10 ^ (stripZeros fuel d k).2 = d * 10 ^ k := by
  induction fuel generalizing d k with
  | zero => rfl
  | succ fuel ih =>
    rw [stripZeros]
    split
    · next h =>
      have hmod : d % 10 = 0 := by simp_all
      have hd : ((d / 10 : ℕ) : ℚ) * 10 = d := by
        exact_mod_cast Nat.div_mul_cancel (Nat.dvd_of_mod_eq_zero hmod)
      rw [ih, zpow_add_one₀ (by norm_num), mul_comm (_ ^ k), ← mul_assoc, hd]
    · rfl

theorem digitsValue_eq (ds : Text) : digitsValue ds = Nat.ofDigitChars 10 ds 0 := rfl

section

variable {ds : Text} (hds : ∀ c ∈ ds, c.isDigit = true)
include hds

/-- Digits are read up to the first character that is none. -/
theorem takeWhile_isDigit {t : Text} (ht : ∀ c ∈ t.head?, c.isDigit = false) :
    (ds ++ t).takeWhile Char.isDigit = ds ∧ (ds ++ t).dropWhile Char.isDigit = t := by
  have hnil : t.takeWhile Char.isDigit = [] ∧ t.dropWhile Char.isDigit = t := by
    cases t with
    | nil => exact ⟨rfl, rfl⟩
    | cons c t => simp [ht c rfl]
  rw [List.takeWhile_append_of_pos hds, List.dropWhile_append_of_pos hds, hnil.1, hnil.2,
    List.append_nil]
  exact ⟨rfl, rfl⟩

theorem readMagnitude?_digits (hne : ds ≠ []) :
    readMagnitude? ds = some (ofDigits (digitsValue ds) 0) := by
  obtain ⟨htake, hdrop⟩ := takeWhile_isDigit hds (t := []) (by simp)
  rw [List.append_nil] at htake hdrop
  have hempty : ds.isEmpty = false := by simpa using hne
  simp [readMagnitude?, htake, hdrop, hempty, readExponent?]

theorem readMagnitude?_point {fs : Text} (hfs : ∀ c ∈ fs, c.isDigit = true) (hne : ds ≠ []) :
    readMagnitude? (ds ++ '.' :: fs) =
      some (ofDigits (digitsValue (ds ++ fs)) (-(fs.length : Int))) := by
  obtain ⟨htake, hdrop⟩ := takeWhile_isDigit hds (t := '.' :: fs) (by simp)
  obtain ⟨htake', hdrop'⟩ := takeWhile_isDigit hfs (t := []) (by simp)
  rw [List.append_nil] at htake' hdrop'
  have hempty : ds.isEmpty = false := by simpa using hne
  simp [readMagnitude?, htake, hdrop, htake', hdrop', hempty, readExponent?]

end

theorem isDigit_of_mem_ofNat {n : ℕ} {c : Char} (h : c ∈ Text.ofNat n) : c.isDigit = true :=
  Nat.isDigit_of_mem_toDigits (b := 10) (by decide) (by decide) h

theorem digitsValue_ofNat (n : ℕ) : digitsValue (Text.ofNat n) = n := Nat.ofDigitChars_ten_toDigits

/-- A decimal that is written without an exponent is read as the same decimal. -/
theorem readMagnitude?_positionalText (d : ℕ) (k : Int) : ∃ (n : ℕ) (e : Int),
    readMagnitude? (positionalText false d k) = some (ofDigits n e) ∧
      (n : ℚ) * 10 ^ e = d * 10 ^ k := by
  have hdigits : ∀ c ∈ Text.ofNat d, c.isDigit = true := fun _ => isDigit_of_mem_ofNat
  have hzeros (n : ℕ) : ∀ c ∈ List.replicate n '0', c.isDigit = true := by
    intro c hc
    rw [List.eq_of_mem_replicate hc]
    rfl
  have hzeroPoint : ∀ c ∈ ['0'], c.isDigit = true := by decide
  rw [positionalText]
  split
  · next hk =>
    obtain ⟨n, rfl⟩ := Int.eq_ofNat_of_zero_le hk
    refine ⟨d * 10 ^ n, 0, ?_, by simp⟩
    have hall := List.forall_mem_append.2 ⟨hdigits, hzeros n⟩
    simp only [Int.toNat_natCast, Bool.false_eq_true, if_false,
      List.append_nil]
    rw [readMagnitude?_digits hall (by simp [ofNat_ne_nil]), digitsValue_eq,
      Nat.ofDigitChars_append, ← digitsValue_eq, digitsValue_ofNat,
      Nat.ofDigitChars_replicate_zero, Nat.mul_comm]
  split
  · next hk hpoint =>
    refine ⟨d, k, ?_, rfl⟩
    generalize hn : (((Text.ofNat d).length : Int) + k).toNat = n
    have htake : ∀ c ∈ (Text.ofNat d).take n, c.isDigit = true :=
      fun c hc => hdigits c (List.mem_of_mem_take hc)
    have hdrop : ∀ c ∈ (Text.ofNat d).drop n, c.isDigit = true :=
      fun c hc => hdigits c (List.mem_of_mem_drop hc)
    have hne : (Text.ofNat d).take n ≠ [] := by
      simp only [ne_eq, List.take_eq_nil_iff, ofNat_ne_nil, or_false]
      omega
    have hlength : -(((Text.ofNat d).drop n).length : Int) = k := by
      rw [List.length_drop]
      omega
    rw [readMagnitude?_point htake hdrop hne, List.take_append_drop, digitsValue_ofNat, hlength]
  · next hk hpoint =>
    refine ⟨d, k, ?_, rfl⟩
    generalize hn : (-(((Text.ofNat d).length : Int) + k)).toNat = n
    have hall := List.forall_mem_append.2 ⟨hzeros n, hdigits⟩
    have htext : ("0." : Text) ++ List.replicate n '0' ++ Text.ofNat d =
        ['0'] ++ '.' :: (List.replicate n '0' ++ Text.ofNat d) := rfl
    have hvalue : digitsValue (['0'] ++ (List.replicate n '0' ++ Text.ofNat d)) = d := by
      have hzero : ['0'] ++ (List.replicate n '0' ++ Text.ofNat d) =
          List.replicate (n + 1) '0' ++ Text.ofNat d := rfl
      rw [hzero, digitsValue_eq, Nat.ofDigitChars_append, Nat.ofDigitChars_replicate_zero,
        Nat.mul_zero, ← digitsValue_eq, digitsValue_ofNat]
    have hlength : -((List.replicate n '0' ++ Text.ofNat d).length : Int) = k := by
      rw [List.length_append, List.length_replicate]
      omega
    rw [htext, readMagnitude?_point hzeroPoint hall (by simp), hvalue, hlength]

/-! ## Numbers as text -/

/-- A decimal without an exponent starts with a digit. -/
theorem head?_positionalText (d : ℕ) (k : Int) : ∃ c t,
    positionalText false d k = c :: t ∧ c.isDigit = true := by
  obtain ⟨c, t, hdigits⟩ := List.exists_cons_of_ne_nil (ofNat_ne_nil d)
  have hc : c.isDigit = true := isDigit_of_mem_ofNat (n := d) (by rw [hdigits]; exact .head _)
  rw [positionalText]
  split
  · exact ⟨c, _, by rw [hdigits]; rfl, hc⟩
  split
  · next hpoint =>
    obtain ⟨n, hn⟩ : ∃ n, (((Text.ofNat d).length : Int) + k).toNat = n + 1 :=
      ⟨(((Text.ofNat d).length : Int) + k).toNat - 1, by omega⟩
    rw [hn, hdigits]
    exact ⟨c, _, rfl, hc⟩
  · exact ⟨'0', _, rfl, rfl⟩

/-- A finite number is written as a magnitude that starts with a digit, behind a minus sign when it
is negative, and the magnitude is read as that of an equal number. -/
theorem scriptText_eq {x : Float} (h : isFinite x = true) : ∃ (negative : Bool) (c : Char)
    (t : Text) (y : Float), scriptText x = (if negative then '-' :: c :: t else c :: t) ∧
      c.isDigit = true ∧ readMagnitude? (c :: t) = some y ∧
      isFinite (if negative then -y else y) = true ∧
      ((if negative then -y else y) == x) = true := by
  obtain ⟨negative, m, q, hparts⟩ := exists_parts h
  have hzero := beq_zero_of_parts hparts
  by_cases hm : m = 0
  · subst hm
    have hcanonical : IsCanonical 0 (-1074) := ⟨by decide, by decide, by decide, .inr rfl⟩
    have hy := parts_ofBits hcanonical false
    refine ⟨false, '0', [], _, ?_, rfl, readMagnitude?_digits (by decide) (List.cons_ne_nil _ _),
      isFinite_of_parts hy, beq_of_zero hy hparts⟩
    rw [scriptText, if_pos (by simpa using hzero)]
    rfl
  · have hc := isCanonical_of_parts hparts
    have hpos : 0 < m := Nat.pos_of_ne_zero hm
    obtain ⟨d, k, htext, hrounds⟩ : ∃ d k, scriptText x =
        (if negative then '-' :: positionalText false d k else positionalText false d k) ∧
          Rounds m q (d * 10 ^ k) := by
      refine ⟨_, _, ?_, stripZeros_eq 20 _ _ ▸ rounds_shortest hc hpos Style.plain.tie⟩
      rw [scriptText, if_neg (by simp [hzero, hm]), Style.write, hparts]
      simp only [beq_iff_eq, hm, if_false]
      rfl
    obtain ⟨n, e, hread, hvalue⟩ := readMagnitude?_positionalText d k
    obtain ⟨c, t, hstart, hdigit⟩ := head?_positionalText d k
    have hdigits : ofDigits n e = Float.ofBits (UInt64.ofNat (finiteBits false m q)) :=
      ofDigits_eq hc hpos (hvalue ▸ hrounds)
    have hx : (if negative then -ofDigits n e else ofDigits n e) = x := by
      rw [hdigits, eq_ofBits_of_parts hparts]
      cases negative with
      | false => rfl
      | true => exact neg_ofBits hc false
    rw [hstart] at htext hread
    refine ⟨negative, c, t, _, htext, hdigit, hread, ?_, ?_⟩
    · rw [hx]
      exact h
    · rw [hx]
      exact beq_self_of_isFinite h

/-- What starts with a digit is read as a magnitude, and a minus sign in front negates it. -/
theorem read?_sign (negative : Bool) {c : Char} {t : Text} (hc : c.isDigit = true) :
    read? (if negative then '-' :: c :: t else c :: t) =
      (readMagnitude? (c :: t)).map fun x => if negative then -x else x := by
  have hne {d : Char} (hd : d.isDigit = false) : c ≠ d := by
    rintro rfl
    rw [hc] at hd
    cases hd
  have hsign : readSign (if negative then '-' :: c :: t else c :: t) = (negative, c :: t) := by
    cases negative with
    | true => rfl
    | false =>
      rw [if_neg Bool.false_ne_true, readSign.eq_def]
      split
      · next heq => exact absurd (List.cons.inj heq).1 (hne rfl)
      · next heq => exact absurd (List.cons.inj heq).1 (hne rfl)
      · rfl
  have hlower : Text.lower (c :: t) = c :: Text.lower t := by
    have hsame : c.toLower = c := dif_neg fun hupper => by
      simp [Char.isDigit, UInt32.le_iff_toNat_le] at hc hupper
      omega
    simp [Text.lower, hsame]
  have hname {d : Char} {u : Text} (hd : d.isDigit = false) :
      (c :: Text.lower t == d :: u) = false := by
    rw [beq_eq_false_iff_ne]
    exact fun heq => hne hd (List.cons.inj heq).1
  have hinf : (Text.lower (c :: t) == ("inf" : Text)) = false := hlower ▸ hname rfl
  have hinfinity : (Text.lower (c :: t) == ("infinity" : Text)) = false := hlower ▸ hname rfl
  have hnan : (Text.lower (c :: t) == ("nan" : Text)) = false := hlower ▸ hname rfl
  rw [read?, hsign]
  simp only [hinf, hinfinity, hnan, Bool.or_self, Bool.false_eq_true, if_false]

/-- The text of a finite number is read as a number equal to it. -/
theorem read?_scriptText {x : Float} (h : isFinite x = true) :
    ∃ y, read? (scriptText x) = some y ∧ isFinite y = true ∧ (y == x) = true := by
  obtain ⟨negative, c, t, y, htext, hdigit, hread, hfinite, heq⟩ := scriptText_eq h
  refine ⟨_, ?_, hfinite, heq⟩
  rw [htext, read?_sign negative hdigit, hread, Option.map_some]

end Scaffold.Decimal
