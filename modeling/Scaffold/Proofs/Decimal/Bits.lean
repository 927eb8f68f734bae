import Scaffold.Decimal.Binary

/-!
# The bits of numbers

A finite number is determined by its sign, significand and exponent: its bits are `finiteBits`
(`eq_ofBits_of_parts`), and negation changes the sign only (`neg_ofBits`).
-/

namespace Scaffold.Decimal

open Float.Model Float.Model.UnpackedFloat

/-! ## Parts and bits -/

/-- A significand and an exponent of the 64-bit format. -/
structure IsCanonical (m : Nat) (e : Int) : Prop where
  lt : m < 2 * leastFull
  least : -1074 ≤ e
  most : e ≤ 971
  full : leastFull ≤ m ∨ e = -1074

/-- The bits of a number without its sign. -/
def magnitudeBits (m : Nat) (e : Int) : Nat :=
  if m < leastFull then m else (e + 1074).toNat * leastFull + m

/-- The bits of a finite number. -/
def finiteBits (negative : Bool) (m : Nat) (e : Int) : Nat :=
  (if negative then 2048 * leastFull else 0) + magnitudeBits m e

theorem leastFull_eq : leastFull = 4503599627370496 := rfl

theorem IsCanonical.magnitudeBits_lt {m : Nat} {e : Int} (h : IsCanonical m e) :
    magnitudeBits m e < infiniteBits := by
  obtain ⟨hlt, hleast, hmost, hfull⟩ := h
  rw [magnitudeBits, infiniteBits]
  rw [leastFull_eq] at *
  split <;> omega

/-- The exponent and the fraction that the bits of a number hold. -/
theorem IsCanonical.fields {m : Nat} {e : Int} (h : IsCanonical m e) :
    magnitudeBits m e / leastFull < 2047 ∧
      ((m < leastFull ∧ e = -1074 ∧ magnitudeBits m e / leastFull = 0 ∧
        magnitudeBits m e % leastFull = m) ∨
      (leastFull ≤ m ∧ magnitudeBits m e / leastFull = (e + 1075).toNat ∧
        magnitudeBits m e % leastFull = m - leastFull)) := by
  obtain ⟨hlt, hleast, hmost, hfull⟩ := h
  rw [magnitudeBits]
  rw [leastFull_eq] at *
  split <;> omega

/-- The bits of a finite number stand for its parts. -/
theorem IsCanonical.ofBits_finiteBits {m : Nat} {e : Int} (h : IsCanonical m e) (negative : Bool) :
    Parts.ofBits (finiteBits negative m e) = .finite negative m e := by
  have hlt := h.magnitudeBits_lt
  obtain ⟨hbiased, hfields⟩ := h.fields
  have hsign : (finiteBits negative m e / (2048 * leastFull) == 1) = negative := by
    rw [finiteBits]
    rw [infiniteBits, leastFull_eq] at hlt
    rw [leastFull_eq]
    cases negative
    · simp
      omega
    · simp
      omega
  have hexponent : finiteBits negative m e / leastFull % 2048 = magnitudeBits m e / leastFull := by
    rw [finiteBits]
    rw [leastFull_eq] at *
    cases negative <;> simp <;> omega
  have hfraction : finiteBits negative m e % leastFull = magnitudeBits m e % leastFull := by
    rw [finiteBits]
    cases negative
    · simp
    · simp
  have hfinite : (magnitudeBits m e / leastFull == 2047) = false := by
    simpa using Nat.ne_of_lt hbiased
  simp only [Parts.ofBits, hsign, hexponent, hfraction, hfinite, Bool.false_eq_true, if_false]
  obtain ⟨hm, he, hzero, hmod⟩ | ⟨hm, hexp, hmod⟩ := hfields
  · rw [hzero, hmod, he]
    rfl
  · have hpos : (magnitudeBits m e / leastFull == 0) = false := by
      have := h.least
      simp only [beq_eq_false_iff_ne, hexp]
      omega
    have he : ((e + 1075).toNat : Int) - 1075 = e := by
      have := h.least
      omega
    rw [hpos, if_neg Bool.false_ne_true, hmod, hexp, he, Nat.add_sub_cancel' hm]

/-- The fields of the bits of a finite number. -/
theorem fields_of_ofBits {bits m : Nat} {negative : Bool} {e : Int}
    (h : Parts.ofBits bits = .finite negative m e) :
    bits / leastFull % 2048 ≠ 2047 ∧ (bits / (2048 * leastFull) == 1) = negative ∧
      ((bits / leastFull % 2048 = 0 ∧ m = bits % leastFull ∧ e = -1074) ∨
      (bits / leastFull % 2048 ≠ 0 ∧ m = leastFull + bits % leastFull ∧
        e = ((bits / leastFull % 2048 : Nat) : Int) - 1075)) := by
  simp only [Parts.ofBits] at h
  split at h
  · split at h <;> cases h
  · next hinf =>
    refine ⟨by simpa using hinf, ?_⟩
    split at h
    · next hzero =>
      obtain ⟨rfl, rfl, rfl⟩ := Parts.finite.inj h
      exact ⟨rfl, .inl ⟨by simpa using hzero, rfl, rfl⟩⟩
    · next hzero =>
      obtain ⟨rfl, rfl, rfl⟩ := Parts.finite.inj h
      exact ⟨rfl, .inr ⟨by simpa using hzero, rfl, rfl⟩⟩

/-- Bits that stand for a finite number are the bits of its parts. -/
theorem of_ofBits_eq_finite {bits m : Nat} {negative : Bool} {e : Int}
    (hbits : bits < 4096 * leastFull) (h : Parts.ofBits bits = .finite negative m e) :
    IsCanonical m e ∧ bits = finiteBits negative m e := by
  obtain ⟨hinf, rfl, hfields⟩ := fields_of_ofBits h
  have hsign : (if bits / (2048 * leastFull) == 1 then 2048 * leastFull else 0) +
      bits % (2048 * leastFull) = bits := by
    rw [leastFull_eq] at *
    by_cases hone : bits / (2048 * 4503599627370496) = 1
    · simp [hone]
      omega
    · simp [hone]
      omega
  have hlt : bits % leastFull < leastFull := Nat.mod_lt _ (by decide)
  obtain ⟨hzero, rfl, rfl⟩ | ⟨hzero, rfl, rfl⟩ := hfields
  · have hmod : bits % leastFull = bits % (2048 * leastFull) := by
      rw [leastFull_eq] at *
      omega
    refine ⟨⟨by omega, by decide, by decide, .inr rfl⟩, ?_⟩
    rw [finiteBits, magnitudeBits, if_pos hlt, hmod]
    exact hsign.symm
  · have hbiased : bits / leastFull % 2048 < 2048 := Nat.mod_lt _ (by decide)
    have hexp : (((bits / leastFull % 2048 : Nat) : Int) - 1075 + 1074).toNat =
        bits / leastFull % 2048 - 1 := by omega
    have hmagnitude : (bits / leastFull % 2048 - 1) * leastFull + (leastFull + bits % leastFull) =
        bits % (2048 * leastFull) := by
      rw [leastFull_eq] at *
      omega
    have hfull : ¬ leastFull + bits % leastFull < leastFull := by omega
    refine ⟨⟨by omega, by omega, by omega, .inl (by omega)⟩, ?_⟩
    rw [finiteBits, magnitudeBits, if_neg hfull, hexp, hmagnitude]
    exact hsign.symm

/-! ## Fields -/

theorem toNat_unpackMantissa (b : BitVec Format.binary64.numBits) :
    (unpackMantissa b).toNat = b.toNat % leastFull := by
  simp [unpackMantissa, BitVec.extractLsb, leastFull_eq]

theorem toNat_unpackExponent (b : BitVec Format.binary64.numBits) :
    (unpackExponent b).toNat = b.toNat / leastFull % 2048 := by
  simp [unpackExponent, BitVec.extractLsb, leastFull_eq, Nat.shiftRight_eq_div_pow]

theorem toNat_unpackSign (b : BitVec Format.binary64.numBits) :
    (unpackSign b).toNat = b.toNat / (2048 * leastFull) % 2 := by
  delta unpackSign
  simp [BitVec.extractLsb, leastFull_eq, Nat.shiftRight_eq_div_pow]

theorem toNat_packComponents (s : Sign) (e : BitVec 11) (m : BitVec 52) :
    (packComponents .binary64 s e m).toNat =
      s.toBitVec.toNat * (2048 * leastFull) + e.toNat * leastFull + m.toNat := by
  show (s.toBitVec ++ e ++ m).toNat = _
  rw [BitVec.toNat_append, BitVec.toNat_append, ← Nat.shiftLeft_add_eq_or_of_lt m.isLt,
    ← Nat.shiftLeft_add_eq_or_of_lt e.isLt, Nat.shiftLeft_eq, Nat.shiftLeft_eq, leastFull_eq]
  omega

/-! ## Packing -/

/-- The sign of a number. -/
def signOf (negative : Bool) : Sign := if negative then .negative else .positive

theorem signOf_not (negative : Bool) : signOf (!negative) = -signOf negative := by
  cases negative <;> rfl

theorem toNat_signOf (negative : Bool) :
    (signOf negative).toBitVec.toNat * (2048 * leastFull) =
      if negative then 2048 * leastFull else 0 := by
  cases negative <;> rfl

/-- A finite number as the library of numbers takes it apart. -/
def unpacked (negative : Bool) (m : Nat) (e : Int) : UnpackedFloat :=
  if h : 0 < m then .finite (signOf negative) m e h else .zero (signOf negative)

theorem ofBitVec_unpackSign (b : BitVec Format.binary64.numBits) :
    Sign.ofBitVec (unpackSign b) = signOf (b.toNat / (2048 * leastFull) == 1) := by
  have hlt : b.toNat < 4096 * leastFull := b.isLt
  have hsign := toNat_unpackSign b
  rw [leastFull_eq] at *
  obtain hone | hzero : b.toNat / (2048 * 4503599627370496) = 1 ∨
      b.toNat / (2048 * 4503599627370496) = 0 := by omega
  · have hbit : unpackSign b = 1#1 := by
      rw [← BitVec.toNat_inj, hsign, hone]
      rfl
    rw [hbit, hone]
    rfl
  · have hbit : unpackSign b = 0#1 := by
      rw [← BitVec.toNat_inj, hsign, hzero]
      rfl
    rw [hbit, hzero]
    rfl

theorem toNat_one_append (b : BitVec 52) : (1#1 ++ b).toNat = leastFull + b.toNat := by
  rw [BitVec.toNat_append, ← Nat.shiftLeft_add_eq_or_of_lt b.isLt]
  rfl

/-- Bits that stand for a finite number are unpacked as its parts. -/
theorem unpack_eq {b : BitVec Format.binary64.numBits} {negative : Bool} {m : Nat} {e : Int}
    (h : Parts.ofBits b.toNat = .finite negative m e) :
    UnpackedFloat.unpack .binary64 b = unpacked negative m e := by
  obtain ⟨hinf, hsign, hfields⟩ := fields_of_ofBits h
  have hexponent := toNat_unpackExponent b
  have hmantissa := toNat_unpackMantissa b
  have hnotInf : unpackExponent b ≠ -1#_ := by
    intro heq
    rw [heq] at hexponent
    exact hinf hexponent.symm
  have hbias : ((Format.binary64.exponentBias : Nat) : Int) +
      (Format.binary64.mantissaBitsWithoutImplicit : Nat) = 1075 := rfl
  delta UnpackedFloat.unpack
  dsimp only
  rw [ofBitVec_unpackSign, hsign, hexponent, hbias]
  rw [if_neg hnotInf]
  obtain ⟨hzero, rfl, rfl⟩ | ⟨hzero, rfl, rfl⟩ := hfields
  · have hexp : unpackExponent b = 0#_ := by
      rw [← BitVec.toNat_inj, hexponent, hzero]
      rfl
    rw [if_pos hexp]
    by_cases hm : unpackMantissa b = 0#_
    · have hnone : ¬ 0 < b.toNat % leastFull := by
        rw [← hmantissa, hm]
        decide
      rw [dif_pos hm, unpacked, dif_neg hnone]
    · have hsome : 0 < b.toNat % leastFull := by
        rw [← hmantissa]
        exact Nat.pos_of_ne_zero fun heq => hm (BitVec.toNat_inj.1 heq)
      rw [dif_neg hm, unpacked, dif_pos hsome, UnpackedFloat.finite.injEq]
      exact ⟨rfl, hmantissa, by rw [hzero]; rfl⟩
  · have hexp : unpackExponent b ≠ 0#_ := by
      intro heq
      rw [heq] at hexponent
      exact hzero hexponent.symm
    have hsome : 0 < leastFull + b.toNat % leastFull := Nat.add_pos_left (by decide) _
    rw [if_neg hexp, unpacked, dif_pos hsome, UnpackedFloat.finite.injEq]
    refine ⟨rfl, ?_, rfl⟩
    rw [toNat_one_append, hmantissa]

/-- The parts of a finite number are packed into its bits. -/
theorem toNat_pack_unpacked {m : Nat} {e : Int} (h : IsCanonical m e) (negative : Bool) :
    (UnpackedFloat.pack .binary64 (unpacked negative m e)).toNat = finiteBits negative m e := by
  obtain ⟨hlt, hleast, hmost, hfull⟩ := h
  by_cases hm : 0 < m
  · have hbias : (e + (Format.binary64.exponentBias : Nat) +
        (Format.binary64.mantissaBitsWithoutImplicit : Nat)).toNat = (e + 1075).toNat := by
      have : e + (Format.binary64.exponentBias : Nat) +
        (Format.binary64.mantissaBitsWithoutImplicit : Nat) = e + (1023 : Nat) + (52 : Nat) := rfl
      omega
    have hfits : ¬ 2 ^ Format.binary64.exponentBits ≤ (e + 1075).toNat + 1 := by
      show ¬ 2048 ≤ _
      omega
    have hwidth : Format.binary64.mantissaBits = 53 := rfl
    rw [unpacked, dif_pos hm]
    delta UnpackedFloat.pack
    dsimp only
    simp only [hbias, hwidth]
    rw [if_neg hfits, finiteBits, ← toNat_signOf, magnitudeBits]
    by_cases hnormal : leastFull ≤ m
    · have hlog : m.log2 + 1 = 53 := by
        have hlow : 52 ≤ m.log2 := (Nat.le_log2 (by omega)).2 hnormal
        have hhigh : m.log2 < 53 := (Nat.log2_lt (by omega)).2 hlt
        omega
      rw [if_pos hlog, if_neg (Nat.not_lt.2 hnormal), toNat_packComponents, BitVec.toNat_ofNat,
        BitVec.toNat_ofNat]
      rw [leastFull_eq] at *
      show _ + (e + 1075).toNat % 2048 * _ + m % 4503599627370496 = _
      omega
    · have hlog : ¬ m.log2 + 1 = 53 := by
        have hhigh : m.log2 < 52 := (Nat.log2_lt (by omega)).2 (Nat.not_le.1 hnormal)
        omega
      rw [if_neg hlog, if_pos (Nat.not_le.1 hnormal), toNat_packComponents, BitVec.toNat_ofNat]
      rw [leastFull_eq] at *
      show _ + 0 * _ + m % 4503599627370496 = _
      omega
  · obtain rfl : m = 0 := by omega
    rw [unpacked, dif_neg hm]
    show (packedZero .binary64 (signOf negative)).toNat = _
    rw [packedZero, toNat_packComponents, toNat_signOf]
    rfl

/-! ## Numbers -/

/-- The parts of a finite number. -/
theorem exists_parts {x : Float} (h : isFinite x = true) :
    ∃ negative m e, parts x = .finite negative m e := by
  rw [isFinite] at h
  split at h
  · next negative m e hparts => exact ⟨negative, m, e, hparts⟩
  · cases h

theorem isFinite_of_parts {x : Float} {negative : Bool} {m : Nat} {e : Int}
    (h : parts x = .finite negative m e) : isFinite x = true := by
  rw [isFinite, h]

/-- A number is given by its bits. -/
theorem eq_of_toBits_eq {x y : Float} (h : x.toBits.toNat = y.toBits.toNat) : x = y := by
  obtain ⟨⟨a, ha⟩⟩ := x
  obtain ⟨⟨b, hb⟩⟩ := y
  obtain rfl : a = b := UInt64.toNat_inj.1 h
  rfl

section

variable {x : Float} {negative : Bool} {m : Nat} {e : Int} (h : parts x = .finite negative m e)
include h

theorem isCanonical_of_parts : IsCanonical m e := (of_ofBits_eq_finite x.toBits.toBitVec.isLt h).1

theorem toBits_of_parts : x.toBits.toNat = finiteBits negative m e :=
  (of_ofBits_eq_finite x.toBits.toBitVec.isLt h).2

theorem unpack_of_parts : x.toModel.unpack = unpacked negative m e := unpack_eq h

end

theorem finiteBits_lt {m : Nat} {e : Int} (h : IsCanonical m e) (negative : Bool) :
    finiteBits negative m e < UInt64.size := by
  have hlt := h.magnitudeBits_lt
  rw [finiteBits, UInt64.size]
  rw [infiniteBits, leastFull_eq] at *
  split <;> omega

/-- The number of the bits of a finite number has these bits. -/
theorem toBits_ofBits {m : Nat} {e : Int} (h : IsCanonical m e) (negative : Bool) :
    (Float.ofBits (UInt64.ofNat (finiteBits negative m e))).toBits.toNat =
      finiteBits negative m e := by
  have hbits : (UInt64.ofNat (finiteBits negative m e)).toBitVec.toNat = finiteBits negative m e :=
    UInt64.toNat_ofNat_of_lt' (finiteBits_lt h negative)
  have hunpack : UnpackedFloat.unpack .binary64 (UInt64.ofNat (finiteBits negative m e)).toBitVec =
      unpacked negative m e := unpack_eq (by rw [hbits, h.ofBits_finiteBits])
  show (UnpackedFloat.pack .binary64 (UnpackedFloat.unpack .binary64
    (UInt64.ofNat (finiteBits negative m e)).toBitVec)).toNat = _
  rw [hunpack, toNat_pack_unpacked h]

/-- The parts of a number that is given by its parts. -/
theorem parts_ofBits {m : Nat} {e : Int} (h : IsCanonical m e) (negative : Bool) :
    parts (Float.ofBits (UInt64.ofNat (finiteBits negative m e))) = .finite negative m e := by
  rw [parts, toBits_ofBits h, h.ofBits_finiteBits]

/-- A finite number is the number of its bits. -/
theorem eq_ofBits_of_parts {x : Float} {negative : Bool} {m : Nat} {e : Int}
    (h : parts x = .finite negative m e) :
    x = Float.ofBits (UInt64.ofNat (finiteBits negative m e)) :=
  eq_of_toBits_eq ((toBits_of_parts h).trans (toBits_ofBits (isCanonical_of_parts h) _).symm)

theorem neg_unpacked (negative : Bool) (m : Nat) (e : Int) :
    (unpacked negative m e).neg = unpacked (!negative) m e := by
  rw [unpacked, unpacked, signOf_not]
  by_cases hm : 0 < m
  · rw [dif_pos hm, dif_pos hm]
    rfl
  · rw [dif_neg hm, dif_neg hm]
    rfl

/-- Negation changes the sign only. -/
theorem neg_ofBits {m : Nat} {e : Int} (h : IsCanonical m e) (negative : Bool) :
    -Float.ofBits (UInt64.ofNat (finiteBits negative m e)) =
      Float.ofBits (UInt64.ofNat (finiteBits (!negative) m e)) := by
  refine eq_of_toBits_eq ?_
  rw [toBits_ofBits h]
  show (UnpackedFloat.pack .binary64
    (Float.ofBits (UInt64.ofNat (finiteBits negative m e))).toModel.unpack.neg).toNat = _
  rw [unpack_of_parts (parts_ofBits h negative), neg_unpacked, toNat_pack_unpacked h]

end Scaffold.Decimal
