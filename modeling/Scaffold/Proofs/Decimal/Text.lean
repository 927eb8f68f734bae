import Scaffold.Decimal.Text

/-!
# The characters of numbers

A finite number is written with digits, a point and a minus sign only, and with at least one
character (`isNumberText_scriptText`).  So a number never looks like structure to a reader.
-/

namespace Scaffold.Decimal

/-- The characters of plain numbers. -/
def isNumberChar (c : Char) : Bool := c.isDigit || c == '-' || c == '.'

/-- A text of digits, points and minus signs that is not empty. -/
def IsNumberText (t : Text) : Prop := t ≠ [] ∧ ∀ c ∈ t, isNumberChar c = true

/-- A number character is no letter. -/
theorem isAlpha_of_isNumberChar {c : Char} (h : isNumberChar c = true) : c.isAlpha = false := by
  simp only [isNumberChar, Bool.or_eq_true, beq_iff_eq] at h
  rcases h with (h | rfl) | rfl
  · delta Char.isAlpha Char.isUpper Char.isLower
    simp [Char.isDigit, UInt32.le_iff_toNat_le] at h ⊢
    omega
  · rfl
  · rfl

theorem isNumberChar_of_mem_ofNat {n : Nat} {c : Char} (h : c ∈ Text.ofNat n) :
    isNumberChar c = true := by
  have hdigit := Nat.isDigit_of_mem_toDigits (b := 10) (by decide) (by decide) h
  simp [isNumberChar, hdigit]

theorem ofNat_ne_nil (n : Nat) : Text.ofNat n ≠ [] := Nat.toDigits_ne_nil

/-- A number without an exponent has number characters only. -/
theorem isNumberText_positionalText (d : Nat) (k : Int) :
    IsNumberText (positionalText false d k) := by
  have hzeros {n : Nat} {c : Char} (h : c ∈ List.replicate n '0') : isNumberChar c = true := by
    rw [List.eq_of_mem_replicate h]
    rfl
  unfold positionalText
  simp only
  split
  · refine ⟨by simp [ofNat_ne_nil], ?_⟩
    intro c hc
    simp only [Bool.false_eq_true, if_false, List.append_nil, List.mem_append] at hc
    exact hc.elim isNumberChar_of_mem_ofNat hzeros
  · split
    · refine ⟨by simp, ?_⟩
      intro c hc
      rcases List.mem_append.1 hc with hc | hc
      · exact isNumberChar_of_mem_ofNat (List.mem_of_mem_take hc)
      · rcases List.mem_cons.1 hc with rfl | hc
        · rfl
        · exact isNumberChar_of_mem_ofNat (List.mem_of_mem_drop hc)
    · have hpoint : ∀ c ∈ "0.".toList, isNumberChar c = true := by decide
      refine ⟨by simp, ?_⟩
      intro c hc
      rcases List.mem_append.1 hc with hc | hc
      · rcases List.mem_append.1 hc with hc | hc
        · exact hpoint c hc
        · exact hzeros hc
      · exact isNumberChar_of_mem_ofNat hc

theorem IsNumberText.neg {t : Text} (h : IsNumberText t) : IsNumberText ('-' :: t) := by
  refine ⟨by simp, ?_⟩
  intro c hc
  rcases List.mem_cons.1 hc with rfl | hc
  · rfl
  · exact h.2 c hc

/-- A finite number is written with number characters only. -/
theorem isNumberText_scriptText {x : Float} (h : isFinite x = true) :
    IsNumberText (scriptText x) := by
  have hsign (negative : Bool) {t : Text} (ht : IsNumberText t) :
      IsNumberText (if negative then '-' :: t else t) := by
    cases negative with
    | false => exact ht
    | true => exact ht.neg
  unfold scriptText
  split
  · exact isNumberText_positionalText 0 0
  · unfold isFinite at h
    unfold Style.write
    split at h
    · next negative m q hparts =>
      rw [hparts]
      apply hsign
      split
      · exact isNumberText_positionalText 0 0
      · exact isNumberText_positionalText _ _
    · cases h

end Scaffold.Decimal
