import ItemMapper.Proofs.Number.Reading
import ItemMapper.Proofs.Number.Rounding

/-!
# Decimals as ratios

A decimal far beyond the largest double is infinite, and one far below the smallest is zero, so that
settling them by their size alone makes no difference: every decimal is rounded as the ratio that it is.

## Main statements

* `Floating.ofRatio_congr`: equal ratios are rounded to one number.
* `Floating.ofDecimal_eq`: a decimal is rounded as a ratio.
-/

namespace ItemMapper.Floating

variable {negative : Bool} {num den num' den' digits : Nat} {exponent : Int}

/-- Equal ratios are rounded to one number. -/
theorem ofRatio_congr (f : Format) (negative : Bool) (hden : 0 < den) (hden' : 0 < den')
    (h : num * den' = num' * den) : ofRatio f negative num den = ofRatio f negative num' den' := by
  have hunits : num * 2 ^ places * den' = num' * 2 ^ places * den := by
    rw [Nat.mul_right_comm, h, Nat.mul_right_comm]
  rw [ofRatio, ofRatio, ofUnits, ofUnits, Format.roundUnits?_eq, Format.roundUnits?_eq,
    Format.nearest_congr f hden hden' hunits]

theorem pow_le_of_decimalLength {n : Nat} (hn : n ≠ 0) : 10 ^ (decimalLength n - 1) ≤ n := by
  have hpos : 0 < decimalLength n := Nat.length_toDigits_pos
  rcases Nat.eq_or_lt_of_le (Nat.succ_le_of_lt hpos) with hone | hmore
  · rw [← hone]
    exact Nat.pos_of_ne_zero hn
  · refine Nat.not_lt.mp fun hlt => ?_
    have hshort : decimalLength n ≤ decimalLength n - 1 :=
      (Nat.length_toDigits_le_iff (by decide) (by omega)).mpr hlt
    omega

theorem lt_pow_decimalLength (n : Nat) : n < 10 ^ decimalLength n :=
  (Nat.length_toDigits_le_iff (by decide) Nat.length_toDigits_pos).mp (Nat.le_refl _)

/-- The size from which a decimal counts as infinite is beyond the limit of doubles. -/
theorem two_pow_limit_le (hne : digits ≠ 0) (hlarge : 400 < exponent + decimalLength digits) :
    2 ^ double.limit * 10 ^ (-exponent).toNat ≤ digits * 10 ^ exponent.toNat * 2 ^ places := by
  obtain ⟨cutoff, hcutoff⟩ : ∃ cutoff, cutoff = 400 := ⟨_, rfl⟩
  have hhuge : (2 : Nat) ^ double.limit ≤ 10 ^ cutoff * 2 ^ places := by
    calc 2 ^ double.limit
        ≤ 2 ^ (3 * cutoff + places) :=
          Nat.pow_le_pow_right (by decide) (by rw [hcutoff]; decide)
      _ = (2 ^ 3) ^ cutoff * 2 ^ places := by rw [Nat.pow_add, Nat.pow_mul]
      _ ≤ 10 ^ cutoff * 2 ^ places :=
          Nat.mul_le_mul_right _ (Nat.pow_le_pow_left (by decide) cutoff)
  calc 2 ^ double.limit * 10 ^ (-exponent).toNat
      ≤ 10 ^ cutoff * 2 ^ places * 10 ^ (-exponent).toNat := Nat.mul_le_mul_right _ hhuge
    _ = 10 ^ (cutoff + (-exponent).toNat) * 2 ^ places := by
        rw [Nat.mul_right_comm, Nat.pow_add]
    _ ≤ 10 ^ (decimalLength digits - 1 + exponent.toNat) * 2 ^ places :=
        Nat.mul_le_mul_right _ (Nat.pow_le_pow_right (by decide) (by omega))
    _ = 10 ^ (decimalLength digits - 1) * 10 ^ exponent.toNat * 2 ^ places := by
        rw [Nat.pow_add]
    _ ≤ digits * 10 ^ exponent.toNat * 2 ^ places :=
        Nat.mul_le_mul_right _ (Nat.mul_le_mul_right _ (pow_le_of_decimalLength hne))

/-- The size from which a decimal counts as zero is below half of the smallest double. -/
theorem lt_half_unit (hsmall : exponent + decimalLength digits < -400) :
    2 * (digits * 10 ^ exponent.toNat * 2 ^ places) < 10 ^ (-exponent).toNat := by
  obtain ⟨cutoff, hcutoff⟩ : ∃ cutoff, cutoff = 400 := ⟨_, rfl⟩
  have htiny : 2 * 2 ^ places ≤ (10 : Nat) ^ cutoff := by
    calc 2 * 2 ^ places
        = 2 ^ (places + 1) := by rw [Nat.pow_succ, Nat.mul_comm]
      _ ≤ 2 ^ (3 * cutoff) := Nat.pow_le_pow_right (by decide) (by rw [hcutoff]; decide)
      _ = (2 ^ 3) ^ cutoff := Nat.pow_mul ..
      _ ≤ 10 ^ cutoff := Nat.pow_le_pow_left (by decide) cutoff
  have hnone : exponent.toNat = 0 := by omega
  rw [hnone, Nat.pow_zero, Nat.mul_one]
  calc 2 * (digits * 2 ^ places)
      = digits * (2 * 2 ^ places) := Nat.mul_left_comm ..
    _ ≤ digits * 10 ^ cutoff := Nat.mul_le_mul_left _ htiny
    _ < 10 ^ decimalLength digits * 10 ^ cutoff :=
        Nat.mul_lt_mul_of_pos_right (lt_pow_decimalLength digits) (Nat.pow_pos (by decide))
    _ = 10 ^ (decimalLength digits + cutoff) := (Nat.pow_add ..).symm
    _ ≤ 10 ^ (-exponent).toNat := Nat.pow_le_pow_right (by decide) (by omega)

/-- What is not below the limit of doubles is rounded to an infinity. -/
theorem ofRatio_of_large (hden : 0 < den) (h : 2 ^ double.limit * den ≤ num * 2 ^ places) :
    ofRatio double negative num den = infinite negative := by
  have hlimit : 2 ^ double.limit ≤ double.nearest (num * 2 ^ places) den := by
    calc 2 ^ double.limit
        ≤ double.nearest (2 ^ double.limit * den) den := by
          refine Format.le_nearest hden (Nat.pow_dvd_pow 2 ?_) (Nat.le_refl _)
          rw [Nat.mul_div_cancel _ hden, Format.stepExponent, Nat.log2_two_pow]
          decide
      _ ≤ double.nearest (num * 2 ^ places) den := Format.nearest_mono hden (by decide) h
  rw [ofRatio, ofUnits, Format.roundUnits?_eq, if_neg (Nat.not_lt.mpr hlimit)]

/-- What is below half of the smallest double is rounded to zero. -/
theorem ofRatio_of_small (h : 2 * (num * 2 ^ places) < den) :
    ofRatio double negative num den = finite negative 0 := by
  have hwhole : num * 2 ^ places / den = 0 := Nat.div_eq_of_lt (by omega)
  have hstep : double.stepExponent 0 = 0 := rfl
  have hnearest : double.nearest (num * 2 ^ places) den = 0 := by
    have hround : roundHalfEven (num * 2 ^ places) den < 1 :=
      roundHalfEven_lt (by omega) (by omega)
    rw [Format.nearest, hwhole, hstep, Nat.pow_zero, Nat.mul_one, Nat.mul_one]
    omega
  rw [ofRatio, ofUnits, Format.roundUnits?_eq, hnearest, if_pos (Nat.two_pow_pos _)]

/-- **A decimal is rounded as the ratio that it is**, even where its size alone settles the result. -/
theorem ofDecimal_eq (negative : Bool) (digits : Nat) (exponent : Int) :
    ofDecimal double negative digits exponent =
      ofRatio double negative (digits * 10 ^ exponent.toNat) (10 ^ (-exponent).toNat) := by
  have hden : 0 < 10 ^ (-exponent).toNat := Nat.pow_pos (by decide)
  unfold ofDecimal
  rw [length_toString]
  dsimp only
  split
  · rename_i hzero
    rw [hzero, Nat.zero_mul, ofRatio_of_small (by omega)]
  rename_i hne
  split
  · rename_i hlarge
    rw [ofRatio_of_large hden (two_pow_limit_le hne hlarge)]
  split
  · rename_i hsmall
    rw [ofRatio_of_small (lt_half_unit hsmall)]
  split
  · rename_i hwhole
    have hnone : (-exponent).toNat = 0 := by omega
    rw [hnone, Nat.pow_zero]
  · rename_i hfraction
    have hnone : exponent.toNat = 0 := by omega
    rw [hnone, Nat.pow_zero, Nat.mul_one]

end ItemMapper.Floating
