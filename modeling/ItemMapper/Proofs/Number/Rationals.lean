import Mathlib
import ItemMapper.Proofs.Number.Numerals
import ItemMapper.Proofs.Number.Scaling

/-!
# Doubles of rational numbers

A number that is written with digits stands for a rational number, and is read as the double nearest to
this. Where that double is whole, it is an integer, which may or may not be the number that was written.

## Main definitions

* `Floating.ofRat`: the number of a format nearest to a rational number.
* `Floating.toRat?`: the rational number that a finite number is.
* `Floating.IsDouble`: the rational numbers that are doubles themselves.

## Main statements

* `Floating.toInt?_rounded`: the integer that is read of a number written with digits.
* `Floating.toInt?_ofInt`: integers up to `2 ^ 53` are doubles.
* `Floating.isDouble_iff`: when an integer that is read is the number that was written.
* `Floating.abs_ofRat_sub_le`: no double is nearer to a number than the one that it is rounded to.
-/

namespace ItemMapper.Floating

/-- The number of a format nearest to a rational number. -/
def ofRat (f : Format) (q : ℚ) : Floating := ofRatio f (decide (q < 0)) q.num.natAbs q.den

/-- The rational number that a finite number is. -/
def toRat? : Floating → Option ℚ
  | finite negative units => some (signedUnits negative units / 2 ^ places)
  | _ => none

/-- The rational number is its own nearest double. -/
def IsDouble (q : ℚ) : Prop := (ofRat double q).toRat? = some q

variable {f : Format} {q : ℚ} {i : Int} {n : Numeral}

/-! ### Numbers written with digits -/

theorem abs_eq_natAbs_div (q : ℚ) : |q| = (q.num.natAbs : ℚ) / q.den := by
  rw [Rat.abs_def, Rat.divInt_eq_div]
  rfl

/-- The magnitude of what is written with digits, as a ratio of natural numbers. -/
theorem Numeral.abs_value (n : Numeral) :
    |n.value| = ((n.digits * 10 ^ n.scale.toNat : Nat) : ℚ) / ((10 ^ (-n.scale).toNat : Nat) : ℚ) := by
  have hsign : |(if n.negative then -1 else 1 : ℚ)| = 1 := by
    cases n.negative <;> simp
  have hpower : (10 : ℚ) ^ n.scale = 10 ^ n.scale.toNat / 10 ^ (-n.scale).toNat := by
    obtain ⟨k, hk | hk⟩ := n.scale.eq_nat_or_neg
    · rw [hk]
      simp
    · rw [hk]
      simp
  have hnonneg : (0 : ℚ) ≤ n.digits * 10 ^ n.scale :=
    mul_nonneg (Nat.cast_nonneg _) (zpow_nonneg (by norm_num) _)
  rw [Numeral.value, abs_mul, hsign, one_mul, abs_of_nonneg hnonneg, hpower]
  push_cast
  rw [mul_div_assoc]

theorem Numeral.value_neg_iff (hne : n.digits ≠ 0) : n.value < 0 ↔ n.negative = true := by
  have hpos : (0 : ℚ) < n.digits * 10 ^ n.scale :=
    mul_pos (Nat.cast_pos.mpr (Nat.pos_of_ne_zero hne)) (zpow_pos (by norm_num) _)
  rw [Numeral.value]
  cases n.negative with
  | false => simpa using hpos.le
  | true => simpa using hpos

theorem toInt?_finite_eq_some_iff {negative : Bool} {units : Nat} :
    (finite negative units).toInt? = some i ↔
      ∃ count, units = count * 2 ^ places ∧ signedUnits negative count = i := by
  have hunit : 0 < 2 ^ places := Nat.two_pow_pos places
  have hread : (finite negative units).toInt? =
      if units % 2 ^ places = 0 then some (signedUnits negative (units / 2 ^ places)) else none := rfl
  rw [hread]
  generalize 2 ^ places = unit at hunit
  constructor
  · intro h
    split at h
    · rename_i hwhole
      exact ⟨units / unit, (Nat.div_mul_cancel (Nat.dvd_of_mod_eq_zero hwhole)).symm, Option.some.inj h⟩
    · cases h
  · rintro ⟨count, rfl, rfl⟩
    rw [if_pos (Nat.mul_mod_left count unit), Nat.mul_div_cancel count hunit]

theorem toInt?_ofRatio_zero (negative : Bool) {den : Nat} (hden : 0 < den) :
    (ofRatio double negative 0 den).toInt? = some 0 := by
  rw [ofRatio_of_small (by omega), toInt?_finite_eq_some_iff]
  exact ⟨0, (Nat.zero_mul _).symm, by cases negative <;> rfl⟩

/-- **The integer that is read of a number written with digits** is that of the double nearest to the
rational number that it stands for. -/
theorem toInt?_rounded (n : Numeral) :
    (n.rounded double).toInt? = (ofRat double n.value).toInt? := by
  have hden : 0 < 10 ^ (-n.scale).toNat := Nat.pow_pos (by decide)
  have hratio : n.digits * 10 ^ n.scale.toNat * n.value.den =
      n.value.num.natAbs * 10 ^ (-n.scale).toNat := by
    have habs := n.abs_value
    rw [abs_eq_natAbs_div, div_eq_div_iff (by positivity) (by positivity)] at habs
    exact_mod_cast habs.symm
  rw [Numeral.rounded, ofDecimal_eq, ofRatio_congr double n.negative hden n.value.den_pos hratio, ofRat]
  by_cases hzero : n.digits = 0
  · have hnum : n.value.num.natAbs = 0 := by
      rw [hzero, Nat.zero_mul, Nat.zero_mul] at hratio
      exact (Nat.mul_eq_zero.mp hratio.symm).resolve_right (Nat.ne_of_gt hden)
    rw [hnum, toInt?_ofRatio_zero _ n.value.den_pos, toInt?_ofRatio_zero _ n.value.den_pos]
  · have hsign : decide (n.value < 0) = n.negative := by
      rw [Bool.eq_iff_iff, decide_eq_true_iff]
      exact Numeral.value_neg_iff hzero
    rw [hsign]

/-! ### Integers -/

theorem ofRat_intCast (f : Format) (i : Int) : ofRat f i = ofInt f i := by
  rw [ofRat, ofInt, Rat.num_intCast, Rat.den_intCast]
  simp

theorem cast_two_pow (k : Nat) : (((2 ^ k : Nat) : Int) : ℚ) = 2 ^ k := by
  push_cast
  rfl

theorem signedUnits_mul (negative : Bool) (count unit : Nat) :
    signedUnits negative (count * unit) = signedUnits negative count * unit := by
  cases negative <;> simp [signedUnits]

theorem signedUnits_natAbs (i : Int) : signedUnits (decide (i < 0)) i.natAbs = i := by
  unfold signedUnits
  split
  next h =>
    have := of_decide_eq_true h
    omega
  next h =>
    have := of_decide_eq_false (Bool.eq_false_iff.mpr h)
    omega

/-- **Integers up to `2 ^ 53`** are doubles. -/
theorem toInt?_ofInt (h : i.natAbs ≤ 2 ^ 53) : (ofInt double i).toInt? = some i := by
  rw [ofInt_eq (Nat.le_trans h (by decide)), doubleUnits_of_le h]
  exact toInt?_finite_eq_some_iff.mpr ⟨i.natAbs, rfl, signedUnits_natAbs i⟩

theorem toRat?_of_toInt? {x : Floating} (h : x.toInt? = some i) : x.toRat? = some (i : ℚ) := by
  cases x with
  | nan | infinite _ => cases h
  | finite negative units =>
    obtain ⟨count, hunits, hcount⟩ := toInt?_finite_eq_some_iff.mp h
    have hread : (finite negative (count * 2 ^ places)).toRat? =
        some ((signedUnits negative (count * 2 ^ places) : ℚ) / 2 ^ places) := rfl
    have hunit : (2 : ℚ) ^ places ≠ 0 := pow_ne_zero places two_ne_zero
    rw [hunits, hread, signedUnits_mul, Int.cast_mul, cast_two_pow, mul_div_cancel_right₀ _ hunit,
      hcount]

/-- An integer that is read of a rational number is this number just where it is a double. -/
theorem isDouble_iff (h : (ofRat double q).toInt? = some i) : IsDouble q ↔ (i : ℚ) = q := by
  rw [IsDouble, toRat?_of_toInt? h, Option.some_inj]

/-! ### The nearest double -/

theorem abs_signedUnits (negative : Bool) (units : Nat) : |(signedUnits negative units : ℚ)| = units := by
  cases negative <;> simp [signedUnits]

/-- How far a number of units is from the magnitude of a rational number, as a ratio. -/
theorem abs_div_sub_abs (count unit : Nat) (hunit : 0 < unit) (q : ℚ) :
    abs ((count : ℚ) / unit - |q|) =
      (((count * q.den : Nat) : Int) - (q.num.natAbs * unit : Nat)).natAbs / (unit * q.den : ℚ) := by
  have hunit : (0 : ℚ) < unit := Nat.cast_pos.mpr hunit
  have hden : (0 : ℚ) < q.den := Nat.cast_pos.mpr q.den_pos
  have hnumerator : (count : ℚ) * q.den - unit * q.num.natAbs =
      (((count * q.den : Nat) : Int) - (q.num.natAbs * unit : Nat) : Int) := by
    rw [Int.cast_sub, Int.cast_natCast, Int.cast_natCast, Nat.cast_mul, Nat.cast_mul,
      mul_comm (unit : ℚ)]
  rw [abs_eq_natAbs_div q, div_sub_div _ _ hunit.ne' hden.ne', abs_div,
    abs_of_pos (mul_pos hunit hden), hnumerator, ← Int.cast_abs, Int.abs_eq_natAbs, Int.cast_natCast]

/-- A number of units with the sign of a rational number is as far from it as from its magnitude. -/
theorem abs_signedUnits_div_sub (count : Nat) (unit q : ℚ) :
    |(signedUnits (decide (q < 0)) count : ℚ) / unit - q| = abs ((count : ℚ) / unit - |q|) := by
  by_cases hneg : q < 0
  · have hsigned : signedUnits (decide (q < 0)) count = -(count : Int) := by
      rw [decide_eq_true hneg]
      rfl
    rw [hsigned, abs_of_neg hneg, ← abs_neg]
    congr 1
    push_cast
    ring
  · have hsigned : signedUnits (decide (q < 0)) count = (count : Int) := by
      rw [decide_eq_false hneg]
      rfl
    rw [hsigned, abs_of_nonneg (not_lt.mp hneg)]
    push_cast
    rfl

/-- What a rational number is rounded to, in units. -/
theorem toRat?_ofRat {r : ℚ} (h : (ofRat double q).toRat? = some r) :
    r = signedUnits (decide (q < 0)) (double.nearest (q.num.natAbs * 2 ^ places) q.den) / 2 ^ places := by
  rw [ofRat, ofRatio, ofUnits, Format.roundUnits?_eq] at h
  split_ifs at h
  · exact (Option.some.inj h).symm
  · cases h

theorem two_pow_places_pos : (0 : ℚ) < 2 ^ places := pow_pos two_pos places

/-- A double is a number of units that the format has. -/
theorem IsDouble.exists_units {y : ℚ} (h : IsDouble y) :
    ∃ units : Nat, 2 ^ double.stepExponent units ∣ units ∧ |y| = units / 2 ^ places := by
  have hunits := toRat?_ofRat h
  generalize hnearest : double.nearest (y.num.natAbs * 2 ^ places) y.den = units at hunits
  have habs : |y| = units / 2 ^ places := by
    rw [hunits, abs_div, abs_signedUnits, abs_of_pos two_pow_places_pos]
  have hratio : y.num.natAbs * 2 ^ places * 1 = units * y.den := by
    have hden : (0 : ℚ) < y.den := Nat.cast_pos.mpr y.den_pos
    rw [abs_eq_natAbs_div, div_eq_div_iff hden.ne' two_pow_places_pos.ne', ← cast_two_pow,
      Int.cast_natCast] at habs
    rw [Nat.mul_one]
    exact_mod_cast habs
  refine ⟨units, Format.dvd_of_nearest_eq ?_, habs⟩
  rw [← Format.nearest_congr double y.den_pos Nat.one_pos hratio, hnearest]

/-- **No double is nearer** to a rational number than the one that it is rounded to. -/
theorem abs_ofRat_sub_le {r y : ℚ} (hr : (ofRat double q).toRat? = some r) (hy : IsDouble y) :
    |r - q| ≤ |y - q| := by
  obtain ⟨units, hunits, hyabs⟩ := hy.exists_units
  have hvalue := toRat?_ofRat hr
  have hprecision : 0 < double.precision := by decide
  have hnearest : ((double.nearest (q.num.natAbs * 2 ^ places) q.den * q.den : Nat) -
      (q.num.natAbs * 2 ^ places : Nat) : Int).natAbs ≤ _ :=
    Format.natAbs_nearest_sub_le q.den_pos hprecision hunits
  generalize double.nearest (q.num.natAbs * 2 ^ places) q.den = count at hvalue hnearest
  have hunit : ((2 ^ places : Nat) : ℚ) = 2 ^ places := by
    rw [← cast_two_pow, Int.cast_natCast]
  have hcompare : abs ((count : ℚ) / 2 ^ places - |q|) ≤ abs ((units : ℚ) / 2 ^ places - |q|) := by
    rw [← hunit, abs_div_sub_abs _ _ (Nat.two_pow_pos places),
      abs_div_sub_abs _ _ (Nat.two_pow_pos places)]
    gcongr
  calc |r - q| = abs ((count : ℚ) / 2 ^ places - |q|) := by rw [hvalue, abs_signedUnits_div_sub]
    _ ≤ abs ((units : ℚ) / 2 ^ places - |q|) := hcompare
    _ = abs (|y| - |q|) := by rw [hyabs]
    _ ≤ |y - q| := abs_abs_sub_abs_le y q

end ItemMapper.Floating
