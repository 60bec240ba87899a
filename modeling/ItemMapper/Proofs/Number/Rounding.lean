import Mathlib.Data.Nat.Basic
import ItemMapper.Number.Floating

/-!
# Rounding to a format

Rounding to the nearest number of a format keeps the order of what is rounded, and leaves alone what the
format has. The numbers around a magnitude are the multiples of a power of two, which grows with the
magnitude, and the powers of two where it grows are numbers on both sides; so two magnitudes that are
rounded to multiples of different powers are kept apart by one of them.

## Main definitions

* `Floating.Format.nearest`: what a magnitude is rounded to, the largest number aside.
* `Floating.doubleUnits`: the magnitude of the double nearest to a natural number.

## Main statements

* `Floating.Format.nearest_mono`: rounding keeps the order.
* `Floating.Format.nearest_congr`: equal ratios are rounded to one number.
* `Floating.Format.natAbs_nearest_sub_le`: no number of the format is nearer.
* `Floating.Format.nearest_of_dvd`: a number of the format is its own nearest one.
* `Floating.Format.nearest_lt`: what is less than half a step below the limit stays finite.
* `Floating.ofInt_eq`: the double nearest to an integer.
-/

namespace ItemMapper.Floating

/-! ### Whole numbers -/

section
variable {num num' den : Nat}

theorem le_roundHalfEven : num / den ≤ roundHalfEven num den := by
  unfold roundHalfEven
  dsimp only
  split <;> omega

theorem roundHalfEven_le : roundHalfEven num den ≤ num / den + 1 := by
  unfold roundHalfEven
  dsimp only
  split <;> omega

theorem roundHalfEven_mul (k : Nat) (hden : 0 < den) : roundHalfEven (k * den) den = k := by
  unfold roundHalfEven
  rw [Nat.mul_mod_left, Nat.mul_div_cancel k hden]
  exact if_neg (by omega)

theorem roundHalfEven_mono (h : num ≤ num') : roundHalfEven num den ≤ roundHalfEven num' den := by
  rcases Nat.lt_or_eq_of_le (Nat.div_le_div_right (c := den) h) with hlt | heq
  · calc roundHalfEven num den
        ≤ num / den + 1 := roundHalfEven_le
      _ ≤ num' / den := hlt
      _ ≤ roundHalfEven num' den := le_roundHalfEven
  · -- Both lie between the same whole numbers, and what is rounded up of the first is so of the second.
    have hrest : num % den ≤ num' % den := by
      have hnum := Nat.div_add_mod num den
      have hnum' := Nat.div_add_mod num' den
      rw [heq] at hnum
      omega
    unfold roundHalfEven
    rw [heq]
    dsimp only
    split <;> split <;> omega

/-- A ratio is rounded as the same ratio of multiples. -/
theorem roundHalfEven_mul_mul (num den : Nat) {k : Nat} (hk : 0 < k) :
    roundHalfEven (num * k) (den * k) = roundHalfEven num den := by
  have hup : 2 * (num % den * k) > den * k ↔ 2 * (num % den) > den := by
    rw [← Nat.mul_assoc]
    exact Nat.mul_lt_mul_right hk
  have htie : 2 * (num % den * k) = den * k ↔ 2 * (num % den) = den := by
    rw [← Nat.mul_assoc]
    exact Nat.mul_left_inj (Nat.ne_of_gt hk)
  unfold roundHalfEven
  rw [Nat.mul_div_mul_right num den hk, Nat.mul_mod_mul_right]
  exact if_congr (or_congr hup (and_congr_left' htie)) rfl rfl

/-- No whole number is nearer to a ratio than the one that it is rounded to. -/
theorem natAbs_roundHalfEven_sub_le (num : Nat) (hden : 0 < den) (other : Nat) :
    ((roundHalfEven num den * den : Nat) - num : Int).natAbs ≤
      ((other * den : Nat) - num : Int).natAbs := by
  have hdiv := Nat.div_add_mod' num den
  have hmod := Nat.mod_lt num hden
  have hhalf : 2 * ((roundHalfEven num den * den : Nat) - num : Int).natAbs ≤ den := by
    unfold roundHalfEven
    dsimp only
    split
    · have hup : (num / den + 1) * den = num / den * den + den := Nat.succ_mul ..
      rw [hup]
      omega
    · omega
  generalize roundHalfEven num den = count at hhalf
  rcases Nat.lt_trichotomy other count with hlt | rfl | hgt
  · have hstep := Nat.mul_le_mul_right den (Nat.succ_le_of_lt hlt)
    rw [Nat.succ_mul] at hstep
    omega
  · exact Nat.le_refl _
  · have hstep := Nat.mul_le_mul_right den (Nat.succ_le_of_lt hgt)
    rw [Nat.succ_mul] at hstep
    omega

/-- What is less than half a unit below a whole number is rounded to a smaller one. -/
theorem roundHalfEven_lt {count : Nat} (hden : 0 < den) (h : 2 * num + den < 2 * (count * den)) :
    roundHalfEven num den < count := by
  have hdiv := Nat.div_add_mod num den
  have hmod := Nat.mod_lt num hden
  have hquotient : num / den < count := (Nat.div_lt_iff_lt_mul hden).mpr (by omega)
  rcases Nat.lt_or_eq_of_le (Nat.succ_le_of_lt hquotient) with hlt | hlast
  · have hle : roundHalfEven num den ≤ num / den + 1 := roundHalfEven_le
    omega
  · have hcount : count * den = den * (num / den) + den := by
      rw [← hlast, Nat.succ_mul, Nat.mul_comm]
    have hdown : roundHalfEven num den = num / den := by
      unfold roundHalfEven
      exact if_neg (by omega)
    rw [hdown]
    exact hquotient

end

/-! ### Numbers of a format -/

namespace Format

/-- What a magnitude of `num / den` units is rounded to, if there is no largest number. -/
def nearest (f : Format) (num den : Nat) : Nat :=
  roundHalfEven num (den * 2 ^ f.stepExponent (num / den)) * 2 ^ f.stepExponent (num / den)

theorem roundUnits?_eq (f : Format) (num den : Nat) :
    f.roundUnits? num den =
      if f.nearest num den < 2 ^ f.limit then some (f.nearest num den) else none := rfl

variable {f : Format} {num num' den point : Nat}

/-- A multiple of the step that is not above a magnitude is not above what this is rounded to. -/
theorem le_nearest (hden : 0 < den) (hpoint : 2 ^ f.stepExponent (num / den) ∣ point)
    (h : point * den ≤ num) : point ≤ f.nearest num den := by
  obtain ⟨k, rfl⟩ := hpoint
  have hstep : 0 < den * 2 ^ f.stepExponent (num / den) := Nat.mul_pos hden (Nat.two_pow_pos _)
  have hround : k ≤ roundHalfEven num (den * 2 ^ f.stepExponent (num / den)) := by
    rw [← roundHalfEven_mul k hstep]
    refine roundHalfEven_mono (Nat.le_trans (Nat.le_of_eq ?_) h)
    ac_rfl
  rw [nearest, Nat.mul_comm]
  exact Nat.mul_le_mul_right _ hround

/-- A multiple of the step that is not below a magnitude is not below what this is rounded to. -/
theorem nearest_le (hden : 0 < den) (hpoint : 2 ^ f.stepExponent (num / den) ∣ point)
    (h : num ≤ point * den) : f.nearest num den ≤ point := by
  obtain ⟨k, rfl⟩ := hpoint
  have hstep : 0 < den * 2 ^ f.stepExponent (num / den) := Nat.mul_pos hden (Nat.two_pow_pos _)
  have hround : roundHalfEven num (den * 2 ^ f.stepExponent (num / den)) ≤ k := by
    rw [← roundHalfEven_mul k hstep]
    refine roundHalfEven_mono (Nat.le_trans h (Nat.le_of_eq ?_))
    ac_rfl
  rw [nearest, Nat.mul_comm _ k]
  exact Nat.mul_le_mul_right _ hround

theorem stepExponent_mono {whole whole' : Nat} (h : whole ≤ whole') :
    f.stepExponent whole ≤ f.stepExponent whole' := by
  have hlog : whole.log2 ≤ whole'.log2 := by
    by_cases hzero : whole = 0
    · rw [hzero, Nat.log2_zero]
      exact Nat.zero_le _
    · exact (Nat.le_log2 (by omega)).mpr (Nat.le_trans (Nat.log2_self_le hzero) h)
  unfold stepExponent
  omega

/-- Rounding keeps the order. -/
theorem nearest_mono (hden : 0 < den) (hprecision : 0 < f.precision) (h : num ≤ num') :
    f.nearest num den ≤ f.nearest num' den := by
  have hwhole : num / den ≤ num' / den := Nat.div_le_div_right h
  rcases Nat.lt_or_eq_of_le (stepExponent_mono (f := f) hwhole) with hlt | heq
  · -- The power of two at the second magnitude lies between both, and is a multiple of both steps.
    generalize hpower : (num' / den).log2 = power
    have hexponent : f.stepExponent (num' / den) ≤ power := by
      unfold stepExponent at hlt ⊢
      omega
    have hne : num' / den ≠ 0 := by
      intro hzero
      have hboth : num / den = num' / den := Nat.le_antisymm hwhole (hzero ▸ Nat.zero_le _)
      rw [hboth] at hlt
      exact Nat.lt_irrefl _ hlt
    have hbelow : 2 ^ power ≤ num' / den := hpower ▸ Nat.log2_self_le hne
    have habove : num / den < 2 ^ power := by
      by_cases hzero : num / den = 0
      · rw [hzero]
        exact Nat.two_pow_pos _
      · refine (Nat.log2_lt hzero).mp ?_
        unfold stepExponent at hlt
        omega
    calc f.nearest num den
        ≤ 2 ^ power := by
          refine nearest_le hden (Nat.pow_dvd_pow 2 (by omega)) ?_
          exact Nat.le_of_lt ((Nat.div_lt_iff_lt_mul hden).mp habove)
      _ ≤ f.nearest num' den := by
          refine le_nearest hden (Nat.pow_dvd_pow 2 hexponent) ?_
          exact (Nat.le_div_iff_mul_le hden).mp hbelow
  · unfold nearest
    rw [heq]
    exact Nat.mul_le_mul_right _ (roundHalfEven_mono h)

/-- What is rounded to itself is a multiple of its step. -/
theorem dvd_of_nearest_eq (h : f.nearest num 1 = num) : 2 ^ f.stepExponent num ∣ num := by
  rw [nearest, Nat.div_one] at h
  exact ⟨_, h.symm.trans (Nat.mul_comm _ _)⟩

/-- **No number of the format is nearer** to a magnitude than the one that it is rounded to. -/
theorem natAbs_nearest_sub_le (hden : 0 < den) (hprecision : 0 < f.precision)
    (hpoint : 2 ^ f.stepExponent point ∣ point) :
    ((f.nearest num den * den : Nat) - num : Int).natAbs ≤
      ((point * den : Nat) - num : Int).natAbs := by
  -- a multiple of the step at the magnitude is no nearer, as this is rounded to such a multiple
  have hmultiple : ∀ {k}, 2 ^ f.stepExponent (num / den) ∣ k →
      ((f.nearest num den * den : Nat) - num : Int).natAbs ≤ ((k * den : Nat) - num : Int).natAbs := by
    rintro _ ⟨count, rfl⟩
    have hstep : 0 < den * 2 ^ f.stepExponent (num / den) := Nat.mul_pos hden (Nat.two_pow_pos _)
    have hround := natAbs_roundHalfEven_sub_le num hstep count
    have hproduct : ∀ count, count * (den * 2 ^ f.stepExponent (num / den)) =
        count * 2 ^ f.stepExponent (num / den) * den := fun count => by
      rw [Nat.mul_comm den, Nat.mul_assoc]
    rw [hproduct, hproduct] at hround
    rwa [Nat.mul_comm _ count]
  by_cases hdvd : 2 ^ f.stepExponent (num / den) ∣ point
  · exact hmultiple hdvd
  · -- any other number is below the power of two at the magnitude, which is such a multiple
    have hlt : f.stepExponent point < f.stepExponent (num / den) :=
      Nat.not_le.mp fun hle => hdvd (Nat.dvd_trans (Nat.pow_dvd_pow 2 hle) hpoint)
    have hne : num / den ≠ 0 := by
      intro hzero
      rw [hzero] at hlt
      unfold stepExponent at hlt
      rw [Nat.log2_zero] at hlt
      omega
    have hexponent : f.stepExponent (num / den) ≤ (num / den).log2 := by
      unfold stepExponent at hlt ⊢
      omega
    have hbelow : point < 2 ^ (num / den).log2 := by
      by_cases hzero : point = 0
      · rw [hzero]
        exact Nat.two_pow_pos _
      · refine (Nat.log2_lt hzero).mp ?_
        unfold stepExponent at hlt
        omega
    have hpower := hmultiple (Nat.pow_dvd_pow 2 hexponent)
    have hle : 2 ^ (num / den).log2 * den ≤ num :=
      (Nat.le_div_iff_mul_le hden).mp (Nat.log2_self_le hne)
    have hscaled := Nat.mul_le_mul_right den (Nat.le_of_lt hbelow)
    omega

/-- A ratio is rounded as the same ratio of multiples. -/
theorem nearest_mul_mul (f : Format) (num den : Nat) {k : Nat} (hk : 0 < k) :
    f.nearest (num * k) (den * k) = f.nearest num den := by
  unfold nearest
  rw [Nat.mul_div_mul_right num den hk, Nat.mul_right_comm den k, roundHalfEven_mul_mul _ _ hk]

/-- Equal ratios are rounded to one number. -/
theorem nearest_congr (f : Format) {den' : Nat} (hden : 0 < den) (hden' : 0 < den')
    (h : num * den' = num' * den) : f.nearest num den = f.nearest num' den' := by
  rw [← nearest_mul_mul f num den hden', ← nearest_mul_mul f num' den' hden, h, Nat.mul_comm den]

/-- A number of the format is its own nearest one. -/
theorem nearest_of_dvd (h : 2 ^ f.stepExponent num ∣ num) : f.nearest num 1 = num := by
  have hstep : 2 ^ f.stepExponent (num / 1) ∣ num := by rwa [Nat.div_one]
  exact Nat.le_antisymm (nearest_le Nat.one_pos hstep (Nat.le_of_eq (Nat.mul_one num).symm))
    (le_nearest Nat.one_pos hstep (Nat.le_of_eq (Nat.mul_one num)))

/-- Above the smallest step, twice a magnitude is rounded to twice what the magnitude is. -/
theorem nearest_two_mul (hne : num ≠ 0) (hgrain : f.grain + f.precision ≤ num.log2 + 1) :
    f.nearest (2 * num) 1 = 2 * f.nearest num 1 := by
  have hstep : f.stepExponent (2 * num) = f.stepExponent num + 1 := by
    unfold stepExponent
    rw [Nat.log2_two_mul hne]
    omega
  have hround : ∀ step, roundHalfEven (2 * num) (2 * step) = roundHalfEven num step := by
    intro step
    rw [Nat.mul_comm 2, Nat.mul_comm 2, roundHalfEven_mul_mul _ _ Nat.two_pos]
  unfold nearest
  rw [Nat.div_one, Nat.div_one, Nat.one_mul, Nat.one_mul, hstep, Nat.pow_succ, Nat.mul_comm _ 2, hround]
  ac_rfl

/-- The limit of a format is a power of two of its largest steps. -/
theorem two_pow_limit (htop : f.grain + f.precision ≤ f.limit) :
    2 ^ f.limit = 2 ^ f.precision * 2 ^ (f.limit - f.precision) := by
  rw [Nat.mul_comm, Nat.pow_sub_mul_pow 2 (by omega)]

/-- What is less than half a step below the limit is rounded to a number below the limit. -/
theorem nearest_lt (hden : 0 < den) (hprecision : 0 < f.precision) (htop : f.grain + f.precision ≤ f.limit)
    (h : 2 * num + 2 ^ (f.limit - f.precision) * den < 2 * (2 ^ f.limit * den)) :
    f.nearest num den < 2 ^ f.limit := by
  generalize htopStep : f.limit - f.precision = top at h
  have hwhole : num / den < 2 ^ f.limit := (Nat.div_lt_iff_lt_mul hden).mpr (by omega)
  have hexponent : f.stepExponent (num / den) ≤ top := by
    unfold stepExponent
    by_cases hzero : num / den = 0
    · rw [hzero, Nat.log2_zero]
      omega
    · have hlog := (Nat.log2_lt hzero).mpr hwhole
      omega
  rcases Nat.lt_or_eq_of_le hexponent with hlt | heq
  · -- With a smaller step, the number before the limit is not below the magnitude.
    have hstep : 2 ^ f.stepExponent (num / den) ∣ 2 ^ f.limit := Nat.pow_dvd_pow 2 (by omega)
    have hdouble : 2 * 2 ^ f.stepExponent (num / den) ≤ 2 ^ top := by
      rw [Nat.mul_comm, ← Nat.pow_succ]
      exact Nat.pow_le_pow_right Nat.two_pos hlt
    have hle : f.nearest num den ≤ 2 ^ f.limit - 2 ^ f.stepExponent (num / den) := by
      refine nearest_le hden (Nat.dvd_sub hstep (Nat.dvd_refl _)) ?_
      have hscaled := Nat.mul_le_mul_right den hdouble
      rw [Nat.mul_assoc] at hscaled
      rw [Nat.sub_mul]
      omega
    have hlimit := Nat.two_pow_pos f.limit
    have hpositive := Nat.two_pow_pos (f.stepExponent (num / den))
    omega
  · have hlimit : 2 ^ f.limit = 2 ^ f.precision * 2 ^ top := htopStep ▸ two_pow_limit htop
    have hround : roundHalfEven num (den * 2 ^ top) < 2 ^ f.precision := by
      refine roundHalfEven_lt (Nat.mul_pos hden (Nat.two_pow_pos top)) ?_
      rw [hlimit] at h
      calc 2 * num + den * 2 ^ top
          = 2 * num + 2 ^ top * den := by rw [Nat.mul_comm den]
        _ < 2 * (2 ^ f.precision * 2 ^ top * den) := h
        _ = 2 * (2 ^ f.precision * (den * 2 ^ top)) := by ac_rfl
    unfold nearest
    rw [heq, hlimit]
    exact Nat.mul_lt_mul_of_pos_right hround (Nat.two_pow_pos top)

end Format

/-! ### Doubles near integers -/

/-- The magnitude of the double nearest to a natural number. -/
def doubleUnits (n : Nat) : Nat := double.nearest (n * 2 ^ places) 1

theorem doubleUnits_mono {m n : Nat} (h : m ≤ n) : doubleUnits m ≤ doubleUnits n :=
  Format.nearest_mono Nat.one_pos (by decide) (Nat.mul_le_mul_right _ h)

theorem le_log2_mul_two_pow {n : Nat} (hn : n ≠ 0) (k : Nat) : k ≤ (n * 2 ^ k).log2 := by
  refine (Nat.le_log2 (Nat.mul_ne_zero hn (Nat.pos_iff_ne_zero.mp (Nat.two_pow_pos k)))).mpr ?_
  exact Nat.le_mul_of_pos_left _ (Nat.pos_of_ne_zero hn)

theorem doubleUnits_two_mul {n : Nat} (hn : n ≠ 0) : doubleUnits (2 * n) = 2 * doubleUnits n := by
  have hlog : places ≤ (n * 2 ^ places).log2 := le_log2_mul_two_pow hn places
  unfold doubleUnits
  rw [Nat.mul_assoc]
  refine Format.nearest_two_mul (Nat.mul_ne_zero hn (Nat.pos_iff_ne_zero.mp (Nat.two_pow_pos places))) ?_
  change 0 + 53 ≤ _
  unfold places at hlog ⊢
  omega

/-- Up to `2 ^ 53` each natural number is a double. -/
theorem doubleUnits_of_le {n : Nat} (h : n ≤ 2 ^ 53) : doubleUnits n = n * 2 ^ places := by
  rcases Nat.lt_or_eq_of_le h with hlt | rfl
  · refine Format.nearest_of_dvd (Nat.dvd_mul_left_of_dvd (Nat.pow_dvd_pow 2 ?_) n)
    by_cases hzero : n * 2 ^ places = 0
    · rw [hzero]
      decide
    · have hlog : (n * 2 ^ places).log2 < 53 + places := by
        refine (Nat.log2_lt hzero).mpr ?_
        rw [Nat.pow_add]
        exact Nat.mul_lt_mul_of_pos_right hlt (Nat.two_pow_pos places)
      change max (_ + 1 - 53) 0 ≤ _
      omega
  · refine Format.nearest_of_dvd ?_
    rw [← Nat.pow_add]
    refine Nat.pow_dvd_pow 2 ?_
    unfold Format.stepExponent
    rw [Nat.log2_two_pow]
    decide

theorem doubleUnits_pos {n : Nat} (h : 0 < n) : 0 < doubleUnits n := by
  calc 0 < 1 * 2 ^ places := Nat.mul_pos Nat.one_pos (Nat.two_pow_pos places)
    _ = doubleUnits 1 := (doubleUnits_of_le (by decide)).symm
    _ ≤ doubleUnits n := doubleUnits_mono h

/-- The step of the largest doubles is below the limit. -/
theorem step_lt_limit : 2 ^ (double.limit - double.precision) < 2 ^ double.limit :=
  Nat.pow_lt_pow_right (by decide) (by decide)

/-- The double nearest to an integer of at most 128 bits is finite. -/
theorem ofInt_eq {i : Int} (h : i.natAbs ≤ 2 ^ 128) :
    ofInt double i = finite (i < 0) (doubleUnits i.natAbs) := by
  have hunits : i.natAbs * 2 ^ places ≤ 2 ^ 128 * 2 ^ places := Nat.mul_le_mul_right _ h
  have hlarge : 2 * (2 ^ 128 * 2 ^ places) < 2 ^ double.limit := by
    rw [← Nat.pow_add, ← Nat.pow_succ']
    exact Nat.pow_lt_pow_right (by decide) (by decide)
  have hfinite : doubleUnits i.natAbs < 2 ^ double.limit := by
    refine Format.nearest_lt Nat.one_pos (by decide) (by decide) ?_
    have hstep := step_lt_limit
    omega
  have hround : double.roundUnits? (i.natAbs * 2 ^ places) 1 = some (doubleUnits i.natAbs) := by
    rw [Format.roundUnits?_eq]
    exact if_pos hfinite
  rw [ofInt, ofRatio, ofUnits, hround]

end ItemMapper.Floating
