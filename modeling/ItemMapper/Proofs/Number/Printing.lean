import ItemMapper.Proofs.Number.Scaling

/-!
# Printed numbers are read as finite numbers

The decimal that is printed for a finite double lies among the reals that are nearest to it, or is a whole
number below it, and so is less than half a step below the limit of the format. Its text is a plain decimal
of the same value, because the zeros around the digits and at the end of the fraction change nothing.

## Main definitions

* `Floating.Format.Has`: the numbers of a format.
* `Floating.Format.Leaves`: the ratios that are rounded to numbers below the limit.

## Main statements

* `Floating.Format.leaves_shortest`: the printed decimal stays below the limit.
* `Floating.exists_plain`: the text of a decimal is a plain decimal of its value.
* `Floating.readDouble?_print`: a printed double is read as a finite number.
-/

namespace ItemMapper.Floating

/-- The numbers of a format. -/
def Format.Has (f : Format) : Floating → Prop
  | finite _ units => f.roundUnits? units 1 = some units
  | _ => True

/-! ### The printed decimal -/

/-- The ratio `num / den` is below the limit of a format by more than half the largest step. -/
def Format.Leaves (f : Format) (num den : Nat) : Prop :=
  2 * (num * 2 ^ places) + 2 ^ (f.limit - f.precision) * den < 2 * (2 ^ f.limit * den)

theorem gridPoint?_contains {tie : Tie} {i : Interval} {scale : Int} {count : Nat} {d : Decimal}
    (h : gridPoint? tie i scale count = some d) :
    i.contains (d.digits * 10 ^ d.exponent.toNat) (10 ^ (-d.exponent).toNat) = true := by
  unfold gridPoint? at h
  dsimp only at h
  split at h
  · rename_i hbelow habove
    cases h
    unfold Tie.nearest
    dsimp only
    split
    · exact hbelow
    · exact habove
  · rename_i hbelow _
    cases h
    exact hbelow
  · rename_i _ habove
    cases h
    exact habove
  · cases h

theorem firstGrid_cases (tie : Tie) (i : Interval) (scale : Int) (count fuel : Nat) :
    i.contains ((firstGrid tie i scale count fuel).digits *
        10 ^ (firstGrid tie i scale count fuel).exponent.toNat)
        (10 ^ (-(firstGrid tie i scale count fuel).exponent).toNat) = true ∨
      firstGrid tie i scale count fuel = ⟨i.value / i.den, 0⟩ := by
  induction fuel generalizing count with
  | zero => exact .inr rfl
  | succ fuel ih =>
    unfold firstGrid
    split
    · rename_i d h
      exact .inl (gridPoint?_contains h)
    · exact ih (count + 1)

namespace Format

variable {f : Format} {units num den : Nat}

theorem dvd_of_roundUnits? (h : f.roundUnits? units 1 = some units) :
    units < 2 ^ f.limit ∧ 2 ^ f.stepExponent units ∣ units := by
  rw [roundUnits?_eq] at h
  split at h
  · rename_i hlt
    have heq := Option.some.inj h
    rw [nearest, Nat.div_one] at heq
    exact ⟨by rwa [Option.some.inj h] at hlt, ⟨_, heq.symm.trans (Nat.mul_comm _ _)⟩⟩
  · cases h

/-- Where the numbers of a format end: a magnitude with less than the largest step is less than half the
limit, and one with the largest step is a smaller multiple of it than the limit is. -/
theorem top_cases (hprecision : 2 ≤ f.precision) (htop : f.grain + f.precision ≤ f.limit)
    (hfits : f.roundUnits? units 1 = some units) :
    2 * units + 2 ^ f.stepExponent units + 2 ^ (f.limit - f.precision) < 2 * 2 ^ f.limit ∨
      2 ^ f.stepExponent units = 2 ^ (f.limit - f.precision) ∧ ∃ count,
        units = count * 2 ^ (f.limit - f.precision) ∧ count < 2 ^ f.precision := by
  obtain ⟨hlt, hdvd⟩ := dvd_of_roundUnits? hfits
  have hlog : units.log2 < f.limit := by
    by_cases hzero : units = 0
    · rw [hzero, Nat.log2_zero]
      omega
    · exact (Nat.log2_lt hzero).mpr hlt
  have hexponent : f.stepExponent units ≤ f.limit - f.precision := by
    unfold stepExponent
    omega
  rcases Nat.lt_or_eq_of_le hexponent with hsmall | hlargest
  · refine .inl ?_
    have hhalf : 2 * units < 2 ^ f.limit := by
      have hsmaller : units < 2 ^ (f.limit - 1) := by
        refine Nat.lt_of_lt_of_le Nat.lt_log2_self (Nat.pow_le_pow_right Nat.two_pos ?_)
        unfold stepExponent at hsmall
        omega
      have hsucc : (2 : Nat) ^ f.limit = 2 * 2 ^ (f.limit - 1) := by
        rw [Nat.mul_comm, ← Nat.pow_succ]
        congr 1
        omega
      omega
    have hstep : 2 ^ f.stepExponent units ≤ 2 ^ (f.limit - f.precision) :=
      Nat.pow_le_pow_right Nat.two_pos hexponent
    have hquarter : 2 ^ 2 * 2 ^ (f.limit - f.precision) ≤ 2 ^ f.limit := by
      rw [two_pow_limit htop]
      exact Nat.mul_le_mul_right _ (Nat.pow_le_pow_right Nat.two_pos hprecision)
    omega
  · refine .inr ⟨congrArg (2 ^ ·) hlargest, ?_⟩
    rw [hlargest] at hdvd
    obtain ⟨count, rfl⟩ := hdvd
    refine ⟨count, Nat.mul_comm _ _, ?_⟩
    rw [two_pow_limit htop, Nat.mul_comm] at hlt
    exact Nat.lt_of_mul_lt_mul_right hlt

/-- What the interval of a number says about a ratio in it. -/
theorem contains_interval (h : (f.interval units).contains num den = true) :
    4 * (num * 2 ^ places) ≤ (4 * units + 2 * 2 ^ f.stepExponent units) * den ∧
      ((units / 2 ^ f.stepExponent units) % 2 = 1 →
        4 * (num * 2 ^ places) < (4 * units + 2 * 2 ^ f.stepExponent units) * den) := by
  have hnum : num * (4 * 2 ^ places) = 4 * (num * 2 ^ places) := Nat.mul_left_comm num 4 _
  unfold Interval.contains interval at h
  dsimp only at h
  rw [hnum] at h
  split at h
  · rename_i hclosed
    rw [Bool.and_eq_true, decide_eq_true_eq, decide_eq_true_eq] at h
    refine ⟨h.2, fun hodd => ?_⟩
    rw [decide_eq_true_eq, hodd] at hclosed
    cases hclosed
  · rw [Bool.and_eq_true, decide_eq_true_eq, decide_eq_true_eq] at h
    exact ⟨Nat.le_of_lt h.2, fun _ => h.2⟩

/-- The reals that are nearest to a number of the format are less than half a step below the limit. Where
the next number would be the limit, the number has an odd last digit, and the end of its interval does not
belong to it. -/
theorem lt_of_interval (hprecision : 2 ≤ f.precision) (htop : f.grain + f.precision ≤ f.limit)
    (hfits : f.roundUnits? units 1 = some units) (hden : 0 < den)
    (h : (f.interval units).contains num den = true) : f.Leaves num den := by
  obtain ⟨hle, hopen⟩ := contains_interval h
  unfold Leaves
  rcases top_cases hprecision htop hfits with hroom | ⟨hstep, count, hunits, hcount⟩
  · have hscaled := Nat.mul_lt_mul_of_pos_right hroom hden
    simp only [Nat.add_mul, Nat.mul_assoc] at hle hscaled
    omega
  · have heven : (2 : Nat) ^ f.precision % 2 = 0 := by
      have hsucc : f.precision = f.precision - 1 + 1 := by omega
      rw [hsucc, Nat.pow_succ, Nat.mul_mod_left]
    have hquotient : units / 2 ^ f.stepExponent units = count := by
      rw [hstep, hunits, Nat.mul_div_cancel _ (Nat.two_pow_pos _)]
    rw [hquotient] at hopen
    rw [hstep, hunits] at hle hopen
    rw [two_pow_limit htop]
    generalize 2 ^ (f.limit - f.precision) = step at *
    have hpos : 0 < step * den := by
      refine Nat.mul_pos (Nat.pos_of_ne_zero ?_) hden
      rintro rfl
      exact absurd hstep (Nat.pos_iff_ne_zero.mp (Nat.two_pow_pos _))
    rcases Nat.mod_two_eq_zero_or_one count with hcase | hcase
    · have hnext : count + 2 ≤ 2 ^ f.precision := by omega
      have hscaled := Nat.mul_le_mul_right (step * den) hnext
      simp only [Nat.add_mul, Nat.mul_assoc] at hle hscaled ⊢
      omega
    · have hscaled := Nat.mul_le_mul_right (step * den) (Nat.succ_le_of_lt hcount)
      have hless := hopen hcase
      simp only [Nat.succ_mul, Nat.add_mul, Nat.mul_assoc] at hless hscaled ⊢
      omega

/-- A whole number that is not above a number of the format is less than half a step below the limit. -/
theorem leaves_of_le (hprecision : 2 ≤ f.precision) (htop : f.grain + f.precision ≤ f.limit)
    (hfits : f.roundUnits? units 1 = some units) (h : num * 2 ^ places ≤ units) : f.Leaves num 1 := by
  unfold Leaves
  rcases top_cases hprecision htop hfits with hroom | ⟨-, count, rfl, hcount⟩
  · have hstep := Nat.two_pow_pos (f.stepExponent units)
    omega
  · have hscaled := Nat.mul_le_mul_right (2 ^ (f.limit - f.precision)) (Nat.succ_le_of_lt hcount)
    have hpos := Nat.two_pow_pos (f.limit - f.precision)
    rw [Nat.succ_mul] at hscaled
    rw [two_pow_limit htop]
    omega

/-- The decimal that is printed for a positive number of the format is less than half a step below the
limit. -/
theorem leaves_shortest (hprecision : 2 ≤ f.precision) (htop : f.grain + f.precision ≤ f.limit)
    (hfits : f.roundUnits? units 1 = some units) (tie : Tie) :
    f.Leaves ((shortest tie f units).digits * 10 ^ (shortest tie f units).exponent.toNat)
      (10 ^ (-(shortest tie f units).exponent).toNat) := by
  unfold shortest
  dsimp only
  generalize decimalScale _ _ = scale
  rcases firstGrid_cases tie (f.interval units) scale 1 17 with hcontains | hwhole
  · exact lt_of_interval hprecision htop hfits (Nat.pow_pos (by decide)) hcontains
  · rw [hwhole]
    refine leaves_of_le hprecision htop hfits ?_
    have hdigits : (f.interval units).value / (f.interval units).den = units / 2 ^ places :=
      Nat.mul_div_mul_left units (2 ^ places) (by decide)
    dsimp only
    rw [hdigits, Int.toNat_zero, Nat.pow_zero, Nat.mul_one]
    exact Nat.div_mul_le_self units (2 ^ places)

end Format

/-! ### Reading the printed decimal -/

theorem isFinite_ofRatio {negative : Bool} {num den : Nat} (hden : 0 < den)
    (h : double.Leaves num den) : (ofRatio double negative num den).isFinite = true := by
  have hlt : double.nearest (num * 2 ^ places) den < 2 ^ double.limit :=
    Format.nearest_lt hden (by decide) (by decide) h
  have hround : double.roundUnits? (num * 2 ^ places) den = some (double.nearest (num * 2 ^ places) den) := by
    rw [Format.roundUnits?_eq]
    exact if_pos hlt
  rw [ofRatio, ofUnits, hround]
  rfl

/-- A decimal below the limit is read as a finite number. -/
theorem isFinite_ofDecimal {negative : Bool} {digits : Nat} {exponent : Int}
    (h : double.Leaves (digits * 10 ^ exponent.toNat) (10 ^ (-exponent).toNat)) :
    (ofDecimal double negative digits exponent).isFinite = true := by
  rw [ofDecimal_eq]
  exact isFinite_ofRatio (Nat.pow_pos (by decide)) h

theorem Format.Leaves.of_mul_eq {f : Format} {num den num' den' : Nat} (h : f.Leaves num den)
    (hden' : 0 < den') (heq : num' * den = num * den') : f.Leaves num' den' := by
  unfold Format.Leaves at h ⊢
  refine Nat.lt_of_mul_lt_mul_right (a := den) ?_
  have hscaled := Nat.mul_lt_mul_of_pos_right h hden'
  calc (2 * (num' * 2 ^ places) + 2 ^ (f.limit - f.precision) * den') * den
      = 2 * (num' * den * 2 ^ places) + 2 ^ (f.limit - f.precision) * den' * den := by
        rw [Nat.add_mul, Nat.mul_assoc 2, Nat.mul_right_comm num']
    _ = (2 * (num * 2 ^ places) + 2 ^ (f.limit - f.precision) * den) * den' := by
        rw [heq, Nat.add_mul, Nat.mul_assoc 2, Nat.mul_right_comm num, Nat.mul_right_comm _ den den']
    _ < 2 * (2 ^ f.limit * den) * den' := hscaled
    _ = 2 * (2 ^ f.limit * den') * den := by
        rw [Nat.mul_assoc 2, Nat.mul_assoc 2, Nat.mul_right_comm]

theorem digitsValue_zeros (start count : Nat) :
    digitsValue start (List.replicate count '0') = start * 10 ^ count := by
  induction count generalizing start with
  | zero => exact (Nat.mul_one start).symm
  | succ count ih =>
    change digitsValue (start * 10 + 0) (List.replicate count '0') = _
    rw [ih, Nat.pow_succ, Nat.add_zero, Nat.mul_assoc, Nat.mul_comm 10]

theorem digitsValue_append (start : Nat) (xs ys : List Char) :
    digitsValue start (xs ++ ys) = digitsValue (digitsValue start xs) ys := List.foldl_append

/-- Digits without the zeros at their end. -/
theorem exists_zeros (digits : List Char) : ∃ count,
    digits = (digits.reverse.dropWhile (· == '0')).reverse ++ List.replicate count '0' := by
  refine ⟨(digits.reverse.takeWhile (· == '0')).length, ?_⟩
  have hzeros : (digits.reverse.takeWhile (· == '0')).reverse =
      List.replicate (digits.reverse.takeWhile (· == '0')).length '0' := by
    refine List.eq_replicate_iff.mpr ⟨List.length_reverse, fun c hc => ?_⟩
    exact eq_of_beq (List.mem_takeWhile_imp (p := (· == '0')) (List.mem_reverse.mp hc))
  rw [← hzeros, ← List.reverse_append, List.takeWhile_append_dropWhile, List.reverse_reverse]

/-- The text of a decimal is a plain decimal of the same value. -/
theorem exists_plain (d : Decimal) : ∃ whole fraction, d.text = String.ofList (plain whole fraction) ∧
    whole ≠ [] ∧ (∀ c ∈ whole, isDigit c = true) ∧ (∀ c ∈ fraction, isDigit c = true) ∧
    digitsValue 0 (whole ++ fraction) * 10 ^ (-d.exponent).toNat =
      d.digits * 10 ^ d.exponent.toNat * 10 ^ fraction.length := by
  have hdigits : ∀ c ∈ Nat.toDigits 10 d.digits, isDigit c = true := fun c hc =>
    isDigit_of_mem_toDigits hc
  have hzeros : ∀ count, ∀ c ∈ List.replicate count '0', isDigit c = true := by
    intro count c hc
    rw [List.eq_of_mem_replicate hc]
    rfl
  unfold Decimal.text
  dsimp only
  by_cases hexponent : 0 ≤ d.exponent
  · refine ⟨Nat.toDigits 10 d.digits ++ List.replicate d.exponent.toNat '0', [], if_pos hexponent, ?_,
      List.forall_mem_append.mpr ⟨hdigits, hzeros _⟩, List.forall_mem_nil _, ?_⟩
    · exact List.append_ne_nil_of_left_ne_nil (toDigits_ne_nil _) _
    · have hnone : (-d.exponent).toNat = 0 := by omega
      rw [List.append_nil, digitsValue_append, digitsValue_toDigits, digitsValue_zeros, hnone]
      rfl
  · generalize hcount : (-d.exponent).toNat = count
    generalize hpadded : List.replicate (count + 1 - (Nat.toDigits 10 d.digits).length) '0' ++
      Nat.toDigits 10 d.digits = padded
    have hall : ∀ c ∈ padded, isDigit c = true :=
      hpadded ▸ List.forall_mem_append.mpr ⟨hzeros _, hdigits⟩
    have hlength : count + 1 ≤ padded.length := by
      rw [← hpadded, List.length_append, List.length_replicate]
      omega
    have hvalue : digitsValue 0 padded = d.digits := by
      rw [← hpadded, digitsValue_append, digitsValue_zeros, Nat.zero_mul, digitsValue_toDigits]
    obtain ⟨zeros, hfraction⟩ := exists_zeros (padded.drop (padded.length - count))
    generalize ((padded.drop (padded.length - count)).reverse.dropWhile (· == '0')).reverse = kept
      at hfraction
    generalize hwhole : padded.take (padded.length - count) = whole
    have hsplit : padded = whole ++ kept ++ List.replicate zeros '0' := by
      rw [List.append_assoc, ← hfraction, ← hwhole, List.take_append_drop]
    have hdropped : kept.length + zeros = count := by
      have hlengths := congrArg List.length hfraction
      rw [List.length_drop, List.length_append, List.length_replicate] at hlengths
      omega
    have hnone : d.exponent.toNat = 0 := by omega
    refine ⟨whole, kept, ?_, ?_, ?_, ?_, ?_⟩
    · rw [if_neg hexponent]
      unfold plain
      simp only [List.isEmpty_iff]
    · rintro rfl
      have hempty := congrArg List.length hwhole
      rw [List.length_take, List.length_nil] at hempty
      omega
    · exact fun c hc => hall c (by rw [hsplit]; simp [hc])
    · exact fun c hc => hall c (by rw [hsplit]; simp [hc])
    · rw [hsplit, digitsValue_append 0 (whole ++ kept), digitsValue_zeros] at hvalue
      rw [hnone, Nat.pow_zero, Nat.mul_one, ← hvalue, ← hdropped, Nat.add_comm, Nat.pow_add,
        Nat.mul_assoc]

/-- The magnitude of a finite double is printed as a plain decimal below the limit. -/
theorem exists_plain_magnitude {units : Nat} (hfits : double.roundUnits? units 1 = some units) :
    ∃ whole fraction, (if units = 0 then "0" else (shortest .up double units).text) =
        String.ofList (plain whole fraction) ∧ whole ≠ [] ∧ (∀ c ∈ whole, isDigit c = true) ∧
      (∀ c ∈ fraction, isDigit c = true) ∧
      double.Leaves (digitsValue 0 (whole ++ fraction)) (10 ^ fraction.length) := by
  by_cases hzero : units = 0
  · refine ⟨['0'], [], if_pos hzero, List.cons_ne_nil _ _, List.forall_mem_singleton.mpr rfl,
      List.forall_mem_nil _, ?_⟩
    have hvalue : digitsValue 0 (['0'] ++ []) = 0 := by decide
    have hstep := step_lt_limit
    unfold Format.Leaves
    rw [hvalue, List.length_nil, Nat.pow_zero]
    omega
  · obtain ⟨whole, fraction, htext, hne, hwhole, hfraction, hvalue⟩ :=
      exists_plain (shortest .up double units)
    refine ⟨whole, fraction, (if_neg hzero).trans htext, hne, hwhole, hfraction, ?_⟩
    exact (Format.leaves_shortest (by decide) (by decide) hfits .up).of_mul_eq
      (Nat.pow_pos (by decide)) hvalue

/-- What is printed for a finite double is read as a finite number. -/
theorem readDouble?_print {x : Floating} (hx : double.Has x) (hfinite : x.isFinite = true) :
    ∃ y, readDouble? (x.print double) = some y ∧ y.isFinite = true := by
  cases x with
  | nan => cases hfinite
  | infinite negative => cases hfinite
  | finite negative units =>
    obtain ⟨whole, fraction, hmagnitude, hne, hwhole, hfraction, hleaves⟩ :=
      exists_plain_magnitude hx
    have hprint : (finite negative units).print double =
        String.ofList (signed negative (plain whole fraction)) := by
      rw [print, hmagnitude]
      cases negative with
      | false => rfl
      | true => exact (@String.ofList_append ['-'] _).symm
    have hread := read?_plain double negative hne hwhole hfraction
    rw [← hprint] at hread
    refine ⟨_, hread, isFinite_ofDecimal ?_⟩
    have hnone : (-(fraction.length : Int)).toNat = 0 := by omega
    rw [hnone, Int.neg_neg, Int.toNat_natCast, Nat.pow_zero, Nat.mul_one]
    exact hleaves

end ItemMapper.Floating
