import Mathlib.Data.Nat.Basic
import Mathlib.Order.Basic
import ItemMapper.Number.Order
import ItemMapper.Number.Shortest
import ItemMapper.Proofs.Number.Decimal
import ItemMapper.Proofs.Number.Scaling

/-!
# The order of the texts of integers

Number texts are ordered by the doubles that they denote, and as texts where these are the same. Up to
`2 ^ 53` no two integers have one double. Beyond, neighbours share one, and their texts decide: rightly
for natural numbers with equally many digits and for negative ones with different numbers of digits, and
wrongly for all others, because of two numbers with one double and different numbers of digits the longer
one begins with a one and the shorter one does not.

## Main definitions

* `signedDouble`: the value of the double nearest to an integer.
* `Misordered`: the integers whose texts are in the wrong order.

## Main statements

* `numberValue_toString`: the text of an integer denotes the double nearest to it.
* `compareNumberText_toString`: the order of the texts of integers.
-/

namespace ItemMapper

/-! ### Digits -/

/-- A last digit decides between numbers that agree before it. -/
theorem compare_snoc_digit {i j : Nat} (hi : i < 10) (hj : j < 10) (s t : Nat) :
    compare (s * 10 + i) (t * 10 + j) = (compare s t).then (compare i j) := by
  rcases Nat.lt_trichotomy s t with hlt | rfl | hgt
  · rw [Nat.compare_eq_lt.mpr hlt, Nat.compare_eq_lt.mpr (by omega)]
    rfl
  · rw [Nat.compare_eq_eq.mpr rfl, Ordering.eq_then]
    simp only [Nat.compare_eq_ite_lt, Nat.add_lt_add_iff_left]
  · rw [Nat.compare_eq_gt.mpr hgt, Nat.compare_eq_gt.mpr (by omega)]
    rfl

theorem digitValue_lt {c : Char} (h : c.isDigit = true) : (digitValue? c).getD 0 < 10 := by
  rw [digitValue?_of_isDigit h, Option.getD_some]
  rw [Char.isDigit, Bool.and_eq_true, decide_eq_true_eq, decide_eq_true_eq] at h
  have hhigh : c.toNat ≤ 57 := h.2
  change c.toNat - 48 < 10
  omega

/-- Digits are ordered as the numbers they stand for. -/
theorem compare_digitValue {c d : Char} (hc : c.isDigit = true) (hd : d.isDigit = true) :
    compare ((digitValue? c).getD 0) ((digitValue? d).getD 0) = compare c d := by
  have hchars : compare c d = compare c.toNat d.toNat := by
    have heq : c = d ↔ c.toNat = d.toNat := Char.toNat_inj.symm
    have hlt : c < d ↔ c.toNat < d.toNat := Iff.rfl
    change compareOfLessAndEq c d = compareOfLessAndEq c.toNat d.toNat
    simp only [compareOfLessAndEq, hlt, heq]
  rw [hchars, digitValue?_of_isDigit hc, digitValue?_of_isDigit hd, Option.getD_some, Option.getD_some]
  have hlow : ∀ {c : Char}, c.isDigit = true → '0'.toNat ≤ c.toNat := fun hc => by
    rw [Char.isDigit, Bool.and_eq_true, decide_eq_true_eq, decide_eq_true_eq] at hc
    exact hc.1
  have hlowc := hlow hc
  have hlowd := hlow hd
  have hlt : c.toNat - '0'.toNat < d.toNat - '0'.toNat ↔ c.toNat < d.toNat := by omega
  have hgt : d.toNat - '0'.toNat < c.toNat - '0'.toNat ↔ d.toNat < c.toNat := by omega
  simp only [Nat.compare_eq_ite_lt, hlt, hgt]

/-- Equally long runs of digits are ordered as the numbers that they give behind any numbers. -/
theorem compare_digitsValue {xs ys : List Char} (hlength : xs.length = ys.length)
    (hxs : ∀ c ∈ xs, c.isDigit = true) (hys : ∀ c ∈ ys, c.isDigit = true) (s t : Nat) :
    compare (digitsValue s xs) (digitsValue t ys) =
      (compare s t).then (List.compareLex compare xs ys) := by
  induction xs generalizing ys s t with
  | nil =>
    cases List.length_eq_zero_iff.mp hlength.symm
    rw [List.compareLex_nil_nil, Ordering.then_eq]
    rfl
  | cons c xs ih =>
    cases ys with
    | nil => cases hlength
    | cons d ys =>
      have hc := hxs c List.mem_cons_self
      have hd := hys d List.mem_cons_self
      have hstep := compare_snoc_digit (digitValue_lt hc) (digitValue_lt hd) s t
      rw [compare_digitValue hc hd] at hstep
      have hrest := ih (Nat.succ.inj hlength) (fun x hx => hxs x (List.mem_cons_of_mem c hx))
        (fun y hy => hys y (List.mem_cons_of_mem d hy)) (s * 10 + (digitValue? c).getD 0)
        (t * 10 + (digitValue? d).getD 0)
      rw [List.compareLex_cons_cons, ← Ordering.then_assoc, ← hstep, ← hrest]
      rfl

theorem compareLex_append_of_length_eq {xs ys : List Char} (h : xs.length = ys.length)
    (zs : List Char) : List.compareLex compare xs (ys ++ zs) =
      (List.compareLex compare xs ys).then (List.compareLex compare [] zs) := by
  induction xs generalizing ys with
  | nil =>
    cases List.length_eq_zero_iff.mp h.symm
    rw [List.compareLex_nil_nil, Ordering.eq_then, List.nil_append]
  | cons c xs ih =>
    cases ys with
    | nil => cases h
    | cons d ys =>
      rw [List.cons_append, List.compareLex_cons_cons, List.compareLex_cons_cons,
        ih (Nat.succ.inj h), Ordering.then_assoc]

/-- Numbers with equally many digits are ordered as their digits are. -/
theorem compareLex_toDigits {m n : Nat}
    (h : (Nat.toDigits 10 m).length = (Nat.toDigits 10 n).length) :
    List.compareLex compare (Nat.toDigits 10 m) (Nat.toDigits 10 n) = compare m n := by
  have hdigits : ∀ k, ∀ c ∈ Nat.toDigits 10 k, c.isDigit = true := fun k c hc =>
    Nat.isDigit_of_mem_toDigits (by decide) (by decide) hc
  have hvalues := compare_digitsValue h (hdigits m) (hdigits n) 0 0
  rw [digitsValue_toDigits, digitsValue_toDigits] at hvalues
  exact hvalues.symm

/-! ### The doubles of integers -/

namespace Floating

/-- The value of the double nearest to an integer, in units. -/
def signedDouble (i : Int) : Int := signedUnits (i < 0) (doubleUnits i.natAbs)

/-- An integer is read as the double nearest to it. -/
theorem readDouble?_toString (i : Int) : readDouble? (toString i) = some (ofInt double i) := by
  rw [readDouble?, read?_toString, ofDecimal_eq, ofInt]
  simp

theorem signedDouble_of_nonneg {i : Int} (h : ¬ i < 0) : signedDouble i = doubleUnits i.natAbs := by
  rw [signedDouble, decide_eq_false h]
  exact if_neg Bool.false_ne_true

theorem signedDouble_of_neg {i : Int} (h : i < 0) : signedDouble i = -doubleUnits i.natAbs := by
  rw [signedDouble, decide_eq_true h]
  exact if_pos rfl

theorem signedDouble_mono {a b : Int} (h : a ≤ b) : signedDouble a ≤ signedDouble b := by
  by_cases ha : a < 0
  · rw [signedDouble_of_neg ha]
    by_cases hb : b < 0
    · have hunits : doubleUnits b.natAbs ≤ doubleUnits a.natAbs := doubleUnits_mono (by omega)
      rw [signedDouble_of_neg hb]
      omega
    · rw [signedDouble_of_nonneg hb]
      omega
  · have hunits : doubleUnits a.natAbs ≤ doubleUnits b.natAbs := doubleUnits_mono (by omega)
    rw [signedDouble_of_nonneg ha, signedDouble_of_nonneg (by omega)]
    omega

/-- Integers with one double have one sign, and magnitudes with one double. -/
theorem signedDouble_eq_iff {a b : Int} :
    signedDouble a = signedDouble b ↔
      (a < 0 ↔ b < 0) ∧ doubleUnits a.natAbs = doubleUnits b.natAbs := by
  have hpositive : ∀ i : Int, i < 0 → 0 < doubleUnits i.natAbs := fun i hi => doubleUnits_pos (by omega)
  by_cases ha : a < 0
  · have hposa := hpositive a ha
    rw [signedDouble_of_neg ha]
    by_cases hb : b < 0
    · rw [signedDouble_of_neg hb]
      omega
    · rw [signedDouble_of_nonneg hb]
      omega
  · rw [signedDouble_of_nonneg ha]
    by_cases hb : b < 0
    · have hposb := hpositive b hb
      rw [signedDouble_of_neg hb]
      omega
    · rw [signedDouble_of_nonneg hb]
      omega

theorem ofInt_double_eq_iff {a b : Int} (ha : a.natAbs ≤ 2 ^ 128) (hb : b.natAbs ≤ 2 ^ 128) :
    ofInt double a = ofInt double b ↔ signedDouble a = signedDouble b := by
  rw [ofInt_eq ha, ofInt_eq hb, finite.injEq, decide_eq_decide, signedDouble_eq_iff]

/-- The doubles of integers are ordered as the integers are, unless they are one double. -/
theorem compare?_ofInt {a b : Int} (ha : a.natAbs ≤ 2 ^ 128) (hb : b.natAbs ≤ 2 ^ 128) :
    (ofInt double a).compare? (ofInt double b) =
      some (if ofInt double a = ofInt double b then .eq else compare a b) := by
  have hvalues : (ofInt double a).compare? (ofInt double b) =
      some (compare (signedDouble a) (signedDouble b)) := by
    rw [ofInt_eq ha, ofInt_eq hb]
    rfl
  rw [hvalues]
  by_cases hdouble : ofInt double a = ofInt double b
  · rw [if_pos hdouble, Int.compare_eq_eq.mpr ((ofInt_double_eq_iff ha hb).mp hdouble)]
  · have heq : signedDouble a ≠ signedDouble b := mt (ofInt_double_eq_iff ha hb).mpr hdouble
    rw [if_neg hdouble]
    rcases Int.lt_trichotomy a b with hlt | rfl | hgt
    · have hle := signedDouble_mono (Int.le_of_lt hlt)
      rw [Int.compare_eq_lt.mpr hlt, Int.compare_eq_lt.mpr (by omega)]
    · exact absurd rfl heq
    · have hle := signedDouble_mono (Int.le_of_lt hgt)
      rw [Int.compare_eq_gt.mpr hgt, Int.compare_eq_gt.mpr (by omega)]

end Floating

theorem numberValue_toString (i : Int) :
    numberValue (toString i) = Floating.ofInt Floating.double i := by
  rw [numberValue, trim_toString, Floating.readDouble?_toString, Option.getD_some]

/-! ### Different texts of one double -/

open Floating (decimalLength doubleUnits)

/-- Of two numbers with one double, the one with fewer digits comes last as a text: it is more than half
the power of ten between both, and the other one is less than twice this power. -/
theorem compareLex_toDigits_of_shorter {m n : Nat} (hlength : decimalLength m < decimalLength n)
    (h : doubleUnits m = doubleUnits n) :
    List.compareLex compare (Nat.toDigits 10 m) (Nat.toDigits 10 n) = .gt := by
  have hle : ∀ {k count : Nat}, 0 < count → (decimalLength k ≤ count ↔ k < 10 ^ count) := fun hcount =>
    Nat.length_toDigits_le_iff (by decide) hcount
  have hcount : 0 < decimalLength m := Nat.length_toDigits_pos
  generalize hpower : (10 : Nat) ^ decimalLength m = power
  have hm : m < power := hpower ▸ (hle hcount).mp (Nat.le_refl _)
  have hn : power ≤ n := by
    rw [← hpower]
    exact Nat.not_lt.mp fun hlt => Nat.not_le.mpr hlength ((hle hcount).mpr hlt)
  have hpos : 0 < doubleUnits power := Floating.doubleUnits_pos (by omega)
  have hbelow := Floating.doubleUnits_mono (Nat.le_of_lt hm)
  have habove := Floating.doubleUnits_mono hn
  have hhalf : power < 2 * m := by
    refine Nat.not_le.mp fun hsmall => ?_
    have hne : m ≠ 0 := by
      rintro rfl
      rw [Floating.doubleUnits_of_le (Nat.zero_le _), Nat.zero_mul] at h
      omega
    have htwice := Floating.doubleUnits_mono hsmall
    rw [Floating.doubleUnits_two_mul hne] at htwice
    omega
  have hdouble : n < 2 * power := by
    refine Nat.not_le.mp fun hlarge => ?_
    have htwice := Floating.doubleUnits_mono hlarge
    rw [Floating.doubleUnits_two_mul (by omega)] at htwice
    omega
  -- Without its last digit the longer number has as many digits as the shorter one, and is smaller.
  have htens : Nat.toDigits 10 n = Nat.toDigits 10 (n / 10) ++ [(n % 10).digitChar] := by
    have hten : 10 ^ 1 ≤ power := by
      rw [← hpower]
      exact Nat.pow_le_pow_right (by decide) hcount
    exact Nat.toDigits_of_base_le (by decide) (by omega)
  have hsame : (Nat.toDigits 10 m).length = (Nat.toDigits 10 (n / 10)).length := by
    have hnext : n < 10 ^ (decimalLength m + 1) := by
      rw [Nat.pow_succ, hpower]
      omega
    have hlast := (hle (Nat.succ_pos (decimalLength m))).mpr hnext
    have hlonger : decimalLength n = (Nat.toDigits 10 (n / 10)).length + 1 := by
      rw [decimalLength, htens, List.length_append, List.length_singleton]
    change decimalLength m = _
    omega
  rw [htens, compareLex_append_of_length_eq hsame, compareLex_toDigits hsame,
    Nat.compare_eq_gt.mpr (by omega)]
  rfl

/-- Numbers with one double are ordered as their digits are, if they have equally many; and the other way
round if not. -/
theorem compareLex_toDigits_of_double {m n : Nat} (h : doubleUnits m = doubleUnits n) :
    List.compareLex compare (Nat.toDigits 10 m) (Nat.toDigits 10 n) =
      if decimalLength m = decimalLength n then compare m n else (compare m n).swap := by
  have hlt : ∀ {j k : Nat}, decimalLength j < decimalLength k → j < k := by
    intro j k hlength
    have hpos : 0 < decimalLength j := Nat.length_toDigits_pos
    refine Nat.not_le.mp fun hle => Nat.not_le.mpr hlength ?_
    refine (Nat.length_toDigits_le_iff (by decide) hpos).mpr (Nat.lt_of_le_of_lt hle ?_)
    exact (Nat.length_toDigits_le_iff (by decide) hpos).mp (Nat.le_refl _)
  rcases Nat.lt_trichotomy (decimalLength m) (decimalLength n) with hless | heq | hgreater
  · rw [if_neg (Nat.ne_of_lt hless), compareLex_toDigits_of_shorter hless h,
      Nat.compare_eq_lt.mpr (hlt hless)]
    rfl
  · rw [if_pos heq, compareLex_toDigits heq]
  · rw [if_neg (Nat.ne_of_gt hgreater), @Std.OrientedCmp.eq_swap _ (List.compareLex compare),
      compareLex_toDigits_of_shorter hgreater h.symm, Nat.compare_eq_gt.mpr (hlt hgreater)]

/-! ### The order -/

/-- Two integers whose texts are in the wrong order: both have one nearest double, and are negative with
equally many digits or natural with different numbers of digits. -/
def Misordered (a b : Int) : Prop :=
  a ≠ b ∧ Floating.ofInt Floating.double a = Floating.ofInt Floating.double b ∧
    (decimalLength a.natAbs = decimalLength b.natAbs ↔ a < 0)

instance (a b : Int) : Decidable (Misordered a b) := inferInstanceAs (Decidable (_ ∧ _ ∧ _))

theorem compare_eq_compare {a b : Int} {m n : Nat} (hlt : a < b ↔ m < n) (hgt : b < a ↔ n < m) :
    compare a b = compare m n := by
  rcases Nat.lt_trichotomy m n with h | rfl | h
  · rw [Int.compare_eq_lt.mpr (hlt.mpr h), Nat.compare_eq_lt.mpr h]
  · rw [Int.compare_eq_eq.mpr (by omega), Nat.compare_eq_eq.mpr rfl]
  · rw [Int.compare_eq_gt.mpr (hgt.mpr h), Nat.compare_eq_gt.mpr h]

/-- As texts, integers with one double are ordered as they are or the other way round. -/
theorem compareText_toString {a b : Int}
    (h : Floating.signedDouble a = Floating.signedDouble b) :
    compareText (toString a) (toString b) =
      if decimalLength a.natAbs = decimalLength b.natAbs ↔ a < 0 then (compare a b).swap
      else compare a b := by
  obtain ⟨hsign, hunits⟩ := Floating.signedDouble_eq_iff.mp h
  have hdigits := compareLex_toDigits_of_double hunits
  unfold compareText
  rw [Floating.toList_toString, Floating.toList_toString]
  by_cases hneg : a < 0
  · have hnegb := hsign.mp hneg
    have hcompare : compare a b = compare b.natAbs a.natAbs :=
      compare_eq_compare (by omega) (by omega)
    have hminus : compare '-' '-' = .eq := rfl
    rw [decide_eq_true hneg, decide_eq_true hnegb, hcompare, Nat.compare_swap, ← Nat.compare_swap a.natAbs]
    simp only [iff_true_right hneg]
    rw [← hdigits, Floating.signed, Floating.signed, if_pos rfl, if_pos rfl, List.compareLex_cons_cons,
      hminus, Ordering.eq_then]
  · have hnegb := mt hsign.mpr hneg
    have hcompare : compare a b = compare a.natAbs b.natAbs :=
      compare_eq_compare (by omega) (by omega)
    rw [decide_eq_false hneg, decide_eq_false hnegb, hcompare]
    simp only [iff_false_right hneg, ite_not]
    rw [← hdigits, Floating.signed, Floating.signed, if_neg Bool.false_ne_true, if_neg Bool.false_ne_true]

/-- The texts of integers are ordered as the integers are, except that the misordered ones are ordered the
other way round. -/
theorem compareNumberText_toString {a b : Int} (ha : a.natAbs ≤ 2 ^ 128) (hb : b.natAbs ≤ 2 ^ 128) :
    compareNumberText (toString a) (toString b) =
      if Misordered a b then (compare a b).swap else compare a b := by
  unfold compareNumberText
  rw [numberValue_toString, numberValue_toString, Floating.compare?_ofInt ha hb]
  by_cases hdouble : Floating.ofInt Floating.double a = Floating.ofInt Floating.double b
  · rw [if_pos hdouble]
    refine (compareText_toString ((Floating.ofInt_double_eq_iff ha hb).mp hdouble)).trans ?_
    by_cases hab : a = b
    · have hself : compare a b = .eq := Int.compare_eq_eq.mpr hab
      rw [hself]
      split <;> split <;> rfl
    · simp only [Misordered, hab, hdouble, ne_eq, not_false_eq_true, true_and]
  · have hordered : ¬Misordered a b := fun h => hdouble h.2.1
    rw [if_neg hdouble, if_neg hordered]
    rcases Int.lt_trichotomy a b with hlt | rfl | hgt
    · rw [Int.compare_eq_lt.mpr hlt]
    · exact absurd rfl hdouble
    · rw [Int.compare_eq_gt.mpr hgt]

/-- Up to `2 ^ 53` no two integers have one double. -/
theorem not_misordered {a b : Int} (ha : a.natAbs ≤ 2 ^ 53) (hb : b.natAbs ≤ 2 ^ 53) :
    ¬ Misordered a b := by
  rintro ⟨hne, hdouble, -⟩
  have hwide : (2 : Nat) ^ 53 ≤ 2 ^ 128 := by decide
  rw [Floating.ofInt_eq (Nat.le_trans ha hwide), Floating.ofInt_eq (Nat.le_trans hb hwide),
    Floating.finite.injEq, decide_eq_decide, Floating.doubleUnits_of_le ha,
    Floating.doubleUnits_of_le hb] at hdouble
  have hmagnitude := Nat.eq_of_mul_eq_mul_right (Nat.two_pow_pos _) hdouble.2
  omega

end ItemMapper
