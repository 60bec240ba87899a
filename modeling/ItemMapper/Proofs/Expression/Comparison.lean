import ItemMapper.Expression.Folding
import ItemMapper.Proofs.Key.Integers

/-!
# Comparisons of integer constants

An integer that fits into 64 bits is a constant of its own kind, and any other one is held as its
decimal text. Two integers that both fit are compared as they are. As soon as one of them does not,
both are compared as doubles, so that different integers with one nearest double are taken for the
same. Every comparison is folded accordingly, and no other is folded wrongly.

## Main definitions

* `BinaryOp.compares`: what a comparison says of two integers.
* `Value.Blurred`: two integers that are taken for the same.

## Main statements

* `Value.compare?_ofInt`: the order of two integer constants.
* `Value.applyBinary_ofInt`: the value of a comparison of two integer constants.
* `Expr.fold_comparison_ofInt`: the folded comparison, and when it is exact.
-/

namespace ItemMapper

/-- What a comparison says of two integers. -/
def BinaryOp.compares (op : BinaryOp) (a b : Int) : Bool :=
  match op with
  | .eq => decide (a = b)
  | .ne => decide (a ≠ b)
  | .lt => decide (a < b)
  | .le => decide (a ≤ b)
  | .gt => decide (b < a)
  | _ => decide (b ≤ a)

namespace Value

/-- Two different integers, not both of 64 bits, that have one nearest double. -/
def Blurred (a b : Int) : Prop :=
  a ≠ b ∧ ¬(IntType.int64.Holds a ∧ IntType.int64.Holds b) ∧
    Floating.ofInt Floating.double a = Floating.ofInt Floating.double b

instance (a b : Int) : Decidable (Blurred a b) := inferInstanceAs (Decidable (_ ∧ _ ∧ _))

variable {a b : Int}

theorem ofInt_of_holds (h : IntType.int64.Holds a) : ofInt a = .int a :=
  if_pos ⟨h.1, Int.lt_of_le_of_lt h.2 (by decide)⟩

theorem ofInt_of_not_holds (h : ¬IntType.int64.Holds a) : ofInt a = .number (toString a) := by
  refine if_neg fun hfits => h ⟨hfits.1, ?_⟩
  have hhigh : IntType.int64.high = 2 ^ 63 - 1 := rfl
  omega

/-- An integer is computed with as the double nearest to it, however it is held. -/
theorem toFloat?_ofInt (a : Int) :
    (ofInt a).toFloat? = some (Floating.ofInt Floating.double a) := by
  by_cases hfits : IntType.int64.Holds a
  · rw [ofInt_of_holds hfits]
    rfl
  · rw [ofInt_of_not_holds hfits, toFloat?, trim_toString, Floating.readDouble?_toString]

/-- Integers that do not both fit into 64 bits are compared as doubles. -/
theorem compare?_eq_floats (h : ¬(IntType.int64.Holds a ∧ IntType.int64.Holds b)) :
    (ofInt a).compare? (ofInt b) =
      (Floating.ofInt Floating.double a).compare? (Floating.ofInt Floating.double b) := by
  have hfloata := toFloat?_ofInt a
  have hfloatb := toFloat?_ofInt b
  by_cases hfitsa : IntType.int64.Holds a
  · have hfitsb : ¬IntType.int64.Holds b := fun hfitsb => h ⟨hfitsa, hfitsb⟩
    rw [ofInt_of_holds hfitsa] at hfloata ⊢
    rw [ofInt_of_not_holds hfitsb] at hfloatb ⊢
    simp only [compare?, hfloata, hfloatb]
  · rw [ofInt_of_not_holds hfitsa] at hfloata ⊢
    by_cases hfitsb : IntType.int64.Holds b
    · rw [ofInt_of_holds hfitsb] at hfloatb ⊢
      simp only [compare?, hfloata, hfloatb]
    · rw [ofInt_of_not_holds hfitsb] at hfloatb ⊢
      simp only [compare?, hfloata, hfloatb]

/-- **The order of two integer constants** is that of the integers, but integers that are taken for the
same have the same place in it. -/
theorem compare?_ofInt (ha : a.natAbs ≤ 2 ^ 128) (hb : b.natAbs ≤ 2 ^ 128) :
    (ofInt a).compare? (ofInt b) = some (if Blurred a b then .eq else compare a b) := by
  by_cases hfit : IntType.int64.Holds a ∧ IntType.int64.Holds b
  · rw [ofInt_of_holds hfit.1, ofInt_of_holds hfit.2, if_neg fun h => h.2.1 hfit]
    rfl
  · rw [compare?_eq_floats hfit, Floating.compare?_ofInt ha hb]
    by_cases hab : a = b
    · subst hab
      rw [if_pos rfl, if_neg fun h => h.1 rfl, Int.compare_eq_eq.mpr rfl]
    · simp only [Blurred, ne_eq, hab, hfit, not_false_eq_true, true_and]

/-- Integers are held alike only where they are the same. -/
theorem equals_ofInt (a b : Int) : (ofInt a).equals (ofInt b) = decide (a = b) := by
  by_cases hfitsa : IntType.int64.Holds a
  · rw [ofInt_of_holds hfitsa]
    by_cases hfitsb : IntType.int64.Holds b
    · rw [ofInt_of_holds hfitsb]
      rfl
    · have hne : a ≠ b := by
        rintro rfl
        exact hfitsb hfitsa
      rw [ofInt_of_not_holds hfitsb, decide_eq_false hne]
      rfl
  · rw [ofInt_of_not_holds hfitsa]
    by_cases hfitsb : IntType.int64.Holds b
    · have hne : a ≠ b := by
        rintro rfl
        exact hfitsa hfitsb
      rw [ofInt_of_holds hfitsb, decide_eq_false hne]
      rfl
    · rw [ofInt_of_not_holds hfitsb, equals, Bool.eq_iff_iff, beq_iff_eq, decide_eq_true_iff]
      exact toString_int_injective.eq_iff

/-- What a comparison other than that for equality says of the order of two integers is what it says of
the integers. -/
theorem holds_compare {op : BinaryOp} (hop : op.isComparison = true) (heq : op ≠ .eq)
    (hne : op ≠ .ne) (a b : Int) : holds op (compare a b) = op.compares a b := by
  rw [Bool.eq_iff_iff]
  cases op with
  | eq => exact absurd rfl heq
  | ne => exact absurd rfl hne
  | lt => exact Ordering.isLT_iff_eq_lt.trans (Int.compare_eq_lt.trans decide_eq_true_iff.symm)
  | le => exact Int.isLE_compare.trans decide_eq_true_iff.symm
  | gt => exact Ordering.isGT_iff_eq_gt.trans (Int.compare_eq_gt.trans decide_eq_true_iff.symm)
  | ge => exact Int.isGE_compare.trans decide_eq_true_iff.symm
  | and | or | add | sub | mul | div => cases hop

/-- Two integers are equivalent where they are the same or taken for the same. -/
theorem equivalent_ofInt (ha : a.natAbs ≤ 2 ^ 128) (hb : b.natAbs ≤ 2 ^ 128) :
    (ofInt a).equivalent (ofInt b) = true ↔ Blurred a b ∨ a = b := by
  rw [equivalent, Bool.or_eq_true, equals_ofInt, decide_eq_true_iff, compare?_ofInt ha hb, beq_iff_eq,
    Option.some_inj]
  by_cases hblurred : Blurred a b
  · rw [if_pos hblurred]
    exact iff_of_true (.inr rfl) (.inl hblurred)
  · rw [if_neg hblurred, Int.compare_eq_eq, or_self]
    exact (or_iff_right hblurred).symm

/-- **The value of a comparison of two integer constants** is what it says of the integers, but of
integers that are taken for the same it says what it says of an integer and itself. -/
theorem applyBinary_ofInt (ha : a.natAbs ≤ 2 ^ 128) (hb : b.natAbs ≤ 2 ^ 128) {op : BinaryOp}
    (hop : op.isComparison = true) :
    applyBinary op (ofInt a) (ofInt b) =
      .ok (.bool (if Blurred a b then op.compares a a else op.compares a b)) := by
  have hequivalent : (ofInt a).equivalent (ofInt b) =
      if Blurred a b then true else decide (a = b) := by
    rw [Bool.eq_iff_iff, equivalent_ofInt ha hb]
    split
    next hblurred => exact iff_of_true (.inl hblurred) rfl
    next hblurred => rw [decide_eq_true_iff, or_iff_right hblurred]
  have hordered : ∀ op : BinaryOp, op.isComparison = true → op ≠ .eq → op ≠ .ne →
      holds op (if Blurred a b then .eq else compare a b) =
        if Blurred a b then op.compares a a else op.compares a b := by
    intro op hop heq hne
    split
    · rw [← holds_compare hop heq hne, Int.compare_eq_eq.mpr rfl]
    · exact holds_compare hop heq hne a b
  cases op with
  | and | or | add | sub | mul | div => cases hop
  | eq | ne =>
    rw [applyBinary, hequivalent]
    split <;> simp [BinaryOp.compares]
  | lt | le | gt | ge =>
    rw [applyBinary, compare?_ofInt ha hb]
    dsimp only
    rw [hordered _ hop nofun nofun]

end Value

namespace Expr

variable {a b : Int}

/-- An operator between two constants is folded to its value, and nothing is run. -/
theorem fold_binary_constant {op : BinaryOp} {x y z : Value}
    (h : Value.applyBinary op x y = .ok z) (ran : Nat) :
    fold (.binary op (.constant x) (.constant y)) ran = .ok (.constant z) ran := by
  rw [fold, fold, fold, pure_bind, pure_bind, foldBinary, h]
  rfl

/-- **The comparison of two integer constants** of any widths is folded to what it says of the two
integers, unless they are taken for the same; then it is folded to what it says of an integer and itself.
So all comparisons of two integers are folded exactly where these are not taken for the same, which is the
case wherever both fit into 64 bits. -/
theorem fold_comparison_ofInt {s t : IntType} (ha : s.Holds a) (hb : t.Holds b) :
    (∀ op : BinaryOp, op.isComparison = true → ∀ ran,
      fold (.binary op (.constant (.ofInt a)) (.constant (.ofInt b))) ran =
        .ok (.constant (.bool (if Value.Blurred a b then op.compares a a else op.compares a b))) ran) ∧
    ((∀ op : BinaryOp, op.isComparison = true → ∀ ran,
      fold (.binary op (.constant (.ofInt a)) (.constant (.ofInt b))) ran =
        .ok (.constant (.bool (op.compares a b))) ran) ↔ ¬Value.Blurred a b) ∧
    (IntType.int64.Holds a → IntType.int64.Holds b → ¬Value.Blurred a b) := by
  have hfold : ∀ op : BinaryOp, op.isComparison = true → ∀ ran,
      fold (.binary op (.constant (.ofInt a)) (.constant (.ofInt b))) ran =
        .ok (.constant (.bool (if Value.Blurred a b then op.compares a a else op.compares a b))) ran :=
    fun op hop => fold_binary_constant (Value.applyBinary_ofInt ha.natAbs_le hb.natAbs_le hop)
  refine ⟨hfold, ⟨fun hexact hblurred => ?_, fun hclear op hop ran => ?_⟩, fun hfitsa hfitsb h => ?_⟩
  · -- equality already tells the two integers apart
    have heq := (hfold .eq rfl 0).symm.trans (hexact .eq rfl 0)
    rw [if_pos hblurred] at heq
    have hbool : BinaryOp.eq.compares a a = BinaryOp.eq.compares a b := by
      injection heq with heq
      injection heq with heq
      injection heq
    exact hblurred.1 (of_decide_eq_true (hbool.symm.trans (decide_eq_true rfl)))
  · rw [hfold op hop ran, if_neg hclear]
  · exact h.2.1 ⟨hfitsa, hfitsb⟩

/-- Neighbours beyond 64 bits are taken for the same, also where one of them still fits; neighbours that
both fit are told apart. -/
theorem fold_comparison_ofInt_neighbours :
    fold (.binary .eq (.constant (.ofInt (2 ^ 63))) (.constant (.ofInt (2 ^ 63 + 1)))) 0 =
        .ok (.constant (.bool true)) 0 ∧
      fold (.binary .lt (.constant (.ofInt (2 ^ 63 - 1))) (.constant (.ofInt (2 ^ 63)))) 0 =
        .ok (.constant (.bool false)) 0 ∧
      fold (.binary .lt (.constant (.ofInt (2 ^ 63 - 2))) (.constant (.ofInt (2 ^ 63 - 1)))) 0 =
        .ok (.constant (.bool true)) 0 ∧
      fold (.binary .gt (.constant (.ofInt (2 ^ 127))) (.constant (.ofInt (-(2 ^ 63))))) 0 =
        .ok (.constant (.bool true)) 0 := by
  have hnat : IntType.nat64.Holds (2 ^ 63) := by decide
  have hnext : IntType.nat64.Holds (2 ^ 63 + 1) := by decide
  have hlast : IntType.int64.Holds (2 ^ 63 - 1) := by decide
  have hbefore : IntType.int64.Holds (2 ^ 63 - 2) := by decide
  have hwide : IntType.nat128.Holds (2 ^ 127) := by decide
  have hlow : IntType.int64.Holds (-(2 ^ 63)) := by decide
  have hboth : Value.Blurred (2 ^ 63) (2 ^ 63 + 1) := by decide +kernel
  have hone : Value.Blurred (2 ^ 63 - 1) (2 ^ 63) := by decide +kernel
  have hfar : ¬Value.Blurred (2 ^ 127) (-(2 ^ 63)) := by decide +kernel
  refine ⟨?_, ?_, ?_, ?_⟩
  · rw [(fold_comparison_ofInt hnat hnext).1 .eq rfl, if_pos hboth]
    rfl
  · rw [(fold_comparison_ofInt hlast hnat).1 .lt rfl, if_pos hone]
    rfl
  · obtain ⟨-, hexact, hfit⟩ := fold_comparison_ofInt hbefore hlast
    exact hexact.mpr (hfit hbefore hlast) .lt rfl 0
  · exact (fold_comparison_ofInt hwide hlow).2.1.mpr hfar .gt rfl 0

end Expr

end ItemMapper
