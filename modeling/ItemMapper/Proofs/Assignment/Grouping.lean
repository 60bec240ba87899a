import Mathlib.Algebra.Order.Ring.Rat
import Mathlib.Tactic.Linarith
import Mathlib.Tactic.Ring
import ItemMapper.Proofs.Aliases.Lookup
import ItemMapper.Proofs.Assignment.Grammar

/-!
# The grouping of calculations

A value that is written without parentheses is read with its terms put together from the left. The
terms are the same and in the same order, and only the grouping changes: the first term of a right
side keeps the sign in front of it, but the others count as they are written.

So the number is kept where no right side of a difference is a calculation. Where one is, its terms
after the first count with the wrong sign, and if no operand occurs twice this is seen for some
numbers.

## Main definitions

* `SetValue.regrouped`: the value with its terms put together from the left.
* `SetValue.Valuation`, `SetValue.eval`: the number that a value is.
* `SetValue.isGrouped`: no right side of a difference is a calculation.

## Main statements

* `SetValue.eval_attach`: what the terms of a right side add to what stands before them.
* `SetValue.eval_regrouped`: the number is kept where the value is grouped.
* `SetValue.exists_eval_regrouped_ne`: it is not kept where the value is not.
-/

namespace ItemMapper

/-- The operand with the sets of its value in order. -/
def Operand.canonical : Operand → Operand
  | .value v => .value v.canonical
  | other => other

theorem Operand.alike_iff {x y : Operand} : x.Alike y ↔ x.canonical = y.canonical := by
  constructor
  · rintro (_ | _ | hsame)
    · rfl
    · rfl
    · exact congrArg Operand.value ((AttributeValue.same_iff _ _).mp hsame)
  · intro h
    cases x with
    | path steps =>
      cases y with
      | path others =>
        cases h
        exact .path steps
      | _ => cases h
    | size steps =>
      cases y with
      | size others =>
        cases h
        exact .size steps
      | _ => cases h
    | value v =>
      cases y with
      | value w => exact .value ((AttributeValue.same_iff v w).mpr (Operand.value.inj h))
      | _ => cases h

theorem Operand.Alike.symm {x y : Operand} (h : x.Alike y) : y.Alike x :=
  alike_iff.mpr (alike_iff.mp h).symm

/-- Two numbers with a sign between them. -/
def Sign.apply : Sign → ℚ → ℚ → ℚ
  | .plus, x, y => x + y
  | .minus, x, y => x - y

theorem Sign.apply_zero (sign : Sign) (x : ℚ) : sign.apply x 0 = x := by
  cases sign with
  | plus => exact add_zero x
  | minus => exact sub_zero x

theorem Sign.apply_right_injective (sign : Sign) (x : ℚ) :
    Function.Injective (sign.apply x) := by
  cases sign with
  | plus => exact add_right_injective x
  | minus => exact sub_right_injective

namespace SetValue

/-! ### What is read -/

/-- A row of terms behind a value. -/
def attach (sign : Sign) (left : SetValue) : SetValue → SetValue
  | .calculation next l r => .calculation next (attach sign left l) r
  | term => .calculation sign left term

/-- The value with its terms put together from the left, also inside calls. -/
def regrouped : SetValue → SetValue
  | .operand x => .operand x
  | .calculation sign l r => attach sign l.regrouped r.regrouped
  | .ifNotExists steps fallback => .ifNotExists steps fallback.regrouped
  | .listAppend first second => .listAppend first.regrouped second.regrouped

/-- Whether the value has several terms. -/
def isCalculation : SetValue → Bool
  | .calculation _ _ _ => true
  | _ => false

/-- Whether no right side of a difference has several terms, at any depth. -/
def isGrouped : SetValue → Bool
  | .operand _ => true
  | .calculation .plus l r => l.isGrouped && r.isGrouped
  | .calculation .minus l r => l.isGrouped && r.isGrouped && !r.isCalculation
  | .ifNotExists _ fallback => fallback.isGrouped
  | .listAppend first second => first.isGrouped && second.isGrouped

/-- The first term. -/
def leading : SetValue → SetValue
  | .calculation _ l _ => l.leading
  | term => term

/-- What is calculated with. -/
def operands : SetValue → List Operand
  | .operand x => [x]
  | .calculation _ l r => l.operands ++ r.operands
  | .ifNotExists _ fallback => fallback.operands
  | .listAppend first second => first.operands ++ second.operands

/-- No operand occurs twice. -/
def IsLinear (value : SetValue) : Prop := value.operands.Pairwise fun x y => ¬ x.Alike y

section
variable (sign : Sign) (left value : SetValue)

theorem operands_attach : (attach sign left value).operands = left.operands ++ value.operands := by
  induction value with
  | calculation next l r ihl _ => rw [attach, operands, operands, ihl, List.append_assoc]
  | _ => rfl

theorem operands_regrouped : value.regrouped.operands = value.operands := by
  induction value with
  | operand => rfl
  | calculation sign l r ihl ihr => rw [regrouped, operands_attach, operands, ihl, ihr]
  | ifNotExists _ _ ih => exact ih
  | listAppend _ _ ihl ihr => rw [regrouped, operands, operands, ihl, ihr]

theorem operands_ne_nil : value.operands ≠ [] := by
  induction value with
  | operand => exact nofun
  | calculation _ _ _ ihl _ => exact List.append_ne_nil_of_left_ne_nil ihl _
  | ifNotExists _ _ ih => exact ih
  | listAppend _ _ ihl _ => exact List.append_ne_nil_of_left_ne_nil ihl _

theorem operands_leading_isPrefix : value.leading.operands <+: value.operands := by
  induction value with
  | calculation _ l r ihl _ => exact ihl.trans (List.prefix_append _ _)
  | _ => exact List.prefix_refl _

theorem leading_attach : (attach sign left value).leading = left.leading := by
  induction value with
  | calculation _ _ _ ihl _ => exact ihl
  | _ => rfl

variable {value}

theorem leading_regrouped_of_isCalculation (h : value.isCalculation = false) :
    value.regrouped.leading = value.regrouped := by
  cases value with
  | calculation => cases h
  | _ => rfl

end

/-! ### What values are -/

/-- Numbers for what is calculated with, and where paths lead to something. -/
structure Valuation where
  operand : Operand → ℚ
  /-- The order inside sets makes no difference. -/
  operand_alike : ∀ {x y : Operand}, x.Alike y → operand x = operand y
  present : List Step → Bool
  append : ℚ → ℚ → ℚ

/-- The number that a value is. -/
def eval (ρ : Valuation) : SetValue → ℚ
  | .operand x => ρ.operand x
  | .calculation sign l r => sign.apply (eval ρ l) (eval ρ r)
  | .ifNotExists steps fallback =>
    if ρ.present steps then ρ.operand (.path steps) else eval ρ fallback
  | .listAppend first second => ρ.append (eval ρ first) (eval ρ second)

variable {ρ : Valuation} {sign : Sign}

theorem Alike.eval_eq {v w : SetValue} (h : v.Alike w) (ρ : Valuation) : v.eval ρ = w.eval ρ := by
  induction h with
  | operand halike => exact ρ.operand_alike halike
  | calculation _ _ ihl ihr => rw [eval, eval, ihl, ihr]
  | ifNotExists _ ih => rw [eval, eval, ih]
  | listAppend _ _ ihl ihr => rw [eval, eval, ihl, ihr]

/-- **The first term of a row behind a value keeps the sign in front of the row**, and the others count
as they are. -/
theorem eval_attach (sign : Sign) (left value : SetValue) :
    (attach sign left value).eval ρ =
      sign.apply (left.eval ρ) (value.leading.eval ρ) + (value.eval ρ - value.leading.eval ρ) := by
  induction value with
  | calculation next l r ihl _ =>
    rw [attach, eval, ihl, leading, eval]
    cases next <;> simp only [Sign.apply] <;> ring
  | _ => exact (add_eq_left.mpr (sub_self _)).symm

/-- A row behind a plus may be put together first. -/
theorem eval_attach_plus (left value : SetValue) :
    (attach .plus left value).eval ρ = left.eval ρ + value.eval ρ := by
  rw [eval_attach, Sign.apply]
  ring

/-- **Where the value is grouped its number is kept.** -/
theorem eval_regrouped {value : SetValue} (h : value.isGrouped = true) (ρ : Valuation) :
    value.regrouped.eval ρ = value.eval ρ := by
  induction value with
  | operand => rfl
  | calculation sign l r ihl ihr =>
    cases sign with
    | plus =>
      obtain ⟨hl, hr⟩ := Bool.and_eq_true_iff.mp h
      rw [regrouped, eval_attach_plus, ihl hl, ihr hr]
      rfl
    | minus =>
      obtain ⟨hlr, hterm⟩ := Bool.and_eq_true_iff.mp h
      obtain ⟨hl, hr⟩ := Bool.and_eq_true_iff.mp hlr
      rw [regrouped, eval_attach,
        leading_regrouped_of_isCalculation (by simpa using hterm), sub_self, add_zero, ihl hl, ihr hr]
      rfl
  | ifNotExists steps fallback ih => rw [regrouped, eval, eval, ih h]
  | listAppend first second ihl ihr =>
    obtain ⟨hl, hr⟩ := Bool.and_eq_true_iff.mp h
    rw [regrouped, eval, eval, ihl hl, ihr hr]

/-! ### Where the number is not kept -/

/-- One for an operand and zero for all others; no path leads to anything, and lists are added. -/
def Valuation.only (x : Operand) : Valuation where
  operand y := if x.canonical = y.canonical then 1 else 0
  operand_alike h := by rw [Operand.alike_iff.mp h]
  present _ := false
  append a b := a + b

section
variable {x : Operand} {value : SetValue}

theorem eval_only_eq_zero (h : ∀ y ∈ value.operands, ¬ x.Alike y) :
    value.eval (.only x) = 0 := by
  induction value with
  | operand y => exact if_neg (Operand.alike_iff.not.mp (h y List.mem_cons_self))
  | calculation sign l r ihl ihr =>
    obtain ⟨hl, hr⟩ := List.forall_mem_append.mp h
    rw [eval, ihl hl, ihr hr]
    cases sign <;> norm_num [Sign.apply]
  | ifNotExists _ _ ih => exact ih h
  | listAppend _ _ ihl ihr =>
    obtain ⟨hl, hr⟩ := List.forall_mem_append.mp h
    rw [eval, ihl hl, ihr hr]
    exact add_zero 0

theorem eval_only_regrouped_eq_zero (h : ∀ y ∈ value.operands, ¬ x.Alike y) :
    value.regrouped.eval (.only x) = 0 ∧ value.regrouped.leading.eval (.only x) = 0 := by
  rw [← operands_regrouped value] at h
  exact ⟨eval_only_eq_zero h, eval_only_eq_zero fun y hy =>
    h y ((operands_leading_isPrefix value.regrouped).subset hy)⟩

theorem operands_append_eq_cons {l r : SetValue} {rest : List Operand}
    (h : l.operands ++ r.operands = x :: rest) :
    ∃ others, l.operands = x :: others ∧ rest = others ++ r.operands := by
  obtain ⟨first, others, hl⟩ := List.exists_cons_of_ne_nil l.operands_ne_nil
  rw [hl, List.cons_append] at h
  obtain ⟨rfl, rfl⟩ := List.cons.inj h
  exact ⟨others, hl, rfl⟩

/-- The first operand counts once. -/
theorem eval_only_eq_one {rest : List Operand} (hvalue : value.operands = x :: rest)
    (h : ∀ y ∈ rest, ¬ x.Alike y) : value.eval (.only x) = 1 := by
  induction value generalizing rest with
  | operand y =>
    obtain ⟨rfl, -⟩ := List.cons.inj hvalue
    exact if_pos rfl
  | calculation sign l r ihl _ =>
    obtain ⟨others, hl, rfl⟩ := operands_append_eq_cons hvalue
    obtain ⟨hothers, hr⟩ := List.forall_mem_append.mp h
    rw [eval, ihl hl hothers, eval_only_eq_zero hr, Sign.apply_zero]
  | ifNotExists _ _ ih => exact ih hvalue h
  | listAppend l r ihl _ =>
    obtain ⟨others, hl, rfl⟩ := operands_append_eq_cons hvalue
    obtain ⟨hothers, hr⟩ := List.forall_mem_append.mp h
    rw [eval, ihl hl hothers, eval_only_eq_zero hr]
    exact add_zero 1

/-- The first term has the first operand. -/
theorem eval_only_leading_eq_one {rest : List Operand} (hvalue : value.operands = x :: rest)
    (h : ∀ y ∈ rest, ¬ x.Alike y) : value.leading.eval (.only x) = 1 := by
  obtain ⟨first, others, hleading⟩ := List.exists_cons_of_ne_nil value.leading.operands_ne_nil
  have hprefix := operands_leading_isPrefix value
  rw [hvalue, hleading, List.cons_prefix_cons] at hprefix
  obtain ⟨rfl, hothers⟩ := hprefix
  exact eval_only_eq_one hleading fun y hy => h y (hothers.subset hy)

/-- In a right side with several terms behind a minus, the second term counts with the wrong sign. -/
theorem eval_only_difference_ne {l r r' : SetValue} {rest : List Operand}
    (hl : ∀ y ∈ l.operands, ¬ x.Alike y) (hr : ∀ y ∈ r.operands, ¬ x.Alike y)
    (hr' : r'.operands = x :: rest) (hrest : ∀ y ∈ rest, ¬ x.Alike y) :
    (calculation .minus l (.calculation sign r r')).regrouped.eval (.only x) ≠
      (calculation .minus l (.calculation sign r r')).eval (.only x) := by
  have hone := eval_only_eq_one hr' hrest
  have hreads : r'.regrouped.eval (.only x) = 1 ∧ r'.regrouped.leading.eval (.only x) = 1 := by
    rw [← operands_regrouped r'] at hr'
    exact ⟨eval_only_eq_one hr' hrest, eval_only_leading_eq_one hr' hrest⟩
  obtain ⟨hlzero, -⟩ := eval_only_regrouped_eq_zero hl
  obtain ⟨hrzero, hfirst⟩ := eval_only_regrouped_eq_zero hr
  rw [regrouped, regrouped, eval_attach, leading_attach, eval_attach, hlzero, hfirst, hrzero, hreads.1,
    hreads.2, eval, eval, eval_only_eq_zero hl, eval_only_eq_zero hr, hone]
  cases sign <;> norm_num [Sign.apply]

/-- An operand on the left only. -/
theorem eval_only_calculation_left {l r : SetValue} (hr : ∀ y ∈ r.operands, ¬ x.Alike y)
    (sign : Sign) :
    (calculation sign l r).regrouped.eval (.only x) = l.regrouped.eval (.only x) ∧
      (calculation sign l r).eval (.only x) = l.eval (.only x) := by
  obtain ⟨hzero, hfirst⟩ := eval_only_regrouped_eq_zero hr
  constructor
  · rw [regrouped, eval_attach, hzero, hfirst, sub_zero, add_zero, Sign.apply_zero]
  · rw [eval, eval_only_eq_zero hr, Sign.apply_zero]

/-- An operand on the right only, which is one term or stands behind a plus. -/
theorem eval_only_calculation_right {l r : SetValue} (hl : ∀ y ∈ l.operands, ¬ x.Alike y)
    (hsign : sign = .plus ∨ r.isCalculation = false) :
    (calculation sign l r).regrouped.eval (.only x) = sign.apply 0 (r.regrouped.eval (.only x)) ∧
      (calculation sign l r).eval (.only x) = sign.apply 0 (r.eval (.only x)) := by
  obtain ⟨hzero, -⟩ := eval_only_regrouped_eq_zero hl
  constructor
  · rcases hsign with rfl | hterm
    · rw [regrouped, eval_attach_plus, hzero, Sign.apply]
    · rw [regrouped, eval_attach, leading_regrouped_of_isCalculation hterm, sub_self, add_zero,
        hzero]
  · rw [eval, eval_only_eq_zero hl]

/-- A value that is not grouped has a part that is not, or a right side with several terms behind a
minus. -/
theorem isGrouped_calculation_eq_false {l r : SetValue}
    (h : (calculation sign l r).isGrouped = false) :
    l.isGrouped = false ∨ (r.isGrouped = false ∧ (sign = .plus ∨ r.isCalculation = false)) ∨
      (sign = .minus ∧ r.isCalculation = true) := by
  cases sign with
  | plus => simpa [isGrouped, imp_iff_not_or] using h
  | minus =>
    rw [isGrouped, Bool.and_eq_false_iff, Bool.and_eq_false_iff, Bool.not_eq_false'] at h
    by_cases hterm : r.isCalculation = true
    · exact .inr (.inr ⟨rfl, hterm⟩)
    · rcases h with (hl | hr) | hr
      · exact .inl hl
      · exact .inr (.inl ⟨hr, .inr (eq_false_of_ne_true hterm)⟩)
      · exact absurd hr hterm

/-- **Where the value is not grouped its number is not kept**, if no operand occurs twice. -/
theorem exists_eval_regrouped_ne {value : SetValue} (hlinear : value.IsLinear)
    (h : value.isGrouped = false) :
    ∃ x ∈ value.operands, value.regrouped.eval (.only x) ≠ value.eval (.only x) := by
  have hcross : ∀ {l r : SetValue}, (∀ x ∈ l.operands, ∀ y ∈ r.operands, ¬ x.Alike y) →
      ∀ y ∈ r.operands, ∀ x ∈ l.operands, ¬ y.Alike x :=
    fun hlr y hy x hx halike => hlr x hx y hy halike.symm
  induction value with
  | operand => cases h
  | calculation sign l r ihl ihr =>
    obtain ⟨hl, hr, hlr⟩ := List.pairwise_append.mp hlinear
    rcases isGrouped_calculation_eq_false h with hleft | ⟨hright, hsign⟩ | ⟨rfl, hterms⟩
    · obtain ⟨x, hx, hne⟩ := ihl hl hleft
      obtain ⟨hread, hmeant⟩ := eval_only_calculation_left (hlr x hx) sign
      exact ⟨x, List.mem_append_left _ hx, by rwa [hread, hmeant]⟩
    · obtain ⟨x, hx, hne⟩ := ihr hr hright
      obtain ⟨hread, hmeant⟩ := eval_only_calculation_right (hcross hlr x hx) hsign
      refine ⟨x, List.mem_append_right _ hx, ?_⟩
      rw [hread, hmeant]
      exact (sign.apply_right_injective 0).ne hne
    · cases r with
      | calculation next r r' =>
        -- the first operand behind the sign that comes to count as it is written
        obtain ⟨-, hr', hrr'⟩ := List.pairwise_append.mp hr
        obtain ⟨x, rest, hx⟩ := List.exists_cons_of_ne_nil r'.operands_ne_nil
        have hmem : x ∈ r'.operands := hx ▸ List.mem_cons_self
        have hmem' : x ∈ (calculation next r r').operands := List.mem_append_right _ hmem
        rw [hx] at hr'
        exact ⟨x, List.mem_append_right _ hmem', eval_only_difference_ne (hcross hlr x hmem')
          (hcross hrr' x hmem) hx (List.pairwise_cons.mp hr').1⟩
      | _ => cases hterms
  | ifNotExists steps fallback ih => exact ih hlinear h
  | listAppend l r ihl ihr =>
    obtain ⟨hl, hr, hlr⟩ := List.pairwise_append.mp hlinear
    rcases Bool.and_eq_false_iff.mp h with hleft | hright
    · obtain ⟨x, hx, hne⟩ := ihl hl hleft
      obtain ⟨hzero, -⟩ := eval_only_regrouped_eq_zero (hlr x hx)
      refine ⟨x, List.mem_append_left _ hx, ?_⟩
      rw [regrouped, eval, eval, hzero, eval_only_eq_zero (hlr x hx)]
      exact (add_left_injective (0 : ℚ)).ne hne
    · obtain ⟨x, hx, hne⟩ := ihr hr hright
      obtain ⟨hzero, -⟩ := eval_only_regrouped_eq_zero (hcross hlr x hx)
      refine ⟨x, List.mem_append_right _ hx, ?_⟩
      rw [regrouped, eval, eval, hzero, eval_only_eq_zero (hcross hlr x hx)]
      exact (add_right_injective (0 : ℚ)).ne hne

end

end SetValue

end ItemMapper
