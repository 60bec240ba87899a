import Mathlib.Data.List.Forall2
import ItemMapper.Expression.Condition
import ItemMapper.Proofs.Expression.Folding

/-!
# Arguments of calls

A single list or set of candidates is taken apart before a call is written, so that its members are
candidates themselves. Other arguments stay as they are.

## Main definitions

* `Value.members?`: the candidates that a constant stands for.

## Main statements

* `Expr.spread_of_members`, `Expr.spread_eq_self`: the arguments that a call is written with.
* `Expr.forall₂_spread`: arguments that are alike stay alike.
-/

namespace ItemMapper

/-- The members of a list or a set. -/
def Value.members? : Value → Option (List Value)
  | .list items | .set items => some items
  | _ => none

namespace Expr

variable {function : StoreFunction} {first : Expr} {value : Value} {args args' : List Expr}

/-- A list or a set of candidates is taken apart. -/
theorem spread_of_members {items : List Value} (hfunction : function.isVariadic = true)
    (h : value.members? = some items) :
    spread function [first, .constant value] = first :: items.map .constant := by
  unfold spread
  rw [hfunction]
  cases value with
  | list _ | set _ =>
    cases h
    rfl
  | _ => cases h

/-- Other arguments stay. -/
theorem spread_eq_self (h : ∀ first value, args = [first, .constant value] →
    function.isVariadic = true → value.members? = none) : spread function args = args := by
  unfold spread
  split
  · cases h _ _ rfl ‹_›
  · cases h _ _ rfl ‹_›
  · rfl

/-- Only of two arguments can the second one be a single list of candidates. -/
theorem spread_of_length_ne (h : args.length ≠ 2) : spread function args = args := by
  refine spread_eq_self fun first value heq => ?_
  subst heq
  exact (h rfl).elim

/-- Arguments that are alike stay alike, where constants are alike to themselves only. -/
theorem forall₂_spread {R : Expr → Expr → Prop} (hrefl : ∀ value, R (.constant value) (.constant value))
    (hconstant : ∀ e e', R e e' → (∃ value, e = .constant value ∧ e' = .constant value) ∨
      e.isConstant = false ∧ e'.isConstant = false) (h : List.Forall₂ R args args') :
    List.Forall₂ R (spread function args) (spread function args') := by
  by_cases hlength : args.length = 2
  · obtain ⟨first, second, rfl⟩ := List.length_eq_two.mp hlength
    obtain ⟨first', _, hfirst, hrest, rfl⟩ := List.forall₂_cons_left_iff.mp h
    obtain ⟨second', _, hsecond, hnil, rfl⟩ := List.forall₂_cons_left_iff.mp hrest
    cases hnil
    rcases hconstant _ _ hsecond with ⟨value, rfl, rfl⟩ | ⟨hnot, hnot'⟩
    · by_cases hmembers : function.isVariadic = true ∧ value.members?.isSome = true
      · obtain ⟨items, hitems⟩ := Option.isSome_iff_exists.mp hmembers.2
        rw [spread_of_members hmembers.1 hitems, spread_of_members hmembers.1 hitems]
        refine .cons hfirst (List.forall₂_same.mpr fun arg harg => ?_)
        obtain ⟨item, -, rfl⟩ := List.mem_map.mp harg
        exact hrefl item
      · have hself : ∀ first : Expr,
            spread function [first, .constant value] = [first, .constant value] := by
          refine fun first => spread_eq_self fun _ _ heq hfunction => ?_
          cases heq
          exact Option.not_isSome_iff_eq_none.mp fun hsome => hmembers ⟨hfunction, hsome⟩
        rw [hself, hself]
        exact h
    · have hself : ∀ first second : Expr, second.isConstant = false →
          spread function [first, second] = [first, second] := by
        refine fun first second hsecond => spread_eq_self fun _ _ heq => ?_
        cases heq
        cases hsecond
      rw [hself _ _ hnot, hself _ _ hnot']
      exact h
  · rw [spread_of_length_ne hlength, spread_of_length_ne (h.length_eq ▸ hlength)]
    exact h

end Expr

end ItemMapper
