import ItemMapper.Proofs.Expression.Folding

/-!
# Raw text in expressions

Raw text is the only part of an expression whose placeholders the application chooses. Folding may
drop such a part, but never makes one.

## Main definitions

* `Expr.raws`: the raw parts of an expression.

## Main statements

* `Expr.raws_fold`: a folded expression has no other raw parts.
-/

namespace ItemMapper

namespace Expr

mutual
/-- The raw parts of an expression. -/
def raws : Expr → List RawExpression
  | .item | .constant _ | .deferred _ => []
  | .raw text => [text]
  | .member parent _ => parent.raws
  | .index parent position => parent.raws ++ position.raws
  | .binary _ left right => left.raws ++ right.raws
  | .unary _ operand => operand.raws
  | .call _ args => rawsOfAll args
  | .conditional test thenBranch elseBranch =>
    test.raws ++ (thenBranch.raws ++ elseBranch.raws)
  | .enumConvert operand _ => operand.raws

/-- The raw parts of several expressions. -/
def rawsOfAll : List Expr → List RawExpression
  | [] => []
  | arg :: rest => arg.raws ++ rawsOfAll rest
end

theorem raws_subset_rawsOfAll {arg : Expr} {args : List Expr} (h : arg ∈ args) :
    arg.raws ⊆ rawsOfAll args := by
  induction args with
  | nil => cases h
  | cons first rest ih =>
    rw [rawsOfAll]
    rcases List.mem_cons.mp h with rfl | h
    · exact List.subset_append_left _ _
    · exact List.subset_append_of_subset_right _ (ih h)

theorem raws_subset_of_mem_conjuncts {e c : Expr} (h : c ∈ e.conjuncts) : c.raws ⊆ e.raws := by
  fun_induction conjuncts e with
  | case1 left right ihl ihr =>
    rw [raws]
    rcases List.mem_append.mp h with h | h
    · exact List.subset_append_of_subset_left _ (ihl h)
    · exact List.subset_append_of_subset_right _ (ihr h)
  | case2 e =>
    rw [List.mem_singleton.mp h]
    exact List.Subset.refl _

/-- The parts of an expression without raw text have none. -/
theorem raws_eq_nil_of_subset {e c : Expr} (he : e.raws = []) (h : c.raws ⊆ e.raws) : c.raws = [] :=
  List.eq_nil_of_subset_nil (he ▸ h)

theorem append_subset_append {α : Type} {xs xs' ys ys' : List α} (hx : xs' ⊆ xs) (hy : ys' ⊆ ys) :
    xs' ++ ys' ⊆ xs ++ ys :=
  List.append_subset.mpr
    ⟨List.subset_append_of_subset_left _ hx, List.subset_append_of_subset_right _ hy⟩

/-! ### Folding the nodes -/

theorem raws_foldMember {parent e : Expr} {name : String} (h : foldMember parent name = .ok e) :
    e.raws ⊆ parent.raws := by
  rcases foldMember_cases h with ⟨_, _, -, -, rfl⟩ | ⟨-, rfl⟩
  · exact List.nil_subset _
  · exact List.Subset.refl _

theorem raws_foldIndex {parent position e : Expr} (h : foldIndex parent position = .ok e) :
    e.raws ⊆ parent.raws ++ position.raws := by
  rcases foldIndex_cases h with ⟨_, _, _, -, -, -, rfl⟩ | ⟨-, rfl⟩
  · exact List.nil_subset _
  · exact List.Subset.refl _

theorem raws_foldUnary {op : UnaryOp} {operand e : Expr} (h : foldUnary op operand = .ok e) :
    e.raws ⊆ operand.raws := by
  rcases foldUnary_cases h with ⟨_, _, -, -, rfl⟩ | ⟨-, rfl⟩
  · exact List.nil_subset _
  · exact List.Subset.refl _

theorem raws_foldEnumConvert {operand e : Expr} {type : EnumType}
    (h : foldEnumConvert operand type = .ok e) : e.raws ⊆ operand.raws := by
  rcases foldEnumConvert_cases h with ⟨_, _, -, -, rfl⟩ | ⟨-, rfl⟩
  · exact List.nil_subset _
  · exact List.Subset.refl _

theorem raws_foldBinary {op : BinaryOp} {left right e : Expr}
    (h : foldBinary op left right = .ok e) : e.raws ⊆ left.raws ++ right.raws := by
  rcases foldBinary_cases h with ⟨_, _, _, -, -, -, rfl⟩ | ⟨_, _, _, -, -, -, hsides, rfl⟩ | ⟨-, rfl⟩
  · exact List.nil_subset _
  · split
    · exact List.nil_subset _
    · rcases hsides with ⟨-, rfl⟩ | ⟨rfl, -⟩
      · exact List.subset_append_right _ _
      · exact List.subset_append_left _ _
  · exact List.Subset.refl _

/-! ### Folding a tree -/

theorem rawsOfAll_of_row {args args' : List Expr} {n k : Nat}
    (h : Row (fun e _ e' _ => e'.raws ⊆ e.raws) args n args' k) : rawsOfAll args' ⊆ rawsOfAll args := by
  induction h with
  | nil => exact List.Subset.refl _
  | cons harg _ ih => exact append_subset_append harg ih

/-- Each step makes no raw text. -/
theorem keptByFolding_raws : KeptByFolding fun e _ e' _ => e'.raws ⊆ e.raws where
  item _ := List.Subset.refl _
  constant _ _ := List.Subset.refl _
  raw _ _ := List.Subset.refl _
  deferred _ := List.nil_subset _
  member hparent h := List.Subset.trans (raws_foldMember h) hparent
  index hparent hposition h :=
    List.Subset.trans (raws_foldIndex h) (append_subset_append hparent hposition)
  binary hleft hright h := List.Subset.trans (raws_foldBinary h) (append_subset_append hleft hright)
  unary hoperand h := List.Subset.trans (raws_foldUnary h) hoperand
  call hargs := rawsOfAll_of_row hargs
  chosen {_ _ _ _ _ b _ _ _} _ _ hbranch := by
    refine List.subset_append_of_subset_right _ ?_
    cases b with
    | true => exact List.subset_append_of_subset_left _ hbranch
    | false => exact List.subset_append_of_subset_right _ hbranch
  conditional htest _ hthen helse := append_subset_append htest (append_subset_append hthen helse)
  enumConvert hoperand h := List.Subset.trans (raws_foldEnumConvert h) hoperand

/-- **Folding makes no raw text.** -/
theorem raws_fold {e e' : Expr} {n n' : Nat} (h : e.fold n = .ok e' n') : e'.raws ⊆ e.raws :=
  keptByFolding_raws.of_fold h

/-- A folded expression has raw parts with a property, where all raw parts have it. -/
theorem forall_raws_fold {P : RawExpression → Prop} {e e' : Expr} {n n' : Nat}
    (h : e.fold n = .ok e' n') (hP : ∀ raw ∈ e.raws, P raw) : ∀ raw ∈ e'.raws, P raw :=
  fun raw hraw => hP raw (raws_fold h hraw)

end Expr

end ItemMapper
