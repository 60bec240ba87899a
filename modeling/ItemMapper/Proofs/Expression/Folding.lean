import ItemMapper.Expression.Folding
import ItemMapper.Proofs.Computation

/-!
# Successful foldings

What each step of folding does where it succeeds, and one induction over successful foldings for all
that is to be shown of folded expressions. A step computes a value, or replaces a logical operator by one
of its sides or by a truth value, or leaves the node over its folded parts as it is; it leaves only nodes
that are not reducible.

So folding ends in a normal form: no part of a folded expression is reducible, at any depth and also in
the arguments of calls. Folding changes nothing in such an expression, and runs nothing.

## Main definitions

* `Expr.isReducible`: a node that folding replaces by something else.
* `Expr.parts`, `Expr.IsFolded`: an expression that has no reducible part.
* `Expr.Row`: several expressions folded from the first to the last.

## Main statements

* `Expr.foldBinary_cases` and the like: what the steps do.
* `Expr.KeptByFolding.of_fold`: induction over a successful folding.
* `Expr.IsFolded.fold_eq`: folding leaves a normal form as it is.
* `Expr.isFolded_fold`: a folded expression is in normal form, and folding it again changes nothing.
-/

namespace ItemMapper

/-- Whether a truth value on one side of a logical operator is the value of the whole. -/
def BinaryOp.isSettledBy : BinaryOp → Bool → Bool
  | .and, b => !b
  | _, b => b

namespace Expr

/-- Whether the expression is a constant. -/
def isConstant : Expr → Bool
  | .constant _ => true
  | _ => false

/-- Whether folding replaces the node, its parts being folded: it is a deferred value, computes with
constants only, joins a constant to a truth value, or chooses by a constant. -/
def isReducible : Expr → Bool
  | .deferred _ => true
  | .member parent _ => parent.isConstant
  | .index parent position => parent.isConstant && position.isConstant
  | .binary op left right =>
    left.isConstant && right.isConstant || op.isLogical && (left.isConstant || right.isConstant)
  | .unary _ operand => operand.isConstant
  | .conditional test _ _ => test.isConstant
  | .enumConvert operand _ => operand.isConstant
  | _ => false

theorem isConstant_eq_true {e : Expr} : e.isConstant = true ↔ ∃ value, e = .constant value := by
  constructor
  · intro h
    cases e with
    | constant value => exact ⟨value, rfl⟩
    | _ => cases h
  · rintro ⟨value, rfl⟩
    rfl

/-! ### The steps -/

section
variable {parent position left right operand test other e : Expr}

theorem foldMember_eq_self (h : parent.isConstant = false) (name : String) :
    foldMember parent name = .ok (.member parent name) := by
  cases parent with
  | constant value => cases h
  | _ => rfl

theorem foldUnary_eq_self (h : operand.isConstant = false) (op : UnaryOp) :
    foldUnary op operand = .ok (.unary op operand) := by
  cases operand with
  | constant value => cases h
  | _ => rfl

theorem foldEnumConvert_eq_self (h : operand.isConstant = false) (type : EnumType) :
    foldEnumConvert operand type = .ok (.enumConvert operand type) := by
  cases operand with
  | constant value => cases h
  | _ => rfl

theorem foldIndex_eq_self (h : (Expr.index parent position).isReducible = false) :
    foldIndex parent position = .ok (.index parent position) := by
  cases parent with
  | constant value =>
    cases position with
    | constant key => cases h
    | _ => rfl
  | _ => rfl

theorem foldBinary_eq_self {op : BinaryOp} (h : (Expr.binary op left right).isReducible = false) :
    foldBinary op left right = .ok (.binary op left right) := by
  unfold foldBinary
  split
  · cases h
  · rw [if_neg]
    intro hlogical
    rw [isReducible, hlogical] at h
    simp [isConstant] at h
  · rw [if_neg]
    intro hlogical
    rw [isReducible, hlogical] at h
    simp [isConstant] at h
  · rfl

theorem foldBinary_constant_left {op : BinaryOp} (value : Value) (h : right.isConstant = false) :
    foldBinary op (.constant value) right =
      if op.isLogical then foldLogical op value right
      else .ok (.binary op (.constant value) right) := by
  cases right with
  | constant other => cases h
  | _ => rfl

theorem foldBinary_constant_right {op : BinaryOp} (value : Value) (h : left.isConstant = false) :
    foldBinary op left (.constant value) =
      if op.isLogical then foldLogical op value left
      else .ok (.binary op left (.constant value)) := by
  cases left with
  | constant other => cases h
  | _ => rfl

theorem foldMember_cases {name : String} (h : foldMember parent name = .ok e) :
    (∃ value result, parent = .constant value ∧ value.member name = .ok result ∧
      e = .constant result) ∨
    (Expr.member parent name).isReducible = false ∧ e = .member parent name := by
  by_cases hparent : parent.isConstant = true
  · obtain ⟨value, rfl⟩ := isConstant_eq_true.mp hparent
    obtain ⟨result, hresult, rfl⟩ := except_map_eq_ok.mp h
    exact .inl ⟨value, result, rfl, hresult, rfl⟩
  · have hparent := eq_false_of_ne_true hparent
    cases (foldMember_eq_self hparent name).symm.trans h
    exact .inr ⟨hparent, rfl⟩

theorem foldUnary_cases {op : UnaryOp} (h : foldUnary op operand = .ok e) :
    (∃ value result, operand = .constant value ∧ Value.applyUnary op value = .ok result ∧
      e = .constant result) ∨
    (Expr.unary op operand).isReducible = false ∧ e = .unary op operand := by
  by_cases hoperand : operand.isConstant = true
  · obtain ⟨value, rfl⟩ := isConstant_eq_true.mp hoperand
    obtain ⟨result, hresult, rfl⟩ := except_map_eq_ok.mp h
    exact .inl ⟨value, result, rfl, hresult, rfl⟩
  · have hoperand := eq_false_of_ne_true hoperand
    cases (foldUnary_eq_self hoperand op).symm.trans h
    exact .inr ⟨hoperand, rfl⟩

theorem foldEnumConvert_cases {type : EnumType} (h : foldEnumConvert operand type = .ok e) :
    (∃ value result, operand = .constant value ∧ Value.toEnum type value = .ok result ∧
      e = .constant result) ∨
    (Expr.enumConvert operand type).isReducible = false ∧ e = .enumConvert operand type := by
  by_cases hoperand : operand.isConstant = true
  · obtain ⟨value, rfl⟩ := isConstant_eq_true.mp hoperand
    obtain ⟨result, hresult, rfl⟩ := except_map_eq_ok.mp h
    exact .inl ⟨value, result, rfl, hresult, rfl⟩
  · have hoperand := eq_false_of_ne_true hoperand
    cases (foldEnumConvert_eq_self hoperand type).symm.trans h
    exact .inr ⟨hoperand, rfl⟩

theorem foldIndex_cases (h : foldIndex parent position = .ok e) :
    (∃ value key result, parent = .constant value ∧ position = .constant key ∧
      value.element key = .ok result ∧ e = .constant result) ∨
    (Expr.index parent position).isReducible = false ∧ e = .index parent position := by
  by_cases hboth : (Expr.index parent position).isReducible = true
  · obtain ⟨hparent, hposition⟩ := Bool.and_eq_true_iff.mp hboth
    obtain ⟨value, rfl⟩ := isConstant_eq_true.mp hparent
    obtain ⟨key, rfl⟩ := isConstant_eq_true.mp hposition
    obtain ⟨result, hresult, rfl⟩ := except_map_eq_ok.mp h
    exact .inl ⟨value, key, result, rfl, rfl, hresult, rfl⟩
  · have hboth := eq_false_of_ne_true hboth
    cases (foldIndex_eq_self hboth).symm.trans h
    exact .inr ⟨hboth, rfl⟩

theorem foldLogical_cases {op : BinaryOp} {value : Value} (hop : op.isLogical = true)
    (h : foldLogical op value other = .ok e) :
    ∃ b, value.asBool? = some b ∧
      e = if op.isSettledBy b then .constant (.bool b) else other := by
  unfold foldLogical at h
  split at h
  · cases h
  · rename_i b hb
    refine ⟨b, hb, ?_⟩
    cases op with
    | and | or => cases b <;> exact (Except.ok.inj h).symm
    | _ => cases hop

/-- An operator is computed if both sides are constant. If one of them is and the operator is logical, the
truth value of this side is the whole or leaves the other side. -/
theorem foldBinary_cases {op : BinaryOp} (h : foldBinary op left right = .ok e) :
    (∃ x y result, left = .constant x ∧ right = .constant y ∧
      Value.applyBinary op x y = .ok result ∧ e = .constant result) ∨
    (∃ value b other, op.isLogical = true ∧ value.asBool? = some b ∧ other.isConstant = false ∧
      (left = .constant value ∧ right = other ∨ left = other ∧ right = .constant value) ∧
      e = if op.isSettledBy b then .constant (.bool b) else other) ∨
    (Expr.binary op left right).isReducible = false ∧ e = .binary op left right := by
  by_cases hreducible : (Expr.binary op left right).isReducible = true
  · by_cases hleft : left.isConstant = true
    · obtain ⟨x, rfl⟩ := isConstant_eq_true.mp hleft
      by_cases hright : right.isConstant = true
      · obtain ⟨y, rfl⟩ := isConstant_eq_true.mp hright
        obtain ⟨result, hresult, rfl⟩ := except_map_eq_ok.mp h
        exact .inl ⟨x, y, result, rfl, rfl, hresult, rfl⟩
      · have hright := eq_false_of_ne_true hright
        rw [isReducible, hright, Bool.and_false, Bool.false_or, Bool.and_eq_true] at hreducible
        have hop : op.isLogical = true := hreducible.1
        rw [foldBinary_constant_left x hright, if_pos hop] at h
        obtain ⟨b, hb, rfl⟩ := foldLogical_cases hop h
        exact .inr (.inl ⟨x, b, right, hop, hb, hright, .inl ⟨rfl, rfl⟩, rfl⟩)
    · have hleft := eq_false_of_ne_true hleft
      rw [isReducible, hleft, Bool.false_and, Bool.false_or, Bool.false_or, Bool.and_eq_true]
        at hreducible
      obtain ⟨hop, hright⟩ := hreducible
      obtain ⟨y, rfl⟩ := isConstant_eq_true.mp hright
      rw [foldBinary_constant_right y hleft, if_pos hop] at h
      obtain ⟨b, hb, rfl⟩ := foldLogical_cases hop h
      exact .inr (.inl ⟨y, b, left, hop, hb, hleft, .inr ⟨rfl, rfl⟩, rfl⟩)
  · have hreducible := eq_false_of_ne_true hreducible
    cases (foldBinary_eq_self hreducible).symm.trans h
    exact .inr (.inr ⟨hreducible, rfl⟩)

theorem testValue_eq_ok {value : Value} {b : Bool} :
    testValue value = .ok b ↔ value.asBool? = some b := by
  unfold testValue
  cases value.asBool? with
  | none => simp
  | some c => simp

end

/-! ### Induction over a folding -/

/-- Several expressions with what they are folded to, from the first to the last: each one is related to
its result and to the states before and after it. -/
inductive Row (R : Expr → Nat → Expr → Nat → Prop) : List Expr → Nat → List Expr → Nat → Prop
  | nil (n : Nat) : Row R [] n [] n
  | cons {arg arg' : Expr} {args args' : List Expr} {n m k : Nat} :
      R arg n arg' m → Row R args m args' k → Row R (arg :: args) n (arg' :: args') k

/-- What holds of the leaves, with the states before and after, and is kept by each step of folding. -/
structure KeptByFolding (R : Expr → Nat → Expr → Nat → Prop) : Prop where
  item : ∀ n, R .item n .item n
  constant : ∀ value n, R (.constant value) n (.constant value) n
  raw : ∀ text n, R (.raw text) n (.raw text) n
  deferred : ∀ {compute : Deferral} {value n k}, compute n = .ok value k →
    R (.deferred compute) n (.constant value) k
  member : ∀ {parent parent' : Expr} {name e n k}, R parent n parent' k →
    foldMember parent' name = .ok e → R (.member parent name) n e k
  index : ∀ {parent parent' position position' e : Expr} {n m k}, R parent n parent' m →
    R position m position' k → foldIndex parent' position' = .ok e → R (.index parent position) n e k
  binary : ∀ {op} {left left' right right' e : Expr} {n m k}, R left n left' m →
    R right m right' k → foldBinary op left' right' = .ok e → R (.binary op left right) n e k
  unary : ∀ {op} {operand operand' e : Expr} {n k}, R operand n operand' k →
    foldUnary op operand' = .ok e → R (.unary op operand) n e k
  call : ∀ {function args args' n k}, Row R args n args' k →
    R (.call function args) n (.call function args') k
  /-- The test is constant, and only the branch that it chooses is folded. -/
  chosen : ∀ {test thenBranch elseBranch e : Expr} {value b n m k}, R test n (.constant value) m →
    value.asBool? = some b → R (if b then thenBranch else elseBranch) m e k →
    R (.conditional test thenBranch elseBranch) n e k
  conditional : ∀ {test test' thenBranch thenBranch' elseBranch elseBranch' : Expr} {n m l k},
    R test n test' m → test'.isConstant = false → R thenBranch m thenBranch' l →
    R elseBranch l elseBranch' k →
    R (.conditional test thenBranch elseBranch) n (.conditional test' thenBranch' elseBranch') k
  enumConvert : ∀ {operand operand' e : Expr} {type n k}, R operand n operand' k →
    foldEnumConvert operand' type = .ok e → R (.enumConvert operand type) n e k

section
variable {R : Expr → Nat → Expr → Nat → Prop}

mutual
/-- **Induction over a successful folding.** -/
theorem KeptByFolding.of_fold (hR : KeptByFolding R) :
    ∀ {e e' : Expr} {n k : Nat}, e.fold n = .ok e' k → R e n e' k
  | .item, _, _, _, h => by
    obtain ⟨rfl, rfl⟩ := pure_eq_ok.mp h
    exact hR.item _
  | .constant value, _, _, _, h => by
    obtain ⟨rfl, rfl⟩ := pure_eq_ok.mp h
    exact hR.constant value _
  | .raw text, _, _, _, h => by
    obtain ⟨rfl, rfl⟩ := pure_eq_ok.mp h
    exact hR.raw text _
  | .deferred _, _, _, _, h => by
    obtain ⟨value, _, hvalue, h⟩ := bind_eq_ok.mp h
    obtain ⟨rfl, rfl⟩ := pure_eq_ok.mp h
    exact hR.deferred hvalue
  | .member _ _, _, _, _, h => by
    rw [fold] at h
    obtain ⟨parent, _, hparent, h⟩ := bind_eq_ok.mp h
    obtain ⟨hstep, rfl⟩ := FoldM.ofExcept_eq_ok.mp h
    exact hR.member (hR.of_fold hparent) hstep
  | .index _ _, _, _, _, h => by
    rw [fold] at h
    obtain ⟨parent, _, hparent, h⟩ := bind_eq_ok.mp h
    obtain ⟨position, _, hposition, h⟩ := bind_eq_ok.mp h
    obtain ⟨hstep, rfl⟩ := FoldM.ofExcept_eq_ok.mp h
    exact hR.index (hR.of_fold hparent) (hR.of_fold hposition) hstep
  | .binary _ _ _, _, _, _, h => by
    rw [fold] at h
    obtain ⟨left, _, hleft, h⟩ := bind_eq_ok.mp h
    obtain ⟨right, _, hright, h⟩ := bind_eq_ok.mp h
    obtain ⟨hstep, rfl⟩ := FoldM.ofExcept_eq_ok.mp h
    exact hR.binary (hR.of_fold hleft) (hR.of_fold hright) hstep
  | .unary _ _, _, _, _, h => by
    rw [fold] at h
    obtain ⟨operand, _, hoperand, h⟩ := bind_eq_ok.mp h
    obtain ⟨hstep, rfl⟩ := FoldM.ofExcept_eq_ok.mp h
    exact hR.unary (hR.of_fold hoperand) hstep
  | .call _ _, _, _, _, h => by
    rw [fold] at h
    obtain ⟨args, _, hargs, h⟩ := bind_eq_ok.mp h
    obtain ⟨rfl, rfl⟩ := pure_eq_ok.mp h
    exact hR.call (hR.of_foldAll hargs)
  | .conditional test thenBranch elseBranch, _, _, _, h => by
    rw [fold] at h
    obtain ⟨folded, _, htest, h⟩ := bind_eq_ok.mp h
    split at h
    · obtain ⟨b, _, hb, h⟩ := bind_eq_ok.mp h
      obtain ⟨htrue, rfl⟩ := FoldM.ofExcept_eq_ok.mp hb
      refine hR.chosen (hR.of_fold htest) (testValue_eq_ok.mp htrue) ?_
      cases b with
      | true => exact hR.of_fold h
      | false => exact hR.of_fold h
    · rename_i hconstant
      obtain ⟨thenFolded, _, hthen, h⟩ := bind_eq_ok.mp h
      obtain ⟨elseFolded, _, helse, h⟩ := bind_eq_ok.mp h
      obtain ⟨rfl, rfl⟩ := pure_eq_ok.mp h
      refine hR.conditional (hR.of_fold htest) (eq_false_of_ne_true fun hfolded => ?_)
        (hR.of_fold hthen) (hR.of_fold helse)
      obtain ⟨value, rfl⟩ := isConstant_eq_true.mp hfolded
      exact hconstant value rfl
  | .enumConvert _ _, _, _, _, h => by
    rw [fold] at h
    obtain ⟨operand, _, hoperand, h⟩ := bind_eq_ok.mp h
    obtain ⟨hstep, rfl⟩ := FoldM.ofExcept_eq_ok.mp h
    exact hR.enumConvert (hR.of_fold hoperand) hstep

theorem KeptByFolding.of_foldAll (hR : KeptByFolding R) :
    ∀ {args args' : List Expr} {n k : Nat}, foldAll args n = .ok args' k → Row R args n args' k
  | [], _, _, _, h => by
    obtain ⟨rfl, rfl⟩ := pure_eq_ok.mp h
    exact .nil _
  | _ :: _, _, _, _, h => by
    rw [foldAll] at h
    obtain ⟨arg, _, harg, h⟩ := bind_eq_ok.mp h
    obtain ⟨rest, _, hrest, h⟩ := bind_eq_ok.mp h
    obtain ⟨rfl, rfl⟩ := pure_eq_ok.mp h
    exact .cons (hR.of_fold harg) (hR.of_foldAll hrest)
end

end

/-! ### Normal forms -/

mutual
/-- The expression and all its parts, at any depth. -/
def parts : Expr → List Expr
  | .member parent name => .member parent name :: parent.parts
  | .index parent position => .index parent position :: (parent.parts ++ position.parts)
  | .binary op left right => .binary op left right :: (left.parts ++ right.parts)
  | .unary op operand => .unary op operand :: operand.parts
  | .call function args => .call function args :: partsOfAll args
  | .conditional test thenBranch elseBranch =>
    .conditional test thenBranch elseBranch ::
      (test.parts ++ (thenBranch.parts ++ elseBranch.parts))
  | .enumConvert operand type => .enumConvert operand type :: operand.parts
  | leaf => [leaf]

/-- The parts of several expressions. -/
def partsOfAll : List Expr → List Expr
  | [] => []
  | arg :: rest => arg.parts ++ partsOfAll rest
end

/-- No part of the expression is reducible. -/
def IsFolded (e : Expr) : Prop := ∀ part ∈ e.parts, part.isReducible = false

/-- No part of any of the expressions is reducible. -/
def AllFolded (args : List Expr) : Prop := ∀ part ∈ partsOfAll args, part.isReducible = false

section
variable {parent position left right operand test thenBranch elseBranch arg : Expr}

theorem isFolded_member {name : String} :
    IsFolded (.member parent name) ↔
      (Expr.member parent name).isReducible = false ∧ parent.IsFolded :=
  List.forall_mem_cons

theorem isFolded_index :
    IsFolded (.index parent position) ↔
      (Expr.index parent position).isReducible = false ∧ parent.IsFolded ∧ position.IsFolded :=
  List.forall_mem_cons.trans (and_congr_right' List.forall_mem_append)

theorem isFolded_binary {op : BinaryOp} :
    IsFolded (.binary op left right) ↔
      (Expr.binary op left right).isReducible = false ∧ left.IsFolded ∧ right.IsFolded :=
  List.forall_mem_cons.trans (and_congr_right' List.forall_mem_append)

theorem isFolded_unary {op : UnaryOp} :
    IsFolded (.unary op operand) ↔
      (Expr.unary op operand).isReducible = false ∧ operand.IsFolded :=
  List.forall_mem_cons

theorem isFolded_call {function : StoreFunction} {args : List Expr} :
    IsFolded (.call function args) ↔ AllFolded args :=
  List.forall_mem_cons.trans (and_iff_right rfl)

theorem isFolded_conditional :
    IsFolded (.conditional test thenBranch elseBranch) ↔
      test.isConstant = false ∧ test.IsFolded ∧ thenBranch.IsFolded ∧ elseBranch.IsFolded :=
  List.forall_mem_cons.trans
    (and_congr_right' (List.forall_mem_append.trans (and_congr_right' List.forall_mem_append)))

theorem isFolded_enumConvert {type : EnumType} :
    IsFolded (.enumConvert operand type) ↔
      (Expr.enumConvert operand type).isReducible = false ∧ operand.IsFolded :=
  List.forall_mem_cons

theorem allFolded_cons {args : List Expr} :
    AllFolded (arg :: args) ↔ arg.IsFolded ∧ AllFolded args :=
  List.forall_mem_append

end

theorem isFolded_constant (value : Value) : IsFolded (.constant value) :=
  List.forall_mem_singleton.mpr rfl

theorem isFolded_item : IsFolded .item := List.forall_mem_singleton.mpr rfl

theorem isFolded_raw (text : RawExpression) : IsFolded (.raw text) :=
  List.forall_mem_singleton.mpr rfl

theorem allFolded_of_row {args args' : List Expr} {n k : Nat}
    (h : Row (fun _ _ e' _ => e'.IsFolded) args n args' k) : AllFolded args' := by
  induction h with
  | nil => exact nofun
  | cons harg _ ih => exact allFolded_cons.mpr ⟨harg, ih⟩

section
variable {parent position left right operand e : Expr}

theorem IsFolded.of_foldMember {name : String} (hparent : parent.IsFolded)
    (h : foldMember parent name = .ok e) : e.IsFolded := by
  rcases foldMember_cases h with ⟨_, result, -, -, rfl⟩ | ⟨hself, rfl⟩
  · exact isFolded_constant result
  · exact isFolded_member.mpr ⟨hself, hparent⟩

theorem IsFolded.of_foldIndex (hparent : parent.IsFolded) (hposition : position.IsFolded)
    (h : foldIndex parent position = .ok e) : e.IsFolded := by
  rcases foldIndex_cases h with ⟨_, _, result, -, -, -, rfl⟩ | ⟨hself, rfl⟩
  · exact isFolded_constant result
  · exact isFolded_index.mpr ⟨hself, hparent, hposition⟩

theorem IsFolded.of_foldBinary {op : BinaryOp} (hleft : left.IsFolded) (hright : right.IsFolded)
    (h : foldBinary op left right = .ok e) : e.IsFolded := by
  rcases foldBinary_cases h with ⟨_, _, result, -, -, -, rfl⟩ |
    ⟨_, b, other, -, -, -, hsides, rfl⟩ | ⟨hself, rfl⟩
  · exact isFolded_constant result
  · split
    · exact isFolded_constant (.bool b)
    · rcases hsides with ⟨-, rfl⟩ | ⟨rfl, -⟩
      · exact hright
      · exact hleft
  · exact isFolded_binary.mpr ⟨hself, hleft, hright⟩

theorem IsFolded.of_foldUnary {op : UnaryOp} (hoperand : operand.IsFolded)
    (h : foldUnary op operand = .ok e) : e.IsFolded := by
  rcases foldUnary_cases h with ⟨_, result, -, -, rfl⟩ | ⟨hself, rfl⟩
  · exact isFolded_constant result
  · exact isFolded_unary.mpr ⟨hself, hoperand⟩

theorem IsFolded.of_foldEnumConvert {type : EnumType} (hoperand : operand.IsFolded)
    (h : foldEnumConvert operand type = .ok e) : e.IsFolded := by
  rcases foldEnumConvert_cases h with ⟨_, result, -, -, rfl⟩ | ⟨hself, rfl⟩
  · exact isFolded_constant result
  · exact isFolded_enumConvert.mpr ⟨hself, hoperand⟩

end

/-- Each step leaves a normal form if the parts were in normal form. -/
theorem keptByFolding_isFolded : KeptByFolding fun _ _ e' _ => e'.IsFolded where
  item _ := isFolded_item
  constant value _ := isFolded_constant value
  raw text _ := isFolded_raw text
  deferred _ := isFolded_constant _
  member hparent h := hparent.of_foldMember h
  index hparent hposition h := hparent.of_foldIndex hposition h
  binary hleft hright h := hleft.of_foldBinary hright h
  unary hoperand h := hoperand.of_foldUnary h
  call hargs := isFolded_call.mpr (allFolded_of_row hargs)
  chosen _ _ hbranch := hbranch
  conditional htest hconstant hthen helse :=
    isFolded_conditional.mpr ⟨hconstant, htest, hthen, helse⟩
  enumConvert hoperand h := hoperand.of_foldEnumConvert h

mutual
/-- **Folding leaves a normal form as it is**, and runs nothing. -/
theorem IsFolded.fold_eq : ∀ {e : Expr}, e.IsFolded → ∀ n, e.fold n = .ok e n
  | .item, _, _ | .constant _, _, _ | .raw _, _, _ => rfl
  | .deferred _, h, _ => nomatch List.forall_mem_singleton.mp h
  | .member parent name, h, n => by
    obtain ⟨hself, hparent⟩ := isFolded_member.mp h
    rw [fold, bind_eq_ok]
    exact ⟨parent, n, hparent.fold_eq n, by rw [foldMember_eq_self hself]; rfl⟩
  | .index parent position, h, n => by
    obtain ⟨hself, hparent, hposition⟩ := isFolded_index.mp h
    rw [fold, bind_eq_ok]
    refine ⟨parent, n, hparent.fold_eq n, bind_eq_ok.mpr ⟨position, n, hposition.fold_eq n, ?_⟩⟩
    rw [foldIndex_eq_self hself]
    rfl
  | .binary op left right, h, n => by
    obtain ⟨hself, hleft, hright⟩ := isFolded_binary.mp h
    rw [fold, bind_eq_ok]
    refine ⟨left, n, hleft.fold_eq n, bind_eq_ok.mpr ⟨right, n, hright.fold_eq n, ?_⟩⟩
    rw [foldBinary_eq_self hself]
    rfl
  | .unary op operand, h, n => by
    obtain ⟨hself, hoperand⟩ := isFolded_unary.mp h
    rw [fold, bind_eq_ok]
    exact ⟨operand, n, hoperand.fold_eq n, by rw [foldUnary_eq_self hself]; rfl⟩
  | .call function args, h, n => by
    rw [fold, bind_eq_ok]
    exact ⟨args, n, (isFolded_call.mp h).foldAll_eq n, rfl⟩
  | .conditional test thenBranch elseBranch, h, n => by
    obtain ⟨hconstant, htest, hthen, helse⟩ := isFolded_conditional.mp h
    rw [fold, bind_eq_ok]
    refine ⟨test, n, htest.fold_eq n, ?_⟩
    split
    · cases hconstant
    · exact bind_eq_ok.mpr ⟨thenBranch, n, hthen.fold_eq n,
        bind_eq_ok.mpr ⟨elseBranch, n, helse.fold_eq n, rfl⟩⟩
  | .enumConvert operand type, h, n => by
    obtain ⟨hself, hoperand⟩ := isFolded_enumConvert.mp h
    rw [fold, bind_eq_ok]
    exact ⟨operand, n, hoperand.fold_eq n, by rw [foldEnumConvert_eq_self hself]; rfl⟩

theorem AllFolded.foldAll_eq : ∀ {args : List Expr}, AllFolded args → ∀ n, foldAll args n = .ok args n
  | [], _, _ => rfl
  | arg :: rest, h, n => by
    obtain ⟨harg, hrest⟩ := allFolded_cons.mp h
    rw [foldAll, bind_eq_ok]
    exact ⟨arg, n, harg.fold_eq n, bind_eq_ok.mpr ⟨rest, n, hrest.foldAll_eq n, rfl⟩⟩
end

/-- **Folding reaches a normal form.** If an expression can be folded, no part of the result is reducible:
it has no deferred value, computes nothing with constants only, joins no truth value to a constant and
chooses by no constant, at any depth and also in the arguments of calls. Folding the result once more,
from any state, gives the same result and runs nothing. -/
theorem isFolded_fold {e e' : Expr} {n k : Nat} (h : e.fold n = .ok e' k) :
    (∀ part ∈ e'.parts, part.isReducible = false) ∧ ∀ m, e'.fold m = .ok e' m := by
  have hfolded : e'.IsFolded := keptByFolding_isFolded.of_fold h
  exact ⟨hfolded, hfolded.fold_eq⟩

/-- Counts how often it is computed. -/
def counting : Deferral := fun n => .ok (.int n) (n + 1)

/-- Deferred values beside a constant and in the argument of a call, under operators and a conditional
that are settled by constants. -/
def settledChoice : Expr :=
  .binary .or
    (.binary .and
      (.binary .eq (.deferred counting) (.constant (.int 0)))
      (.call .contains [.member .item "tags",
        .index (.constant (.list [.text "x", .text "y"])) (.deferred counting)]))
    (.conditional (.unary .not (.constant (.bool true)))
      (.raw (.ofText "a = b"))
      (.member (.constant (.map [("on", .bool false)])) "on"))

/-- What is left of it. -/
def remainingCall : Expr := .call .contains [.member .item "tags", .constant (.text "y")]

theorem isFolded_fold_settledChoice :
    settledChoice.fold 0 = .ok remainingCall 2 ∧
      (∀ part ∈ remainingCall.parts, part.isReducible = false) ∧
        ∀ m, remainingCall.fold m = .ok remainingCall m :=
  ⟨rfl, isFolded_fold (e := settledChoice) (n := 0) (k := 2) rfl⟩

end Expr

end ItemMapper
