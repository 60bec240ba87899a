import ItemMapper.Expression.Basic
import ItemMapper.Expression.Evaluation

/-!
# Folding

Every part of an expression that depends neither on the item nor on raw text is replaced by its value.
A logical operator with one constant side is replaced by the other side or by the constant; a
conditional with a constant test is replaced by one of its branches, and only that branch is folded.
Calls stay, with folded arguments.

## Main definitions

* `Expr.fold`: the folded expression.
-/

namespace ItemMapper

/-- A computation that may run the application's deferred computations. -/
abbrev FoldM := EStateM Error Nat

/-- A result, without running anything. -/
def FoldM.ofExcept {α : Type} : Except Error α → FoldM α
  | .ok value => pure value
  | .error e => throw e

namespace Expr

/-- A logical operator with one constant side. -/
def foldLogical (op : BinaryOp) (value : Value) (other : Expr) : Except Error Expr :=
  match value.asBool? with
  | none =>
    .error (Value.complaint op s!"operand folded to non-boolean {value.kindName}")
  | some b =>
    match op, b with
    | .and, true | .or, false => .ok other
    | _, b => .ok (.constant (.bool b))

/-- An operator between folded expressions. -/
def foldBinary (op : BinaryOp) (left right : Expr) : Except Error Expr :=
  match left, right with
  | .constant x, .constant y => (Value.applyBinary op x y).map .constant
  | .constant x, other =>
    if op.isLogical then foldLogical op x other else .ok (.binary op (.constant x) other)
  | other, .constant y =>
    if op.isLogical then foldLogical op y other else .ok (.binary op other (.constant y))
  | left, right => .ok (.binary op left right)

/-- An operator on a folded expression. -/
def foldUnary (op : UnaryOp) (operand : Expr) : Except Error Expr :=
  match operand with
  | .constant value => (Value.applyUnary op value).map .constant
  | operand => .ok (.unary op operand)

/-- A member of a folded expression. -/
def foldMember (parent : Expr) (name : String) : Except Error Expr :=
  match parent with
  | .constant value => (value.member name).map .constant
  | parent => .ok (.member parent name)

/-- A folded expression at a folded position. -/
def foldIndex (parent position : Expr) : Except Error Expr :=
  match parent, position with
  | .constant value, .constant key => (value.element key).map .constant
  | parent, position => .ok (.index parent position)

/-- A folded expression as a variant of an enumeration. -/
def foldEnumConvert (operand : Expr) (type : EnumType) : Except Error Expr :=
  match operand with
  | .constant value => (Value.toEnum type value).map .constant
  | operand => .ok (.enumConvert operand type)

/-- The truth value of a constant test. -/
def testValue (value : Value) : Except Error Bool :=
  match value.asBool? with
  | some b => .ok b
  | none =>
    .error (Error.unsupported "conditional" s!"test folded to non-boolean {value.kindName}")

mutual
/-- The folded expression. -/
def fold : Expr → FoldM Expr
  | .item => pure .item
  | .constant value => pure (.constant value)
  | .raw text => pure (.raw text)
  | .deferred compute => do
    let value ← compute
    pure (.constant value)
  | .member parent name => do
    let parent ← fold parent
    FoldM.ofExcept (foldMember parent name)
  | .index parent position => do
    let parent ← fold parent
    let position ← fold position
    FoldM.ofExcept (foldIndex parent position)
  | .binary op left right => do
    let left ← fold left
    let right ← fold right
    FoldM.ofExcept (foldBinary op left right)
  | .unary op operand => do
    let operand ← fold operand
    FoldM.ofExcept (foldUnary op operand)
  | .call function args => do
    let args ← foldAll args
    pure (.call function args)
  | .conditional test thenBranch elseBranch => do
    match ← fold test with
    | .constant value => do
      let b ← FoldM.ofExcept (testValue value)
      if b then fold thenBranch else fold elseBranch
    | test => do
      let thenBranch ← fold thenBranch
      let elseBranch ← fold elseBranch
      pure (.conditional test thenBranch elseBranch)
  | .enumConvert operand type => do
    let operand ← fold operand
    FoldM.ofExcept (foldEnumConvert operand type)

/-- The folded expressions, from the first to the last. -/
def foldAll : List Expr → FoldM (List Expr)
  | [] => pure []
  | arg :: rest => do
    let arg ← fold arg
    let rest ← foldAll rest
    pure (arg :: rest)
end

end Expr

end ItemMapper
