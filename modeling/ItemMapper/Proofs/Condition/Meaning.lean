import ItemMapper.Expression.Condition
import ItemMapper.Proofs.Condition.Grammar

/-!
# What expressions mean as conditions

The condition that a folded expression without raw text stands for, in the store's terms: members
under their stored names, constants as the attribute values they are sent as. Conversions of paths to
enumerations only shape the constants beside them, a string index is a member, a single list of
candidates is its items, and a member that stands by itself is compared with true.

## Main definitions

* `Expr.steps?`: the steps of a path.
* `Expr.operand?`: what is compared.
* `Expr.meaning?`: the condition, where the expression is one.
-/

namespace ItemMapper.Expr

/-- The name that a member is stored under, by a schema if there is one. -/
def storedName? (scope : Scope) (schema : Option Schema) (name : String) : Option String :=
  match schema with
  | none => some name
  | some schema =>
    (schema.lookup? name scope.options).map fun found => found.2.storedName scope.options

/-- The steps from the item to what a path leads to. -/
def steps? (scope : Scope) : Expr → Option (List Step)
  | .item => some []
  | .member parent name => do
    let steps ← steps? scope parent
    let stored ← storedName? scope (parent.schemaOf? scope) name
    some (steps ++ [.member stored])
  | .index parent (.constant (.text key)) => do
    let steps ← steps? scope parent
    some (steps ++ [.member key])
  | .index parent (.constant (.int i)) => do
    let steps ← steps? scope parent
    if 0 ≤ i then some (steps ++ [.element i.toNat]) else none
  | _ => none

/-- What an operand is, its constants shaped by a hint. -/
def operand? (scope : Scope) (hint : Hint) : Expr → Option Operand
  | .constant value => (shaped scope.options value hint).toOption.map .value
  | .enumConvert inner type => operand? scope (.variant type) inner
  | .call .size args =>
    match args with
    | [arg] => (arg.steps? scope).map .size
    | _ => none
  | path => (path.steps? scope).map .path

/-- What the first argument of a call is. -/
def firstOperand? (scope : Scope) (function : StoreFunction) (first : Expr) (others : List Expr) :
    Option Operand :=
  if function.wantsPath then (first.steps? scope).map .path
  else operand? scope ((others.head?.map (hint scope)).getD .plain) first

/-- What a call is, a single list of candidates being taken apart. -/
def callMeaning? (scope : Scope) (function : StoreFunction) (args : List Expr) : Option Condition :=
  match spread function args with
  | [] => none
  | first :: others => do
    let operand ← firstOperand? scope function first others
    let operands ← others.mapM (operand? scope (argumentHint scope function first))
    some (.call function (operand :: operands))

/-- What a member that stands for a condition is. -/
def truthMeaning? (scope : Scope) (member : Expr) : Option Condition :=
  (member.steps? scope).map fun steps => .comparison .eq (.path steps) (.value (.bool true))

/-- The condition that an expression is. -/
def meaning? (scope : Scope) : Expr → Option Condition
  | .binary op left right =>
    if op.isLogical then do
      let l ← meaning? scope left
      let r ← meaning? scope right
      some (.join op l r)
    else if op.isComparison then do
      let l ← operand? scope (hint scope right) left
      let r ← operand? scope (hint scope left) right
      some (.comparison op l r)
    else none
  | .unary .not inner => (meaning? scope inner).map .not
  | .call function args => if function.isPredicate then callMeaning? scope function args else none
  | .member parent name => truthMeaning? scope (.member parent name)
  | .index parent position => truthMeaning? scope (.index parent position)
  | _ => none

end ItemMapper.Expr
