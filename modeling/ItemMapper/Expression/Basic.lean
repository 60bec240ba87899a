import ItemMapper.Expression.Function
import ItemMapper.Expression.Operator
import ItemMapper.Order.Fields
import ItemMapper.Value.Basic

/-!
# Expressions

Conditions, updates, key conditions and projections are built as trees over the attributes of one
item.

## Main definitions

* `Expr`: the trees.
* `RawExpression`: text that is used as it stands, with its own placeholders.
-/

namespace ItemMapper

/-- Text of the store's expression language, with the names and values its placeholders stand
for. -/
structure RawExpression where
  text : String
  names : Fields String
  values : Fields Value
deriving Inhabited

namespace RawExpression

/-- A placeholder with the character in front that marks it. -/
def withMark (mark : Char) (placeholder : String) : String :=
  if placeholder.toList.head? = some mark then placeholder else mark.toString ++ placeholder

/-- Text without placeholders. -/
def ofText (text : String) : RawExpression := ⟨text, [], []⟩

/-- Lets a placeholder stand for a name. -/
def bindName (raw : RawExpression) (placeholder name : String) : RawExpression :=
  { raw with names := raw.names.insert (withMark '#' placeholder) name }

/-- Lets a placeholder stand for a value. -/
def bindValue (raw : RawExpression) (placeholder : String) (value : Value) : RawExpression :=
  { raw with values := raw.values.insert (withMark ':' placeholder) value }

end RawExpression

/-- The application's computation of a value, which may read and change a number that the application
keeps. -/
abbrev Deferral := EStateM Error Nat Value

/-- An expression over the attributes of an item. -/
inductive Expr where
  /-- The item. -/
  | item
  /-- The member of an object that has a name, declared or stored. -/
  | member (parent : Expr) (name : String)
  /-- The element of a list at a position, or the entry of a map under a key. -/
  | index (parent position : Expr)
  | constant (value : Value)
  | binary (op : BinaryOp) (left right : Expr)
  | unary (op : UnaryOp) (operand : Expr)
  | call (function : StoreFunction) (args : List Expr)
  /-- One of two expressions, as a test turns out. -/
  | conditional (test thenBranch elseBranch : Expr)
  | raw (text : RawExpression)
  /-- A value that is computed when the expression is compiled. -/
  | deferred (compute : Deferral)
  /-- A number or a name as a variant of an enumeration. -/
  | enumConvert (operand : Expr) (type : EnumType)
deriving Inhabited

namespace Expr

/-- How messages call an expression. -/
def kindName : Expr → String
  | .item => "item"
  | .member _ name => s!"member '{name}'"
  | .index _ _ => "index"
  | .constant value => s!"constant {value.kindName}"
  | .binary op _ _ => s!"binary '{op.symbol}'"
  | .unary .not _ => "unary NOT"
  | .unary .negate _ => "unary negation"
  | .call function _ => s!"call {function.name}"
  | .conditional _ _ _ => "conditional"
  | .raw _ => "raw expression"
  | .deferred _ => "deferred value"
  | .enumConvert _ type => s!"conversion to {type.typeName}"

/-- Whether the expression leads to an attribute. -/
def isPath : Expr → Bool
  | .member _ _ | .index _ _ => true
  | _ => false

/-- The expressions that are joined by AND. -/
def conjuncts : Expr → List Expr
  | .binary .and left right => left.conjuncts ++ right.conjuncts
  | other => [other]

theorem conjuncts_eq_self {e : Expr} (h : ∀ left right, e = .binary .and left right → False) :
    e.conjuncts = [e] := by
  unfold conjuncts
  split
  · exact (h _ _ rfl).elim
  · rfl

end Expr

end ItemMapper
