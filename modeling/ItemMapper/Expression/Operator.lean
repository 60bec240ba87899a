/-!
# Operators

## Main definitions

* `BinaryOp`, `UnaryOp`: the operators of expressions.
* `BinaryOp.symbol`: how an operator is written.
-/

namespace ItemMapper

/-- The operators between two expressions. -/
inductive BinaryOp where
  | eq
  | ne
  | lt
  | le
  | gt
  | ge
  | and
  | or
  | add
  | sub
  /-- Only between constants. -/
  | mul
  /-- Only between constants. -/
  | div
deriving DecidableEq, Repr, Inhabited

namespace BinaryOp

/-- Whether the operator compares. -/
def isComparison : BinaryOp → Bool
  | eq | ne | lt | le | gt | ge => true
  | _ => false

/-- Whether the operator joins truth values. -/
def isLogical : BinaryOp → Bool
  | and | or => true
  | _ => false

/-- How the operator is written. -/
def symbol : BinaryOp → String
  | eq => "="
  | ne => "<>"
  | lt => "<"
  | le => "<="
  | gt => ">"
  | ge => ">="
  | and => "AND"
  | or => "OR"
  | add => "+"
  | sub => "-"
  | mul => "*"
  | div => "/"

end BinaryOp

/-- The operators on one expression. -/
inductive UnaryOp where
  | not
  /-- Only on a constant. -/
  | negate
deriving DecidableEq, Repr, Inhabited

end ItemMapper
