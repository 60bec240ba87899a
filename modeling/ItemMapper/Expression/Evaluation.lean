import ItemMapper.Expression.Operator
import ItemMapper.Number.Decimal
import ItemMapper.Order.Fields
import ItemMapper.Value.Basic

/-!
# Evaluation of constants

Operators, members and elements of dynamic values. Integers are computed exactly and must stay within
64 bits, except that a quotient which is no integer is a float; every other pair of numbers is
computed in floats.

## Main definitions

* `Value.compare?`: the order of two values, if they have one.
* `Value.applyBinary`, `Value.applyUnary`: the operators.
* `Value.member`, `Value.element`, `Value.toEnum`: parts and conversions.
-/

namespace ItemMapper

namespace Value

/-- The float that a number or a variant is computed with. -/
def toFloat? : Value → Option Floating
  | .int i => some (Floating.ofInt Floating.double i)
  | .float x => some x
  | .number digits => Floating.readDouble? (Unicode.trim digits)
  | .enumeration e => some (Floating.ofInt Floating.double e.number)
  | _ => none

/-- The order of two values, if they have one. -/
def compare? : Value → Value → Option Ordering
  | .int x, .int y => some (compare x y)
  | .text x, .text y => some (compareText x y)
  | .binary x, .binary y => some (compareBytes x y)
  | .bool x, .bool y => some (compare x.toNat y.toNat)
  | .enumeration x, .enumeration y => some (compare x.number y.number)
  | x, y =>
    match x.toFloat?, y.toFloat? with
    | some x, some y => x.compare? y
    | _, _ => none

/-- Whether two values are equal by themselves or by their order. -/
def equivalent (x y : Value) : Bool := x.equals y || x.compare? y == some .eq

/-- The complaint about an operator. -/
def complaint (op : BinaryOp) (reason : String) : Error :=
  Error.unsupported s!"binary '{op.symbol}'" reason

/-- An integer result, which has to fit into 64 bits. -/
def intResult (op : BinaryOp) (result : Int) : Except Error Value :=
  if -(2 ^ 63) ≤ result ∧ result < 2 ^ 63 then .ok (.int result)
  else .error (complaint op "integer overflow")

/-- A float result, which has to be finite. -/
def floatResult (op : BinaryOp) (result : Floating) : Except Error Value :=
  if result.isFinite then .ok (.float result) else .error (complaint op "result is not finite")

/-- Arithmetic on floats; every operator but the first three divides. -/
def floatArithmetic (op : BinaryOp) (x y : Floating) : Floating :=
  match op with
  | .add => Floating.add Floating.double x y
  | .sub => Floating.sub Floating.double x y
  | .mul => Floating.mul Floating.double x y
  | _ => Floating.div Floating.double x y

/-- Whether a quotient of 64-bit integers is computed as an integer: the division leaves no rest, and
is not the one whose quotient is too large. -/
def dividesExactly (x y : Int) : Bool := x % y == 0 && !(x == -(2 ^ 63) && y == -1)

/-- Arithmetic on integers; every operator but the first three divides. -/
def intArithmetic (op : BinaryOp) (x y : Int) : Except Error Value :=
  match op with
  | .add => intResult op (x + y)
  | .sub => intResult op (x - y)
  | .mul => intResult op (x * y)
  | _ =>
    if y = 0 then .error (complaint .div "division by zero")
    else if dividesExactly x y then intResult op (x.tdiv y)
    else
      .ok (.float (Floating.div Floating.double (Floating.ofInt Floating.double x)
        (Floating.ofInt Floating.double y)))

/-- Arithmetic; texts are joined by addition. -/
def arithmetic (op : BinaryOp) (left right : Value) : Except Error Value :=
  match op, left, right with
  | op, .int x, .int y => intArithmetic op x y
  | .add, .text x, .text y => .ok (.text (x ++ y))
  | op, left, right =>
    match left.toFloat?, right.toFloat? with
    | some x, some y => floatResult op (floatArithmetic op x y)
    | _, _ =>
      .error (complaint op s!"cannot apply to {left.kindName} and {right.kindName}")

/-- A logical operator on two truth values. -/
def logical (op : BinaryOp) (x y : Bool) : Bool :=
  match op with
  | .and => x && y
  | _ => x || y

/-- What a comparison says of an order. -/
def holds (op : BinaryOp) (order : Ordering) : Bool :=
  match op with
  | .lt => order.isLT
  | .le => order.isLE
  | .gt => order.isGT
  | _ => order.isGE

/-- The value of an operator between two values. -/
def applyBinary (op : BinaryOp) (left right : Value) : Except Error Value :=
  match op with
  | .and | .or =>
    match left.asBool?, right.asBool? with
    | some x, some y => .ok (.bool (logical op x y))
    | _, _ => .error (complaint op "operands are not boolean")
  | .eq => .ok (.bool (left.equivalent right))
  | .ne => .ok (.bool (!left.equivalent right))
  | .lt | .le | .gt | .ge =>
    match left.compare? right with
    | some order => .ok (.bool (holds op order))
    | none => .error (complaint op s!"cannot order {left.kindName} and {right.kindName}")
  | .add | .sub | .mul | .div => arithmetic op left right

/-- The value of an operator on one value. -/
def applyUnary (op : UnaryOp) (value : Value) : Except Error Value :=
  match op, value with
  | .not, value =>
    match value.asBool? with
    | some b => .ok (.bool (!b))
    | none => .error (Error.unsupported "unary NOT" s!"{value.kindName} is not boolean")
  | .negate, .int i =>
    if i = -(2 ^ 63) then .error (Error.unsupported "unary negation" "integer overflow")
    else .ok (.int (-i))
  | .negate, .float x => .ok (.float x.negate)
  | .negate, value =>
    .error (Error.unsupported "unary negation" s!"{value.kindName} is not numeric")

/-- The value under a name in a map; nothing there is null. -/
def member (value : Value) (name : String) : Except Error Value :=
  match value with
  | .map fields => .ok ((Fields.get? fields name).getD .null)
  | .stored (.map fields) => .ok (((Fields.get? fields name).map Value.stored).getD .null)
  | other => .error (Error.unsupported s!"member '{name}'" s!"{other.kindName} has no members")

/-- The value at a position of a list or a set. -/
def itemAt (items : List Value) (position : Int) : Except Error Value :=
  match if 0 ≤ position then items[position.toNat]? else none with
  | some item => .ok item
  | none => .error (Error.unsupported "index" s!"index {position} out of range")

/-- The value at a position of a list or a set, or under a name in a map. -/
def element (value key : Value) : Except Error Value :=
  match value, key with
  | .list items, .int position | .set items, .int position => itemAt items position
  | value, .text name => value.member name
  | value, key =>
    .error (Error.unsupported "index" s!"cannot index {value.kindName} with {key.kindName}")

/-- The number of the variant that a value stands for, if it is of a kind that stands for variants. Names
are those of the declaration, in letters of either case. -/
def variantNumber? (type : EnumType) : Value → Option Int
  | .int i => some i
  | .text s => (type.variants.find? fun variant => sameIgnoringCase variant.1 s).map (·.2)
  | .enumeration e => some e.number
  | _ => none

/-- The value as a variant of an enumeration. -/
def toEnum (type : EnumType) (value : Value) : Except Error Value :=
  match (value.variantNumber? type).filter fun i => (type.name? i).isSome with
  | some i => .ok (.enumeration ⟨type, i⟩)
  | none =>
    .error (Error.unsupported s!"conversion to {type.typeName}" s!"{value.display} is not a variant")

end Value

end ItemMapper
