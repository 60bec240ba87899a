import ItemMapper.Expression.Evaluation
import ItemMapper.Expression.Path
import ItemMapper.Expression.Template

/-!
# Conditions

The text of a folded condition. Constants become placeholders for their attribute values, after they
were shaped by what they are compared with; a member that stands by itself is compared with true;
parentheses stand where AND and OR meet.

## Main definitions

* `Expr.operand`: the text of an operand.
* `Expr.callText`: the text of a call.
* `Expr.predicate`: the text of a condition.
-/

namespace ItemMapper.Expr

/-- A constant in the shape that a hint gives. -/
def shape (options : CodecOptions) (value : Value) (hint : Hint) : Except Error Value :=
  match hint, value with
  | .variant type, .int i => Value.toEnum type (.int i)
  | .variant type, .text s => (type.read options (.text s)).map fun i => .enumeration ⟨type, i⟩
  | .set, .list items => .ok (.set items)
  | _, value => .ok value

/-- The attribute value that a constant stands for beside a hint. -/
def shaped (options : CodecOptions) (value : Value) (hint : Hint) :
    Except Error AttributeValue := do
  let value ← shape options value hint
  Aliases.stored options value

/-- The placeholder of a constant. -/
def constantText (scope : Scope) (value : Value) (hint : Hint) : AliasM String := do
  let value ← AliasM.ofExcept (shaped scope.options value hint)
  Aliases.valueAlias value

/-- Raw text, with its placeholders taken over. -/
def rawText (scope : Scope) (raw : RawExpression) : AliasM String := do
  Aliases.mergeRaw scope.options raw
  pure raw.text

/-- The text of a call's first argument, which has to be a path. -/
def subject (scope : Scope) (function : StoreFunction) (arg : Expr) : AliasM String := do
  if arg.isPath then do
    let path ← arg.path scope
    pure path.text
  else
    throw (Error.unsupported s!"call {function.name}"
      s!"first argument must be a member, not {arg.kindName}")

/-- The text of a template with its arguments. -/
def filled (function : StoreFunction) (args : List String) : AliasM String :=
  AliasM.ofExcept (Template.render function.template args)

/-- The text of the size of an attribute. -/
def sizeText (scope : Scope) (args : List Expr) : AliasM String := do
  AliasM.ofExcept (StoreFunction.size.checkArity args.length)
  let args ← args.mapM (subject scope .size)
  filled .size args

/-- The text of an operand whose constants are shaped by a hint. -/
def operand (scope : Scope) (hint : Hint) : Expr → AliasM String
  | .member parent name => do
    let path ← (Expr.member parent name).path scope
    pure path.text
  | .index parent position => do
    let path ← (Expr.index parent position).path scope
    pure path.text
  | .constant value => constantText scope value hint
  | .enumConvert inner type => operand scope (.variant type) inner
  | .call .size args => sizeText scope args
  | .raw fragment => rawText scope fragment
  | other => throw (Error.unsupported other.kindName "not an operand")

/-- The arguments of a call, a single list of candidates being taken apart. -/
def spread (function : StoreFunction) (args : List Expr) : List Expr :=
  match function.isVariadic, args with
  | true, [first, .constant (.list items)] => first :: items.map .constant
  | true, [first, .constant (.set items)] => first :: items.map .constant
  | _, args => args

/-- The text of the first argument of a call. -/
def firstText (scope : Scope) (function : StoreFunction) (first : Expr) (others : List Expr) :
    AliasM String :=
  if function.wantsPath then subject scope function first
  else operand scope ((others.head?.map (hint scope)).getD .plain) first

/-- The hint for the later arguments of a call. -/
def argumentHint (scope : Scope) (function : StoreFunction) (first : Expr) : Hint :=
  match function with
  | .attributeType | .contains => .plain
  | _ => hint scope first

/-- The text of a call. -/
def callText (scope : Scope) (function : StoreFunction) (args : List Expr) : AliasM String := do
  let args := spread function args
  AliasM.ofExcept (function.checkArity args.length)
  match args with
  | [] => filled function []
  | first :: others => do
    let firstArg ← firstText scope function first others
    let otherArgs ← others.mapM (operand scope (argumentHint scope function first))
    filled function (firstArg :: otherArgs)

/-- The text of a member that stands for a condition. -/
def truthText (scope : Scope) (member : Expr) : AliasM String := do
  let path ← member.path scope
  let kind := (path.type.map (·.kind)).getD .dynamic
  if kind = .bool ∨ kind = .dynamic then do
    let truth ← Aliases.valueAlias (.bool true)
    pure s!"{path.text} = {truth}"
  else throw (Error.unsupported member.kindName "not a boolean member")

/-- Whether a condition needs parentheses after NOT. -/
def groupedByNot : Expr → Bool
  | .raw _ => true
  | .binary op _ _ => op.isLogical
  | _ => false

/-- Whether a condition needs parentheses beside a logical operator. -/
def groupedBy (parent : BinaryOp) : Expr → Bool
  | .raw _ => true
  | .binary op _ _ => op.isLogical && op != parent
  | _ => false

/-- The text, between parentheses if that is wanted. -/
def group (wanted : Bool) (text : String) : String := if wanted then s!"({text})" else text

/-- The text of a comparison. -/
def comparisonText (scope : Scope) (op : BinaryOp) (left right : Expr) : AliasM String := do
  let l ← operand scope (hint scope right) left
  let r ← operand scope (hint scope left) right
  pure s!"{l} {op.symbol} {r}"

/-- The text of a condition. -/
def predicate (scope : Scope) : Expr → AliasM String
  | .binary op left right =>
    if op.isLogical then do
      let l ← predicate scope left
      let r ← predicate scope right
      pure s!"{group (left.groupedBy op) l} {op.symbol} {group (right.groupedBy op) r}"
    else if op.isComparison then comparisonText scope op left right
    else throw (Error.unsupported (Expr.binary op left right).kindName "not a condition")
  | .unary .not inner => do
    let text ← predicate scope inner
    pure s!"NOT {group inner.groupedByNot text}"
  | .call function args =>
    if function.isPredicate then callText scope function args
    else throw (Error.unsupported (Expr.call function args).kindName "not a condition")
  | .member parent name => truthText scope (.member parent name)
  | .index parent position => truthText scope (.index parent position)
  | .raw fragment => rawText scope fragment
  | other => throw (Error.unsupported other.kindName "not a condition")

/-- The text of a whole condition, which may not be constant. -/
def conditionText (scope : Scope) (expr : Expr) : AliasM String :=
  match expr with
  | .constant value =>
    throw (Error.unsupported expr.kindName s!"condition folds to the constant {value.display}")
  | expr => predicate scope expr

end ItemMapper.Expr
