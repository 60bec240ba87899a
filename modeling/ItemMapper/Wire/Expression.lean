import ItemMapper.Expression.Basic
import ItemMapper.Wire.Value

/-!
# Expressions as JSON

An expression is an array of a word and the expression's parts.

## Main definitions

* `Expr.toJson`, `Expr.ofJson?`: expressions.
-/

namespace ItemMapper

/-- The operators between two expressions. -/
def BinaryOp.all : List BinaryOp := [eq, ne, lt, le, gt, ge, and, or, add, sub, mul, div]

/-- The operator that is written as a symbol. -/
def BinaryOp.ofSymbol? (symbol : String) : Option BinaryOp := all.find? (·.symbol == symbol)

/-- The functions and actions. -/
def StoreFunction.all : List StoreFunction :=
  [attributeExists, attributeNotExists, attributeType, beginsWith, contains, size, between, isIn,
   set, remove, add, delete, ifNotExists, listAppend]

/-- The function of a name. -/
def StoreFunction.ofName? (name : String) : Option StoreFunction := all.find? (·.name == name)

namespace RawExpression

/-- The raw text and its placeholders, from trees. -/
def ofJson? (extra : String → Json → Option Value) (text : String) (names values : Json) :
    Option RawExpression := do
  let names ← names.fields?
  let values ← match values with
    | .object members _ => Value.fieldsOfJson? extra members
    | _ => none
  let named := names.foldl (fun raw (placeholder, name) =>
    raw.bindName placeholder (name.text?.getD "")) (ofText text)
  pure ((Fields.ofList values).foldl (fun raw (placeholder, value) =>
    raw.bindValue placeholder value) named)

end RawExpression

namespace Expr

/-- The array of a word and parts. -/
def form (word : String) (parts : List Json) : Json := .ofItems (.string word :: parts)

/-- The tree of the names that placeholders stand for. -/
def namesToJson (names : Fields String) : Json :=
  .ofMembers (names.map fun (placeholder, name) => (placeholder, .string name))

mutual
/-- The tree of an expression; a computation has none. -/
def toJson : Expr → Json
  | .item => form "item" []
  | .member parent name => form "member" [toJson parent, .string name]
  | .index parent position => form "index" [toJson parent, toJson position]
  | .constant value => form "val" [value.toJson]
  | .binary op left right => form "bin" [.string op.symbol, toJson left, toJson right]
  | .unary .not operand => form "not" [toJson operand]
  | .unary .negate operand => form "neg" [toJson operand]
  | .call function args => form "call" (.string function.name :: allToJson args)
  | .conditional test thenBranch elseBranch =>
    form "cond" [toJson test, toJson thenBranch, toJson elseBranch]
  | .raw fragment =>
    form "raw" [.string fragment.text, namesToJson fragment.names,
      .ofMembers (Value.fieldsToJson fragment.values)]
  | .deferred _ => form "deferred" []
  | .enumConvert operand type => form "enum" [toJson operand, type.toJson]

/-- The trees of expressions. -/
def allToJson : List Expr → List Json
  | [] => []
  | expr :: rest => toJson expr :: allToJson rest
end

/-- What the application adds to the forms of expressions. -/
structure Extension where
  /-- Values under the names of other kinds. -/
  value : String → Json → Option Value
  /-- Expressions without parts that are expressions, under other words. -/
  leaf : String → List Json → Option Expr
  /-- Types of enumerations by their names. -/
  enumType : String → Option EnumType

mutual
/-- The expression of a tree. -/
def ofJson? (ext : Extension) : Json → Option Expr
  | .array [.string "item"] _ => some .item
  | .array [.string "attr", .string name] _ => some (.member .item name)
  | .array [.string "member", parent, .string name] _ =>
    (ofJson? ext parent).map fun parent => .member parent name
  | .array [.string "index", parent, position] _ => do
    let parent ← ofJson? ext parent
    let position ← ofJson? ext position
    pure (.index parent position)
  | .array [.string "val", value] _ => (Value.ofJson? ext.value value).map .constant
  | .array [.string "bin", .string symbol, left, right] _ => do
    let op ← BinaryOp.ofSymbol? symbol
    let left ← ofJson? ext left
    let right ← ofJson? ext right
    pure (.binary op left right)
  | .array [.string "not", operand] _ => (ofJson? ext operand).map (.unary .not)
  | .array [.string "neg", operand] _ => (ofJson? ext operand).map (.unary .negate)
  | .array (.string "call" :: .string name :: args) _ => do
    let function ← StoreFunction.ofName? name
    let args ← allOfJson? ext args
    pure (.call function args)
  | .array [.string "cond", test, thenBranch, elseBranch] _ => do
    let test ← ofJson? ext test
    let thenBranch ← ofJson? ext thenBranch
    let elseBranch ← ofJson? ext elseBranch
    pure (.conditional test thenBranch elseBranch)
  | .array [.string "raw", .string text, names, values] _ =>
    (RawExpression.ofJson? ext.value text names values).map .raw
  | .array [.string "enum", operand, type] _ => do
    let operand ← ofJson? ext operand
    let type ← EnumType.ofJson? type
    pure (.enumConvert operand type)
  | .array [.string "as_enum", operand, .string name] _ => do
    let operand ← ofJson? ext operand
    let type ← ext.enumType name
    pure (.enumConvert operand type)
  | .array (.string word :: parts) _ => ext.leaf word parts
  | _ => none

/-- The expressions of trees. -/
def allOfJson? (ext : Extension) : List Json → Option (List Expr)
  | [] => some []
  | tree :: rest => do
    let expr ← ofJson? ext tree
    let exprs ← allOfJson? ext rest
    pure (expr :: exprs)
end

end Expr

end ItemMapper
