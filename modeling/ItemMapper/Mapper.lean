import ItemMapper.Codec.Decoding
import ItemMapper.Expression.Compilation
import ItemMapper.Key.Building
import ItemMapper.Table.Generation

/-!
# The mapper

Items, tables and compiled expressions of declared documents.

## Main definitions

* `Codec.toItem`, `Codec.fromItem`: values as items.
* `Codec.tableDefinition`, `Codec.tableUpdate`: the table of a document.
* `Codec.compileCondition` and the like: expressions over a document.
-/

namespace ItemMapper.Codec

/-- A value as an item; a value that is left out is the empty item. -/
def toItem (c : Codec) (type : Ty) (value : Datum) : Except Error Item := do
  match ← c.encode type value with
  | some (.map item) => pure item
  | some other => .error (Error.typeMismatch "item map" other)
  | none => pure []

/-- The value of an item. -/
def fromItem (c : Codec) (type : Ty) (item : Item) : Except Error Datum :=
  c.decode type (.map item)

/-- The definition of the table that holds a document. -/
def tableDefinition (c : Codec) (id : DocumentId) (tableName : String) :
    Except Error TableDefinition := do
  let d ← c.descriptor id
  d.toDefinition c.options tableName

/-- What has to change in a table before it can hold a document. -/
def tableUpdate (c : Codec) (id : DocumentId) (existing : TableDefinition) :
    Except Error TableUpdate := do
  let d ← c.descriptor id
  d.toUpdate c.options existing

/-- What expressions over a document are compiled against. -/
def scope (c : Codec) (id : DocumentId) : Except Error Scope := do
  let schema ← (c.documents id).schema c.typeName
  pure ⟨c.options, some schema, c.schemas⟩

/-- What expressions over items of any kind are compiled against. -/
def openScope (c : Codec) : Scope := ⟨c.options, none, c.schemas⟩

/-- Compiles an expression over a document by itself. -/
def compileBy (c : Codec) (id : DocumentId) (compile : Scope → SessionM (String × Option String)) :
    FoldM CompiledExpression := fun counter =>
  match c.scope id with
  | .error e => .error e counter
  | .ok scope =>
    match compile scope (.start counter) with
    | .ok (text, index) session => .ok (session.finish text index) session.counter
    | .error e session => .error e session.counter

/-- Compiles a condition over a document. -/
def compileCondition (c : Codec) (id : DocumentId) (expr : Expr) : FoldM CompiledExpression :=
  c.compileBy id fun scope => do
    let text ← Session.condition scope expr
    pure (text, none)

/-- Compiles an update of a document. -/
def compileUpdate (c : Codec) (id : DocumentId) (expr : Expr) : FoldM CompiledExpression :=
  c.compileBy id fun scope => do
    let text ← Session.update scope expr
    pure (text, none)

/-- Compiles a key condition over a document. -/
def compileKeyCondition (c : Codec) (id : DocumentId) (expr : Expr) :
    FoldM CompiledExpression :=
  c.compileBy id fun scope => Session.keyCondition scope expr

/-- Compiles a projection of a document. -/
def compileProjection (c : Codec) (id : DocumentId) (exprs : List Expr) :
    FoldM CompiledExpression :=
  c.compileBy id fun scope => do
    let text ← Session.projection scope exprs
    pure (text, none)

end ItemMapper.Codec
