import ItemMapper.Expression.Folding
import ItemMapper.Expression.KeyCondition
import ItemMapper.Expression.Update

/-!
# Compiling expressions

An expression is folded and then written, with the placeholders that it needs. The expressions of one
request share a session, so that they share their placeholders.

## Main definitions

* `Session`: the placeholders of a request so far.
* `Session.condition`, `Session.update`, `Session.keyCondition`, `Session.projection`: compile an
  expression of a request.
* `CompiledExpression`: an expression with its placeholders.
-/

namespace ItemMapper

/-- What the expressions of a request have used so far. -/
structure Session where
  aliases : Aliases
  /-- The number that the application's deferred computations keep. -/
  counter : Nat
deriving Repr, Inhabited

/-- A computation within a request. -/
abbrev SessionM := EStateM Error Session

/-- Expression text with what its placeholders stand for. -/
structure CompiledExpression where
  expression : String
  /-- The index that a key condition is for; none is the table. -/
  indexName : Option String
  names : Fields String
  values : Fields AttributeValue
deriving Repr, Inhabited

namespace Session

/-- A session that no expression was compiled in. -/
def start (counter : Nat) : Session := ⟨.empty, counter⟩

/-- Runs a computation on the placeholders. -/
def onAliases {α : Type} (action : AliasM α) : SessionM α := fun s =>
  match action s.aliases with
  | .ok value aliases => .ok value { s with aliases }
  | .error e aliases => .error e { s with aliases }

/-- Folds an expression. -/
def folded (expr : Expr) : SessionM Expr := fun s =>
  match expr.fold s.counter with
  | .ok value counter => .ok value { s with counter }
  | .error e counter => .error e { s with counter }

/-- Compiles a condition. -/
def condition (scope : Scope) (expr : Expr) : SessionM String := do
  let expr ← folded expr
  onAliases (expr.conditionText scope)

/-- Compiles an update. -/
def update (scope : Scope) (expr : Expr) : SessionM String := do
  let expr ← folded expr
  onAliases (expr.updateText scope)

/-- Compiles a key condition and chooses the index for it. -/
def keyCondition (scope : Scope) (expr : Expr) : SessionM (String × Option String) := do
  let expr ← folded expr
  onAliases (expr.keyConditionText scope)

/-- Compiles paths. -/
def paths (scope : Scope) : List Expr → SessionM (List String)
  | [] => pure []
  | expr :: rest => do
    let expr ← folded expr
    let path ← onAliases (expr.path scope)
    let others ← paths scope rest
    pure (path.text :: others)

/-- Compiles a list of paths. -/
def projection (scope : Scope) (exprs : List Expr) : SessionM String := do
  let texts ← paths scope exprs
  if texts.isEmpty then throw (Error.unsupported "projection" "no paths")
  else pure (", ".intercalate texts)

/-- An expression with the placeholders so far. -/
def finish (s : Session) (expression : String) (indexName : Option String) : CompiledExpression :=
  ⟨expression, indexName, s.aliases.names, s.aliases.values⟩

end Session

end ItemMapper
