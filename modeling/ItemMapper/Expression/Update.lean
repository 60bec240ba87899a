import ItemMapper.Expression.Clauses
import ItemMapper.Expression.Condition

/-!
# Updates

The text of a folded update: actions that are joined by AND, written as one clause for each verb, the
verbs in the order of their first actions.

## Main definitions

* `Expr.setValue`: the text of the value that an attribute is set to.
* `Expr.actionText`: the text of an action.
* `Expr.updateText`: the text of an update.
-/

namespace ItemMapper.Expr

/-- The path in front of an `if_not_exists`. -/
def guardedPath (scope : Scope) (target : Expr) : AliasM Path :=
  if target.isPath then target.path scope
  else throw (Error.unsupported "call if_not_exists" "first argument must be a member")

mutual
/-- The text of the value that an attribute is set to. -/
def setValue (scope : Scope) (hint : Hint) : Expr → AliasM String
  | .binary op left right =>
    if op = .add ∨ op = .sub then do
      let l ← setValue scope hint left
      let r ← setValue scope hint right
      pure s!"{l} {op.symbol} {r}"
    else operand scope hint (.binary op left right)
  | .call .ifNotExists args => do
    AliasM.ofExcept (StoreFunction.ifNotExists.checkArity args.length)
    ifNotExistsText scope args
  | .call .listAppend args => do
    AliasM.ofExcept (StoreFunction.listAppend.checkArity args.length)
    let args ← setValues scope .plain args
    filled .listAppend args
  | other => operand scope hint other

/-- The text of an `if_not_exists` with the given arguments. -/
def ifNotExistsText (scope : Scope) : List Expr → AliasM String
  | [] => filled .ifNotExists []
  | target :: rest => do
    let path ← guardedPath scope target
    let values ← setValues scope (.ofType path.type) rest
    filled .ifNotExists (path.text :: values)

/-- The texts of values. -/
def setValues (scope : Scope) (hint : Hint) : List Expr → AliasM (List String)
  | [] => pure []
  | value :: rest => do
    let text ← setValue scope hint value
    let texts ← setValues scope hint rest
    pure (text :: texts)
end

/-- The texts of an action's arguments after the first. -/
def actionValues (scope : Scope) (function : StoreFunction) (hint : Hint) (args : List Expr) :
    AliasM (List String) :=
  match function with
  | .set => args.mapM (setValue scope hint)
  | .add | .delete => args.mapM (operand scope (if hint = .plain then .set else hint))
  | _ => pure []

/-- The text of an action on an attribute. -/
def actionText (scope : Scope) (function : StoreFunction) (args : List Expr) : AliasM String := do
  AliasM.ofExcept (function.checkArity args.length)
  match args with
  | [] => filled function []
  | target :: rest =>
    if target.isPath then do
      let path ← target.path scope
      let values ← actionValues scope function (.ofType path.type) rest
      filled function (path.text :: values)
    else
      throw (Error.unsupported s!"call {function.name}"
        s!"target must be a member, not {target.kindName}")

/-- The text of an update with one more action or raw text. -/
def addAction (scope : Scope) (text : List Char) (action : Expr) : AliasM (List Char) :=
  match action with
  | .call function args =>
    match function.verb? with
    | some verb => do
      let added ← actionText scope function args
      pure (Clauses.push text verb added.toList)
    | none => throw (Error.unsupported action.kindName "not an update action")
  | .raw fragment => do
    Aliases.mergeRaw scope.options fragment
    let clauses ← AliasM.ofExcept (Clauses.split fragment.text.toList)
    pure (clauses.foldl (fun text clause => Clauses.push text clause.1 clause.2) text)
  | other => throw (Error.unsupported other.kindName "not an update action")

/-- The text of an update with more actions. -/
def addActions (scope : Scope) (text : List Char) : List Expr → AliasM (List Char)
  | [] => pure text
  | action :: rest => do
    let text ← addAction scope text action
    addActions scope text rest

/-- The text of an update. -/
def updateText (scope : Scope) (expr : Expr) : AliasM String := do
  let text ← addActions scope [] expr.conjuncts
  if text.isEmpty then throw (Error.unsupported "update" "no actions")
  else pure (String.ofList text)

end ItemMapper.Expr
