import ItemMapper.Expression.Condition
import ItemMapper.Table.Resolution

/-!
# Key conditions

A condition on the members of a key, and the index whose key it is. The first member that is compared
for equality is taken for the partition, or else the first member at all; another member is taken for
the sort.

## Main definitions

* `Expr.keyMembers`: the members that a condition speaks of.
* `Scope.selectIndex`: the index for them.
* `Expr.keyConditionText`: the text of the condition and the index.
-/

namespace ItemMapper

/-- A member that a key condition speaks of. -/
structure KeyMember where
  /-- The declared name, where there is a schema that knows it. -/
  name : String
  /-- Whether it is compared for equality. -/
  byEquality : Bool
deriving DecidableEq, Repr

namespace Expr

/-- The name of a member of the item. -/
def keyMember? (scope : Scope) : Expr → Option String
  | .member .item name =>
    let found := scope.root.bind fun schema => schema.lookup? name scope.options
    some ((found.map (·.2.name)).getD name)
  | _ => none

/-- The member that one part of a key condition speaks of. -/
def keyMemberOf (scope : Scope) (conjunct : Expr) : Except Error (Option KeyMember) :=
  match conjunct with
  | .binary op left right =>
    if op.isComparison then
      .ok (((left.keyMember? scope).or (right.keyMember? scope)).map (⟨·, op = .eq⟩))
    else .error (Error.unsupported conjunct.kindName "not valid in a key condition")
  | .call function args =>
    if function = .between ∨ function = .beginsWith then
      .ok ((args.head?.bind (keyMember? scope)).map (⟨·, false⟩))
    else .error (Error.unsupported conjunct.kindName "not valid in a key condition")
  | .raw _ => .ok none
  | other => .error (Error.unsupported other.kindName "not valid in a key condition")

/-- The members with one more; a member occurs once. -/
def addKeyMember (found : KeyMember) : List KeyMember → List KeyMember
  | [] => [found]
  | present :: rest =>
    if present.name = found.name then
      { present with byEquality := present.byEquality || found.byEquality } :: rest
    else present :: addKeyMember found rest

/-- The members that the parts of a key condition speak of, after the given ones. -/
def keyMembers (scope : Scope) (members : List KeyMember) :
    List Expr → Except Error (List KeyMember)
  | [] => .ok members
  | conjunct :: rest => do
    match ← keyMemberOf scope conjunct with
    | some found => keyMembers scope (addKeyMember found members) rest
    | none => keyMembers scope members rest

end Expr

/-- The member that is taken for the partition. -/
def partitionOf? (members : List KeyMember) : Option (Nat × KeyMember) :=
  let position := (members.findIdx? (·.byEquality)).getD 0
  members[position]?.map fun member => (position, member)

/-- The index whose key a condition on some members is for; without a schema none is chosen. -/
def Scope.selectIndex (scope : Scope) (members : List KeyMember) :
    Except Error (Option String) :=
  match scope.root with
  | none => .ok none
  | some schema => do
    let descriptor ← TableDescriptor.ofSchema schema
    match partitionOf? members with
    | none => .error (Error.unsupported "key condition" "no key member referenced")
    | some (position, partition) =>
      if 2 < members.length then
        .error (Error.unsupported "key condition"
          s!"references {members.length} members; at most a partition and a sort key")
      else
        descriptor.resolve partition.name ((members.eraseIdx position).head?.map (·.name))

/-- The text of a key condition and the index that it is for. -/
def Expr.keyConditionText (scope : Scope) (expr : Expr) : AliasM (String × Option String) := do
  let members ← AliasM.ofExcept (Expr.keyMembers scope [] expr.conjuncts)
  let text ← expr.conditionText scope
  let index ← AliasM.ofExcept (scope.selectIndex members)
  pure (text, index)

end ItemMapper
