import ItemMapper.Expression.Aliases
import ItemMapper.Expression.Reserved
import ItemMapper.Schema.Basic

/-!
# Paths

A path leads from the item through members, elements and entries to an attribute. Where the item has
a schema, names are looked up in it, and what it knows about the type of an attribute shapes the
constants that the attribute meets.

## Main definitions

* `Scope`: what an expression is compiled against.
* `Expr.path`: the text of a path and what is known of its end.
* `Expr.typeOf?`, `Expr.hint`: what is known of an expression without writing it.
-/

namespace ItemMapper

/-- What an expression is compiled against. -/
structure Scope where
  options : CodecOptions
  /-- The schema of the item, where it has one. -/
  root : Option Schema
  /-- The schemas of the documents that members hold. -/
  schemas : Schemas

/-- The schema of the document that a type's values or their elements hold. -/
def Scope.schemaOf? (scope : Scope) (type : TypeInfo) : Option Schema :=
  type.document.bind scope.schemas

/-- How a constant is to be shaped, by what it stands beside. -/
inductive Hint where
  /-- As it is. -/
  | plain
  /-- As a variant. -/
  | variant (type : EnumType)
  /-- As a set. -/
  | set
deriving DecidableEq, Repr, Inhabited

/-- The hint that a type gives. -/
def Hint.ofType : Option TypeInfo → Hint
  | none => .plain
  | some type =>
    match type.kind, type.variants with
    | .enumeration, some variants => .variant ⟨type.name, variants⟩
    | .set, _ => .set
    | _, _ => .plain

/-- A path that is written down. -/
structure Path where
  text : String
  /-- The type at its end, where that is known. -/
  type : Option TypeInfo
  /-- The schema of the document at its end or of its elements, where that is known. -/
  schema : Option Schema

namespace Expr

/-- The name as expressions write it. -/
def escape (name : String) : AliasM String :=
  if needsAlias name then Aliases.nameAlias name else pure name

/-- The stored name of a member and its type, by a schema if there is one. -/
def memberNamed (scope : Scope) (schema : Option Schema) (name : String) :
    Except Error (String × Option TypeInfo) :=
  match schema with
  | none => .ok (name, none)
  | some schema =>
    match schema.lookup? name scope.options with
    | some (_, found) => .ok (found.storedName scope.options, some found.type)
    | none => .error (Cause.unknownMember schema.typeName name)

/-- The path that goes on to a member. -/
def memberPath (scope : Scope) (parent : Option String) (schema : Option Schema) (name : String) :
    AliasM Path := do
  let (stored, type) ← AliasM.ofExcept (memberNamed scope schema name)
  let segment ← escape stored
  let text := match parent with
    | some parent => s!"{parent}.{segment}"
    | none => segment
  pure ⟨text, type, type.bind scope.schemaOf?⟩

/-- The path that goes on to an entry of a map. -/
def entryPath (parent : Path) (key : String) : AliasM Path := do
  let segment ← escape key
  pure ⟨s!"{parent.text}.{segment}", none, none⟩

/-- The path that goes on to an element of a list. -/
def elementPath (parent : Path) (position : Int) : Path :=
  ⟨s!"{parent.text}[{position}]", none, parent.schema⟩

/-- Writes a path. -/
def path (scope : Scope) : Expr → AliasM Path
  | .member .item name => memberPath scope none scope.root name
  | .member parent name => do
    let parent ← path scope parent
    memberPath scope (some parent.text) parent.schema name
  | .index .item _ =>
    throw (Error.unsupported "index" "the item itself cannot be indexed")
  | .index parent (.constant (.text key)) => do
    let parent ← path scope parent
    entryPath parent key
  | .index parent position => do
    let unusable :=
      Error.unsupported "index" s!"{position.kindName} is not a list index or map key"
    match position with
    | .constant (.int i) =>
      if 0 ≤ i then do
        let parent ← path scope parent
        pure (elementPath parent i)
      else throw unusable
    | _ => throw unusable
  | other => throw (Error.unsupported other.kindName "not an attribute path")

/-- The type of a member by a schema, where that is known. -/
def typeNamed? (scope : Scope) (schema : Option Schema) (name : String) : Option TypeInfo :=
  schema.bind fun schema => (schema.lookup? name scope.options).map fun found => found.2.type

/-- The schema of what an expression leads to, or of its elements. -/
def schemaOf? (scope : Scope) : Expr → Option Schema
  | .item => scope.root
  | .member parent name => (typeNamed? scope (schemaOf? scope parent) name).bind scope.schemaOf?
  | .index parent (.constant (.int _)) => schemaOf? scope parent
  | _ => none

/-- The type of an expression, where that is known. -/
def typeOf? (scope : Scope) : Expr → Option TypeInfo
  | .member parent name => typeNamed? scope (schemaOf? scope parent) name
  | _ => none

/-- The hint for constants that stand beside an expression. -/
def hint (scope : Scope) : Expr → Hint
  | .enumConvert _ type => .variant type
  | other => .ofType (other.typeOf? scope)

end Expr

end ItemMapper
