import ItemMapper.Codec.Datum
import ItemMapper.Config.Options
import ItemMapper.Table.Definition

/-!
# Schemas

What is declared about the members of a document: their stored names, the parts they play in keys
and indexes, what becomes of nulls and defaults, and facts about their types. Tables, keys and
expressions need no more than this.

## Main definitions

* `TypeInfo`, `KeyRole`, `Member`, `Schema`: the declarations.
* `Member.storedName`: the name under which a member is stored.
* `Schema.lookup?`: the member that a name means.
-/

namespace ItemMapper

/-- Facts about the type of a member. -/
structure TypeInfo where
  /-- How messages call the type. -/
  name : String
  kind : Kind
  /-- The variants, of an enumeration. -/
  variants : Option (List (String × Int))
  /-- The document that the member or its elements hold. -/
  document : Option DocumentId
deriving DecidableEq, Repr, Inhabited

/-- The scalar type of a kind in a key, if it may stand in one. -/
def Kind.scalarType? (kind : Kind) (encoding : EnumEncoding) : Option ScalarType :=
  match kind with
  | .text => some .text
  | .number => some .number
  | .binary => some .binary
  | .enumeration =>
    match encoding with
    | .name => some .text
    | .number => some .number
  | _ => none

/-- Which keys a role belongs to. -/
inductive IndexKind where
  /-- The table's own key. -/
  | primary
  /-- An index with the table's partition. -/
  | localIndex
  /-- An index with a partition of its own. -/
  | globalIndex
deriving DecidableEq, Repr, Inhabited

/-- The halves of a key. -/
inductive KeyPart where
  | partition
  | sort
deriving DecidableEq, Repr, Inhabited

/-- A part that a member plays in a key. -/
structure KeyRole where
  kind : IndexKind
  part : KeyPart
  /-- Which index of its kind; zero for the table's own key. -/
  ordinal : Nat
  /-- The name that is chosen for the index. -/
  indexName : Option String
deriving DecidableEq, Repr, Inhabited

/-- A member of a document. -/
structure Member where
  name : String
  /-- The stored name, where one is chosen. -/
  rename : Option String
  roles : List KeyRole
  /-- Whether the member counts the versions of the record. -/
  version : Bool
  /-- Whether null is stored, where that is chosen. -/
  persistNull : Option Bool
  /-- Whether the default is stored, where that is chosen. -/
  persistDefault : Option Bool
  type : TypeInfo
deriving DecidableEq, Repr, Inhabited

namespace Member

/-- The chosen stored name, or else the declared one. -/
def attributeName (m : Member) : String := m.rename.getD m.name

/-- The name under which the member is stored: the chosen one, or what the naming policy makes of the
declared one. -/
def storedName (m : Member) (options : CodecOptions) : String :=
  m.rename.getD (options.attributeNaming.apply m.name)

/-- Whether the member is part of the table's own key. -/
def isKey (m : Member) : Bool := m.roles.any (·.kind == .primary)

end Member

/-- The members of a document in the order of their declaration. -/
structure Schema where
  typeName : String
  members : List Member
deriving DecidableEq, Repr, Inhabited

/-- The schemas of documents by their numbers; a document whose declaration is faulty has none. -/
abbrev Schemas := DocumentId → Option Schema

namespace Schema

/-- The first member that satisfies a test, and its position. -/
def findMember? (members : List Member) (test : Member → Bool) : Option (Nat × Member) :=
  (members.findIdx? test).bind fun i => members[i]?.map fun m => (i, m)

/-- The member that is declared under a name, and its position. -/
def member? (s : Schema) (name : String) : Option (Nat × Member) :=
  findMember? s.members (·.name == name)

/-- The member that is declared under a name, or else the one that is stored under it. -/
def lookup? (s : Schema) (name : String) (options : CodecOptions) : Option (Nat × Member) :=
  match s.member? name with
  | some found => some found
  | none => findMember? s.members (·.storedName options == name)

end Schema

end ItemMapper
