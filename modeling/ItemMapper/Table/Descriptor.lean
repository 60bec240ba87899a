import ItemMapper.Error
import ItemMapper.Schema.Basic

/-!
# Table descriptors

A descriptor says which members make up the table's key, its local and global indexes and its version.
It is built from the roles that members declare. A declaration is refused when two members claim one
place, an index is given two names, an ordinal is out of range, or a member of a kind that no key can
hold has a role.

## Main definitions

* `TableDescriptor`: the members in their places.
* `TableDescriptor.ofSchema`: builds a descriptor.
* `TableDescriptor.localIndexName?`, `TableDescriptor.globalIndexName?`: the names of the indexes.
-/

namespace ItemMapper

/-- The places of one index: positions of members, and the name that is chosen. -/
structure IndexSlot where
  partition : Option Nat
  sort : Option Nat
  name : Option String
deriving DecidableEq, Repr, Inhabited

/-- An index of which nothing is declared. -/
def IndexSlot.empty : IndexSlot := ⟨none, none, none⟩

/-- How many local indexes a table may have. -/
def maxLocalIndexes : Nat := 5

/-- How many global indexes a table may have. -/
def maxGlobalIndexes : Nat := 20

/-- The places that have been claimed so far. -/
structure Claims where
  partition : Option Nat
  sort : Option Nat
  version : Option Nat
  locals : List IndexSlot
  globals : List IndexSlot
deriving DecidableEq, Repr, Inhabited

namespace Claims

/-- No place claimed. -/
def empty : Claims :=
  ⟨none, none, none, List.replicate maxLocalIndexes .empty, List.replicate maxGlobalIndexes .empty⟩

/-- Claims a place for the member at a position, which another member may not have claimed. -/
def claim (s : Schema) (what : String) (position : Nat) (slot : Option Nat) :
    Except Error (Option Nat) :=
  match slot with
  | some other =>
    if other = position then .ok (some position)
    else
      let name (i : Nat) : String := (s.members.getD i default).name
      .error (Cause.ambiguousIndex s.typeName
        s!"{what} declared on both '{name other}' and '{name position}'")
  | none => .ok (some position)

/-- Names an index, which may not have another name already. -/
def claimName (s : Schema) (what : String) (chosen slot : Option String) :
    Except Error (Option String) :=
  match chosen, slot with
  | none, slot => .ok slot
  | some name, some other =>
    if other = name then .ok (some name)
    else .error (Cause.ambiguousIndex s.typeName s!"{what} named both '{other}' and '{name}'")
  | some name, none => .ok (some name)

/-- Where the index with an ordinal stands among those of its kind. -/
def slotOf (s : Schema) (what : String) (max ordinal : Nat) : Except Error Nat :=
  if 1 ≤ ordinal ∧ ordinal ≤ max then .ok (ordinal - 1)
  else
    .error (Cause.invalidMetadata s.typeName s!"{what} ordinal {ordinal} is outside 1..={max}")

/-- Claims the place of a role for the member at a position. -/
def addRole (s : Schema) (position : Nat) (member : Member) (claims : Claims) (role : KeyRole) :
    Except Error Claims :=
  match role.kind, role.part with
  | .primary, .partition => do
    let partition ← claim s "partition key" position claims.partition
    pure { claims with partition := partition }
  | .primary, .sort => do
    let sort ← claim s "sort key" position claims.sort
    pure { claims with sort := sort }
  | .localIndex, .sort => do
    let i ← slotOf s "local index" maxLocalIndexes role.ordinal
    let slot := claims.locals.getD i .empty
    let what := s!"local index {role.ordinal}"
    let sort ← claim s what position slot.sort
    let name ← claimName s what role.indexName slot.name
    pure { claims with locals := claims.locals.set i { slot with sort := sort, name := name } }
  | .localIndex, .partition =>
    .error (Cause.invalidMetadata s.typeName
      (s!"'{member.name}' declares a local index partition key; " ++
        "local indexes share the table partition key"))
  | .globalIndex, .partition => do
    let i ← slotOf s "global index" maxGlobalIndexes role.ordinal
    let slot := claims.globals.getD i .empty
    let what := s!"global index {role.ordinal}"
    let partition ← claim s (what ++ " partition key") position slot.partition
    let name ← claimName s what role.indexName slot.name
    pure { claims with
      globals := claims.globals.set i { slot with partition := partition, name := name } }
  | .globalIndex, .sort => do
    let i ← slotOf s "global index" maxGlobalIndexes role.ordinal
    let slot := claims.globals.getD i .empty
    let what := s!"global index {role.ordinal}"
    let sort ← claim s (what ++ " sort key") position slot.sort
    let name ← claimName s what role.indexName slot.name
    pure { claims with globals := claims.globals.set i { slot with sort := sort, name := name } }

/-- Whether values of the member can stand in a key. -/
def canBeKey (member : Member) : Bool := (member.type.kind.scalarType? .name).isSome

/-- Claims all places of a member. -/
def addMember (s : Schema) (claims : Claims) (position : Nat) (member : Member) :
    Except Error Claims := do
  let version ←
    if member.version then claim s "version" position claims.version else pure claims.version
  if !member.roles.isEmpty && !canBeKey member then
    .error (Cause.invalidMetadata s.typeName
      s!"key member '{member.name}' must be a string, number or binary")
  else member.roles.foldlM (addRole s position member) { claims with version := version }

/-- Claims the places of members, the first of which has the given position. -/
def addMembers (s : Schema) (claims : Claims) (position : Nat) :
    List Member → Except Error Claims
  | [] => .ok claims
  | member :: rest => do
    let claims ← addMember s claims position member
    addMembers s claims (position + 1) rest

end Claims

/-- The places of the members of a table. -/
structure TableDescriptor where
  schema : Schema
  /-- The position of the partition member. -/
  partition : Nat
  /-- The position of the sort member. -/
  sort : Option Nat
  /-- The position of the member that counts versions. -/
  version : Option Nat
  locals : List IndexSlot
  globals : List IndexSlot
deriving DecidableEq, Repr, Inhabited

namespace TableDescriptor

/-- The descriptor of a schema, or why it has none. -/
def ofSchema (s : Schema) : Except Error TableDescriptor := do
  let claims ← Claims.addMembers s .empty 0 s.members
  match claims.partition with
  | none => .error (Cause.invalidMetadata s.typeName "no partition key declared")
  | some partition =>
    if claims.sort.isNone && claims.locals.any (·.sort.isSome) then
      .error (Cause.invalidMetadata s.typeName "local indexes require a table sort key")
    else pure ⟨s, partition, claims.sort, claims.version, claims.locals, claims.globals⟩

/-- The member at a position. -/
def memberAt (d : TableDescriptor) (position : Nat) : Member := d.schema.members.getD position default

/-- The partition member. -/
def partitionMember (d : TableDescriptor) : Member := d.memberAt d.partition

/-- The sort member. -/
def sortMember? (d : TableDescriptor) : Option Member := d.sort.map d.memberAt

/-- The member that counts versions. -/
def versionMember? (d : TableDescriptor) : Option Member := d.version.map d.memberAt

/-- The places of an index with an ordinal, which counts from one. -/
def slotAt (slots : List IndexSlot) (ordinal : Nat) : IndexSlot :=
  if ordinal = 0 then .empty else slots.getD (ordinal - 1) .empty

/-- The position of the sort member of a local index. -/
def localSort? (d : TableDescriptor) (ordinal : Nat) : Option Nat := (slotAt d.locals ordinal).sort

/-- The position of the sort member of a global index. -/
def globalSort? (d : TableDescriptor) (ordinal : Nat) : Option Nat :=
  (slotAt d.globals ordinal).sort

/-- The position of the partition member of a global index; an index of which only the sort member is
declared has the table's partition. -/
def globalPartition? (d : TableDescriptor) (ordinal : Nat) : Option Nat :=
  let slot := slotAt d.globals ordinal
  match slot.partition, slot.sort with
  | some position, _ => some position
  | none, some _ => some d.partition
  | none, none => none

/-- The ordinals of the local indexes. -/
def localOrdinals (d : TableDescriptor) : List Nat :=
  ((List.range maxLocalIndexes).map (· + 1)).filter fun o => (d.localSort? o).isSome

/-- The ordinals of the global indexes. -/
def globalOrdinals (d : TableDescriptor) : List Nat :=
  ((List.range maxGlobalIndexes).map (· + 1)).filter fun o => (d.globalPartition? o).isSome

/-- The name of a local index: the chosen one, or one that is made of its ordinal and member. -/
def localIndexName? (d : TableDescriptor) (ordinal : Nat) : Option String :=
  (d.localSort? ordinal).map fun sort =>
    (slotAt d.locals ordinal).name.getD s!"lsi-{ordinal}-{kebabCase (d.memberAt sort).name}"

/-- The name of a global index: the chosen one, or one that is made of its ordinal and members. -/
def globalIndexName? (d : TableDescriptor) (ordinal : Nat) : Option String :=
  (d.globalPartition? ordinal).map fun partition =>
    (slotAt d.globals ordinal).name.getD <|
      s!"gsi-{ordinal}-{kebabCase (d.memberAt partition).name}" ++
        match d.globalSort? ordinal with
        | some sort => s!"-{kebabCase (d.memberAt sort).name}"
        | none => ""

end TableDescriptor

end ItemMapper
