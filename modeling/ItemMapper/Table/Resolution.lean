import ItemMapper.Table.Descriptor

/-!
# Choosing an index

A query over a partition member and perhaps a sort member is answered by the table or by an index that
has these two members as its key, in either order. Among several the table comes first, then local
indexes, then global ones, each by ordinal.

## Main definitions

* `TableDescriptor.keyOf?`: the key that two members make up.
* `TableDescriptor.resolve`: the name of the index for two members.
-/

namespace ItemMapper

/-- A key of a table: its own, or that of an index with an ordinal. -/
structure KeyChoice where
  kind : IndexKind
  ordinal : Nat
deriving DecidableEq, Repr, Inhabited

/-- The table's own key. -/
def KeyChoice.table : KeyChoice := ⟨.primary, 0⟩

namespace TableDescriptor

/-- The keys that the member at a position is the partition of, in order of preference. -/
def partitionRoles (d : TableDescriptor) (position : Nat) : List KeyChoice :=
  (if position = d.partition then
    .table :: d.localOrdinals.map fun o => ⟨.localIndex, o⟩
  else []) ++
  (d.globalOrdinals.filter fun o => d.globalPartition? o == some position).map fun o =>
    ⟨.globalIndex, o⟩

/-- Whether the member at a position is the sort member of a key. -/
def sorts (d : TableDescriptor) (position : Nat) (key : KeyChoice) : Bool :=
  match key.kind with
  | .primary => d.sort == some position
  | .localIndex => d.localSort? key.ordinal == some position
  | .globalIndex => d.globalSort? key.ordinal == some position

/-- The key whose partition and sort members are at two positions. -/
def matchingKey? (d : TableDescriptor) (partition sort : Nat) : Option KeyChoice :=
  (d.partitionRoles partition).find? (d.sorts sort)

/-- The key of two members in either order, or of one partition member. -/
def keyOf? (d : TableDescriptor) (first : Nat) (second : Option Nat) : Option KeyChoice :=
  match second with
  | none => (d.partitionRoles first).head?
  | some second =>
    match d.matchingKey? first second with
    | some key => some key
    | none => d.matchingKey? second first

/-- The name of the index that a key belongs to; the table's own key belongs to none. -/
def indexName? (d : TableDescriptor) (key : KeyChoice) : Option String :=
  match key.kind with
  | .primary => none
  | .localIndex => d.localIndexName? key.ordinal
  | .globalIndex => d.globalIndexName? key.ordinal

/-- The position of the member that is declared under a name. -/
def position (d : TableDescriptor) (name : String) : Except Error Nat :=
  match d.schema.member? name with
  | some (i, _) => .ok i
  | none => .error (Cause.unknownMember d.schema.typeName name)

/-- The name of the index for a partition member and perhaps a sort member; none is the table. -/
def resolve (d : TableDescriptor) (partition : String) (sort : Option String) :
    Except Error (Option String) := do
  let first ← d.position partition
  let second ← match sort with
    | none => pure none
    | some name => (d.position name).map some
  match d.keyOf? first second with
  | some key => pure (d.indexName? key)
  | none => .error (Cause.keyIndexMismatch partition (sort.getD "<none>"))

end TableDescriptor

end ItemMapper
