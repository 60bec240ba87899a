import ItemMapper.Table.Resolution

/-!
# Defining and updating tables

## Main definitions

* `TableDescriptor.toDefinition`: the definition of the table.
* `TableDescriptor.toUpdate`: what to change about the global indexes of an existing table.
-/

namespace ItemMapper.TableDescriptor

/-- The key of a partition member and perhaps a sort member. -/
def keySchema (options : CodecOptions) (partition : Member) (sort : Option Member) :
    List KeySchemaElement :=
  ⟨partition.storedName options, .hash⟩ ::
    match sort with
    | some member => [⟨member.storedName options, .range⟩]
    | none => []

/-- The local indexes of the table. -/
def localIndexes (d : TableDescriptor) (options : CodecOptions) : List SecondaryIndex :=
  d.localOrdinals.filterMap fun ordinal => do
    let sort ← d.localSort? ordinal
    let name ← d.localIndexName? ordinal
    pure ⟨name, keySchema options d.partitionMember (some (d.memberAt sort)), .all⟩

/-- The global indexes of the table. -/
def globalIndexes (d : TableDescriptor) (options : CodecOptions) : List SecondaryIndex :=
  d.globalOrdinals.filterMap fun ordinal => do
    let partition ← d.globalPartition? ordinal
    let name ← d.globalIndexName? ordinal
    pure ⟨name,
      keySchema options (d.memberAt partition) ((d.globalSort? ordinal).map d.memberAt), .all⟩

/-- The members of the table's key and of its indexes. -/
def keyMembers (d : TableDescriptor) : List Member :=
  d.partitionMember :: d.sortMember?.toList ++
    d.localOrdinals.filterMap (fun o => (d.localSort? o).map d.memberAt) ++
    d.globalOrdinals.flatMap fun o =>
      match d.globalPartition? o with
      | some partition => d.memberAt partition :: ((d.globalSort? o).map d.memberAt).toList
      | none => []

/-- The types of the stored attributes of members, each attribute once. -/
def attributeDefinitions (d : TableDescriptor) (options : CodecOptions) (seen : List String) :
    List Member → Except Error (List AttributeDefinition)
  | [] => .ok []
  | member :: rest =>
    let name := member.storedName options
    if seen.contains name then attributeDefinitions d options seen rest
    else
      match member.type.kind.scalarType? options.enumEncoding with
      | none =>
        .error (Cause.invalidMetadata d.schema.typeName
          s!"key member '{member.name}' has no scalar key type")
      | some type => do
        let others ← attributeDefinitions d options (name :: seen) rest
        pure (⟨name, type⟩ :: others)

/-- The definition of the table under a name. -/
def toDefinition (d : TableDescriptor) (options : CodecOptions) (tableName : String) :
    Except Error TableDefinition := do
  let attributes ← d.attributeDefinitions options [] d.keyMembers
  pure
    { tableName := tableName
      keySchema := keySchema options d.partitionMember d.sortMember?
      attributeDefinitions := attributes
      localIndexes := d.localIndexes options
      globalIndexes := d.globalIndexes options
      billingMode := .payPerRequest }

/-- Whether two indexes have the same name and key. -/
def sameIndex (a b : SecondaryIndex) : Bool :=
  a.indexName == b.indexName && a.keySchema == b.keySchema

/-- What to change about the global indexes of an existing table: those that are not wanted, or are
wanted with another key, are deleted, and those that are missing are created. -/
def toUpdate (d : TableDescriptor) (options : CodecOptions) (existing : TableDefinition) :
    Except Error TableUpdate := do
  let desired := d.globalIndexes options
  let deleted := existing.globalIndexes.filter fun current =>
    !desired.any fun index => sameIndex index current
  let created := desired.filter fun index =>
    !existing.globalIndexes.any fun current => sameIndex current index
  let needed := created.flatMap fun index =>
    index.keySchema.filterMap fun element =>
      (d.schema.lookup? element.attributeName options).map (·.2)
  let attributes ← d.attributeDefinitions options [] needed
  pure
    { tableName := existing.tableName
      attributeDefinitions := attributes
      globalIndexUpdates :=
        deleted.map (fun index => .delete index.indexName) ++ created.map .create }

end ItemMapper.TableDescriptor
