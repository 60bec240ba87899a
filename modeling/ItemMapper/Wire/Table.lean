import ItemMapper.Table.Definition
import ItemMapper.Wire.Basic

/-!
# Table definitions on the wire

Records are objects whose members are named in capitals; lists that are empty and projections that
say nothing are left out.

## Main definitions

* `TableDefinition.toJson`, `TableDefinition.ofJson`: the wire form of a table.
* `TableUpdate.toJson`, `TableUpdate.ofJson`: the wire form of a change.
-/

namespace ItemMapper

/-- A member that is left out when its list is empty. -/
private def unlessEmpty {α : Type} (name : String) (toJson : α → Json) (items : List α) :
    List (String × Json) :=
  if items.isEmpty then [] else [(name, .ofItems (items.map toJson))]

namespace KeyType

/-- The wire form. -/
def toJson (k : KeyType) : Json := .string k.name

/-- Reads the wire form. -/
def ofJson : Wire.Reader KeyType := Wire.word words

end KeyType

namespace ScalarType

/-- The wire form. -/
def toJson (t : ScalarType) : Json := .string t.name

/-- Reads the wire form. -/
def ofJson : Wire.Reader ScalarType := Wire.word words

end ScalarType

namespace BillingMode

/-- The wire form. -/
def toJson (m : BillingMode) : Json := .string m.name

/-- Reads the wire form. -/
def ofJson : Wire.Reader BillingMode := Wire.word words

end BillingMode

namespace ProjectionType

/-- The wire form. -/
def toJson (p : ProjectionType) : Json := .string p.name

/-- Reads the wire form. -/
def ofJson : Wire.Reader ProjectionType := Wire.word words

end ProjectionType

namespace KeySchemaElement

/-- The wire form. -/
def toJson (e : KeySchemaElement) : Json :=
  .ofMembers [("AttributeName", .string e.attributeName), ("KeyType", e.keyType.toJson)]

/-- What has been read of an element. -/
private structure Draft where
  name : Option String
  keyType : Option KeyType

/-- Reads the wire form. -/
def ofJson : Wire.Reader KeySchemaElement :=
  Wire.record "struct KeySchemaElement"
    [⟨"AttributeName", false, (·.name.isSome),
        fun d depth j => (Wire.text depth j).map fun v => { d with name := some v }⟩,
     ⟨"KeyType", false, (·.keyType.isSome),
        fun d depth j => (KeyType.ofJson depth j).map fun v => { d with keyType := some v }⟩]
    (⟨none, none⟩ : Draft)
    fun d => do
      let name ← Wire.required "AttributeName" d.name
      let keyType ← Wire.required "KeyType" d.keyType
      pure ⟨name, keyType⟩

end KeySchemaElement

namespace AttributeDefinition

/-- The wire form. -/
def toJson (a : AttributeDefinition) : Json :=
  .ofMembers [("AttributeName", .string a.attributeName), ("AttributeType", a.attributeType.toJson)]

/-- What has been read of a definition. -/
private structure Draft where
  name : Option String
  type : Option ScalarType

/-- Reads the wire form. -/
def ofJson : Wire.Reader AttributeDefinition :=
  Wire.record "struct AttributeDefinition"
    [⟨"AttributeName", false, (·.name.isSome),
        fun d depth j => (Wire.text depth j).map fun v => { d with name := some v }⟩,
     ⟨"AttributeType", false, (·.type.isSome),
        fun d depth j => (ScalarType.ofJson depth j).map fun v => { d with type := some v }⟩]
    (⟨none, none⟩ : Draft)
    fun d => do
      let name ← Wire.required "AttributeName" d.name
      let type ← Wire.required "AttributeType" d.type
      pure ⟨name, type⟩

end AttributeDefinition

namespace Projection

/-- The wire form. -/
def toJson (p : Projection) : Json :=
  let type := match p.projectionType with
    | some t => [("ProjectionType", t.toJson)]
    | none => []
  .ofMembers (type ++ unlessEmpty "NonKeyAttributes" Json.string p.nonKeyAttributes)

/-- What has been read of a projection. -/
private structure Draft where
  type : Option (Option ProjectionType)
  attributes : Option (List String)

/-- Reads the wire form. -/
def ofJson : Wire.Reader Projection :=
  Wire.record "struct Projection"
    [⟨"ProjectionType", false, (·.type.isSome), fun d depth j =>
        (Wire.optional ProjectionType.ofJson depth j).map fun v => { d with type := some v }⟩,
     ⟨"NonKeyAttributes", true, (·.attributes.isSome), fun d depth j =>
        (Wire.sequence Wire.text depth j).map fun v => { d with attributes := some v }⟩]
    (⟨none, none⟩ : Draft)
    fun d => pure ⟨d.type.getD none, d.attributes.getD []⟩

end Projection

namespace SecondaryIndex

/-- The wire form. -/
def toJson (i : SecondaryIndex) : Json :=
  .ofMembers
    [("IndexName", .string i.indexName),
     ("KeySchema", .ofItems (i.keySchema.map KeySchemaElement.toJson)),
     ("Projection", i.projection.toJson)]

/-- What has been read of an index. -/
private structure Draft where
  name : Option String
  keySchema : Option (List KeySchemaElement)
  projection : Option Projection

/-- Reads the wire form; the name is how refusals call the record. -/
def ofJson (recordName : String) : Wire.Reader SecondaryIndex :=
  Wire.record recordName
    [⟨"IndexName", false, (·.name.isSome),
        fun d depth j => (Wire.text depth j).map fun v => { d with name := some v }⟩,
     ⟨"KeySchema", false, (·.keySchema.isSome), fun d depth j =>
        (Wire.sequence KeySchemaElement.ofJson depth j).map fun v =>
          { d with keySchema := some v }⟩,
     ⟨"Projection", false, (·.projection.isSome), fun d depth j =>
        (Projection.ofJson depth j).map fun v => { d with projection := some v }⟩]
    (⟨none, none, none⟩ : Draft)
    fun d => do
      let name ← Wire.required "IndexName" d.name
      let keySchema ← Wire.required "KeySchema" d.keySchema
      let projection ← Wire.required "Projection" d.projection
      pure ⟨name, keySchema, projection⟩

/-- Reads a local index. -/
def localOfJson : Wire.Reader SecondaryIndex := ofJson "struct LocalSecondaryIndex"

/-- Reads a global index. -/
def globalOfJson : Wire.Reader SecondaryIndex := ofJson "struct GlobalSecondaryIndex"

end SecondaryIndex

namespace TableDefinition

/-- The wire form. -/
def toJson (t : TableDefinition) : Json :=
  .ofMembers <|
    [("TableName", .string t.tableName),
     ("KeySchema", .ofItems (t.keySchema.map KeySchemaElement.toJson)),
     ("AttributeDefinitions", .ofItems (t.attributeDefinitions.map AttributeDefinition.toJson))]
    ++ unlessEmpty "LocalSecondaryIndexes" SecondaryIndex.toJson t.localIndexes
    ++ unlessEmpty "GlobalSecondaryIndexes" SecondaryIndex.toJson t.globalIndexes
    ++ [("BillingMode", t.billingMode.toJson)]

/-- What has been read of a table. -/
private structure Draft where
  name : Option String
  keySchema : Option (List KeySchemaElement)
  attributes : Option (List AttributeDefinition)
  localIndexes : Option (List SecondaryIndex)
  globalIndexes : Option (List SecondaryIndex)
  billingMode : Option BillingMode

/-- Reads the wire form. -/
def ofJson : Wire.Reader TableDefinition :=
  Wire.record "struct TableDefinition"
    [⟨"TableName", false, (·.name.isSome),
        fun d depth j => (Wire.text depth j).map fun v => { d with name := some v }⟩,
     ⟨"KeySchema", false, (·.keySchema.isSome), fun d depth j =>
        (Wire.sequence KeySchemaElement.ofJson depth j).map fun v =>
          { d with keySchema := some v }⟩,
     ⟨"AttributeDefinitions", false, (·.attributes.isSome), fun d depth j =>
        (Wire.sequence AttributeDefinition.ofJson depth j).map fun v =>
          { d with attributes := some v }⟩,
     ⟨"LocalSecondaryIndexes", true, (·.localIndexes.isSome), fun d depth j =>
        (Wire.sequence SecondaryIndex.localOfJson depth j).map fun v =>
          { d with localIndexes := some v }⟩,
     ⟨"GlobalSecondaryIndexes", true, (·.globalIndexes.isSome), fun d depth j =>
        (Wire.sequence SecondaryIndex.globalOfJson depth j).map fun v =>
          { d with globalIndexes := some v }⟩,
     ⟨"BillingMode", false, (·.billingMode.isSome), fun d depth j =>
        (BillingMode.ofJson depth j).map fun v => { d with billingMode := some v }⟩]
    (⟨none, none, none, none, none, none⟩ : Draft)
    fun d => do
      let name ← Wire.required "TableName" d.name
      let keySchema ← Wire.required "KeySchema" d.keySchema
      let attributes ← Wire.required "AttributeDefinitions" d.attributes
      let billingMode ← Wire.required "BillingMode" d.billingMode
      pure ⟨name, keySchema, attributes, d.localIndexes.getD [], d.globalIndexes.getD [],
        billingMode⟩

end TableDefinition

namespace GlobalIndexUpdate

/-- The wire form. -/
def toJson : GlobalIndexUpdate → Json
  | create index => .ofMembers [("Create", index.toJson)]
  | delete name => .ofMembers [("Delete", .ofMembers [("IndexName", .string name)])]

/-- Which change a word announces. -/
private inductive Action where
  | create
  | delete

/-- The words that announce a change. -/
private def actions : List (String × Action) := [("Create", .create), ("Delete", .delete)]

/-- Reads the contents of a deletion. -/
private def deletionOfJson : Wire.Reader GlobalIndexUpdate :=
  Wire.record "struct variant GlobalSecondaryIndexUpdate::Delete"
    [⟨"IndexName", false, Option.isSome, fun _ depth j => (Wire.text depth j).map some⟩]
    (none : Option String)
    fun name => (Wire.required "IndexName" name).map delete

/-- Reads the wire form: an object whose only member names the change. -/
def ofJson : Wire.Reader GlobalIndexUpdate := fun depth j =>
  match depth, j with
  | _, .string name => do
    match ← Wire.lookupWord actions name with
    | .create => throw (.unexpected .bareWord "newtype variant")
    | .delete => throw (.unexpected .bareWord "struct variant")
  | depth + 1, .object ((name, payload) :: rest) ending => do
    let update ← match ← Wire.lookupWord actions name with
      | .create => (SecondaryIndex.globalOfJson depth payload).map create
      | .delete => deletionOfJson depth payload
    if rest.isEmpty && ending.isClosed then pure update else throw .malformed
  | _ + 1, .unkeyed key => throw (Wire.mismatch Wire.wordExpectation key)
  | _, _ => throw .malformed

end GlobalIndexUpdate

namespace TableUpdate

/-- The wire form. -/
def toJson (u : TableUpdate) : Json :=
  .ofMembers <|
    ("TableName", .string u.tableName)
    :: unlessEmpty "AttributeDefinitions" AttributeDefinition.toJson u.attributeDefinitions
    ++ unlessEmpty "GlobalSecondaryIndexUpdates" GlobalIndexUpdate.toJson u.globalIndexUpdates

/-- What has been read of a change. -/
private structure Draft where
  name : Option String
  attributes : Option (List AttributeDefinition)
  updates : Option (List GlobalIndexUpdate)

/-- Reads the wire form. -/
def ofJson : Wire.Reader TableUpdate :=
  Wire.record "struct TableUpdate"
    [⟨"TableName", false, (·.name.isSome),
        fun d depth j => (Wire.text depth j).map fun v => { d with name := some v }⟩,
     ⟨"AttributeDefinitions", true, (·.attributes.isSome), fun d depth j =>
        (Wire.sequence AttributeDefinition.ofJson depth j).map fun v =>
          { d with attributes := some v }⟩,
     ⟨"GlobalSecondaryIndexUpdates", true, (·.updates.isSome), fun d depth j =>
        (Wire.sequence GlobalIndexUpdate.ofJson depth j).map fun v =>
          { d with updates := some v }⟩]
    (⟨none, none, none⟩ : Draft)
    fun d => do
      let name ← Wire.required "TableName" d.name
      pure ⟨name, d.attributes.getD [], d.updates.getD []⟩

end TableUpdate

end ItemMapper
