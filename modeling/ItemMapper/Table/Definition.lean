/-!
# Table definitions

What the store is told about a table: its key, its indexes, the types of the attributes that occur
in keys, and how an existing table is changed.

## Main definitions

* `KeyType`, `ScalarType`, `BillingMode`, `ProjectionType`: the words of the store.
* `TableDefinition`, `TableUpdate`: a table, and a change of its global indexes.
-/

namespace ItemMapper

/-- The part that an attribute plays in a key. -/
inductive KeyType where
  /-- The partition attribute. -/
  | hash
  /-- The sort attribute. -/
  | range
deriving DecidableEq, Repr, Inhabited

/-- The types that an attribute of a key may have. -/
inductive ScalarType where
  | text
  | number
  | binary
deriving DecidableEq, Repr, Inhabited

/-- How a table is paid for. -/
inductive BillingMode where
  | provisioned
  | payPerRequest
deriving DecidableEq, Repr, Inhabited

/-- Which attributes an index holds. -/
inductive ProjectionType where
  | all
  | keysOnly
  | included
deriving DecidableEq, Repr, Inhabited

namespace KeyType

/-- The words of the store for the parts of a key. -/
def words : List (String × KeyType) := [("HASH", hash), ("RANGE", range)]

/-- The word of the store. -/
def name : KeyType → String
  | hash => "HASH"
  | range => "RANGE"

end KeyType

namespace ScalarType

/-- The words of the store for the types. -/
def words : List (String × ScalarType) := [("S", text), ("N", number), ("B", binary)]

/-- The word of the store. -/
def name : ScalarType → String
  | text => "S"
  | number => "N"
  | binary => "B"

end ScalarType

namespace BillingMode

/-- The words of the store for the modes. -/
def words : List (String × BillingMode) :=
  [("PROVISIONED", provisioned), ("PAY_PER_REQUEST", payPerRequest)]

/-- The word of the store. -/
def name : BillingMode → String
  | provisioned => "PROVISIONED"
  | payPerRequest => "PAY_PER_REQUEST"

/-- The mode of a table for which none is chosen. -/
def initial : BillingMode := payPerRequest

end BillingMode

namespace ProjectionType

/-- The words of the store for the projections. -/
def words : List (String × ProjectionType) :=
  [("ALL", all), ("KEYS_ONLY", keysOnly), ("INCLUDE", included)]

/-- The word of the store. -/
def name : ProjectionType → String
  | all => "ALL"
  | keysOnly => "KEYS_ONLY"
  | included => "INCLUDE"

/-- The projection for which none is chosen. -/
def initial : ProjectionType := all

end ProjectionType

/-- One attribute of a key. -/
structure KeySchemaElement where
  attributeName : String
  keyType : KeyType
deriving DecidableEq, Repr, Inhabited

/-- The type of an attribute that occurs in a key. -/
structure AttributeDefinition where
  attributeName : String
  attributeType : ScalarType
deriving DecidableEq, Repr, Inhabited

/-- The attributes that an index holds. -/
structure Projection where
  projectionType : Option ProjectionType
  nonKeyAttributes : List String
deriving DecidableEq, Repr, Inhabited

/-- The projection of every attribute. -/
def Projection.all : Projection := ⟨some .all, []⟩

/-- The projection that says nothing. -/
def Projection.unspecified : Projection := ⟨none, []⟩

/-- A secondary index, local or global. -/
structure SecondaryIndex where
  indexName : String
  keySchema : List KeySchemaElement
  projection : Projection
deriving DecidableEq, Repr, Inhabited

/-- A table as the store creates it. -/
structure TableDefinition where
  tableName : String
  keySchema : List KeySchemaElement
  attributeDefinitions : List AttributeDefinition
  localIndexes : List SecondaryIndex
  globalIndexes : List SecondaryIndex
  billingMode : BillingMode
deriving DecidableEq, Repr, Inhabited

/-- One change of the global indexes of a table. -/
inductive GlobalIndexUpdate where
  | create (index : SecondaryIndex)
  | delete (indexName : String)
deriving DecidableEq, Repr, Inhabited

/-- A change of a table. -/
structure TableUpdate where
  tableName : String
  attributeDefinitions : List AttributeDefinition
  globalIndexUpdates : List GlobalIndexUpdate
deriving DecidableEq, Repr, Inhabited

/-- Whether an update changes nothing. -/
def TableUpdate.isEmpty (update : TableUpdate) : Bool := update.globalIndexUpdates.isEmpty

end ItemMapper
