import ItemMapper.Codec.Basic
import ItemMapper.Key.Basic
import ItemMapper.Table.Descriptor

/-!
# Building keys

A key is built from the members of a document, from values that are cast to the types of the key's
members, or from its text.

## Main definitions

* `Codec.descriptor`: the table descriptor of a declared document.
* `PrimaryKey.ofDocument`, `PrimaryKey.ofParts`, `PrimaryKey.parse`: building keys.
* `PrimaryKey.toItem`: the attributes of a key.
-/

namespace ItemMapper

/-- The table descriptor of a declared document. -/
def Codec.descriptor (c : Codec) (id : DocumentId) : Except Error TableDescriptor := do
  let schema ← (c.documents id).schema c.typeName
  TableDescriptor.ofSchema schema

namespace PrimaryKey

/-- The type that the values of a member have in keys. -/
def declaredType (options : CodecOptions) (member : Member) : Except Error ScalarType :=
  match member.type.kind.scalarType? options.enumEncoding with
  | some type => .ok type
  | none => .error (Cause.unsupportedType member.type.name "not a key type")

/-- The value as a variant, where the member is of an enumeration and the value names or numbers
one. -/
def enumConstant (options : CodecOptions) (member : Member) (value : Value) : Except Error Value :=
  match member.type.kind, member.type.variants with
  | .enumeration, some variants =>
    let type : EnumType := ⟨member.type.name, variants⟩
    match value with
    | .int number => .ok (.enumeration ⟨type, number⟩)
    | .text s => (type.read options (.text s)).map fun number => .enumeration ⟨type, number⟩
    | value => .ok value
  | _, _ => .ok value

/-- An attribute value as a value of a key of the given type. -/
def cast (typeName : String) (type : ScalarType) (value : AttributeValue) :
    Except Error KeyValue :=
  match type, value with
  | .text, .text s | .text, .number s => .ok (.text s)
  | .number, .number digits => .ok (.number digits)
  | .number, .text s =>
    match KeyValue.ofText .number s with
    | .ok key => .ok key
    | .error _ => .error (Cause.invalidNumber s typeName)
  | .binary, .binary bytes => .ok (.binary bytes)
  | .binary, .text s =>
    match KeyValue.ofText .binary s with
    | .ok key => .ok key
    | .error reason => .error (Cause.typeMismatch "binary key" reason)
  | type, value => .error (Error.typeMismatch type.name value)

/-- A value as the value of a member in keys. -/
def castComponent (options : CodecOptions) (member : Member) (value : Value) :
    Except Error KeyValue := do
  let type ← declaredType options member
  let value ← enumConstant options member value
  let missing : Error := Cause.missingRequiredAttribute (member.storedName options)
  match ← value.encode options .all with
  | none => .error missing
  | some encoded =>
    if encoded.isNull then .error missing else cast member.type.name type encoded

/-- The key of two values, cast to the types of the key's members. -/
def ofParts (options : CodecOptions) (d : TableDescriptor) (partition : Value)
    (sort : Option Value) : Except Error PrimaryKey := do
  let partition ← castComponent options d.partitionMember partition
  match d.sortMember?, sort with
  | some member, some value => do
    let sort ← castComponent options member value
    pure ⟨partition, some sort⟩
  | some member, none => .error (Cause.missingRequiredAttribute (member.storedName options))
  | none, some _ =>
    .error (Cause.invalidMetadata d.schema.typeName "sort value given but no sort key declared")
  | none, none => pure ⟨partition, none⟩

/-- The value of a key that the member at a position of a document holds. -/
def componentOf (c : Codec) (document : Document) (members : List Datum) (position : Nat) :
    Except Error KeyValue := do
  let f := document.fields.getD position default
  match ← c.encodeMember f (members.getD position default) with
  | some value => KeyValue.ofAttribute value
  | none => .error (Cause.missingRequiredAttribute (c.storedName f))

/-- The key of a document with the given members. -/
def ofDocument (c : Codec) (id : DocumentId) (members : List Datum) : Except Error PrimaryKey := do
  let d ← c.descriptor id
  let partition ← componentOf c (c.documents id) members d.partition
  match d.sort with
  | none => pure ⟨partition, none⟩
  | some position => do
    let sort ← componentOf c (c.documents id) members position
    pure ⟨partition, some sort⟩

/-- The parts of a text between the occurrences of a character. -/
def splitAt (mark : Char) (current : List Char) : List Char → List (List Char)
  | [] => [current.reverse]
  | c :: rest =>
    if c = mark then current.reverse :: splitAt mark [] rest else splitAt mark (c :: current) rest

/-- The value of a member that an escaped text stands for. -/
def parseComponent (options : CodecOptions) (malformed : String → Error) (member : Member)
    (raw : List Char) : Except Error KeyValue := do
  if raw.isEmpty then .error (malformed s!"empty component for '{member.name}'")
  else
    match Utf8.decode (Percent.decode (utf8 (String.ofList raw))) with
    | .error e => .error (malformed e.message)
    | .ok decoded => do
      let type ← declaredType options member
      (KeyValue.ofText type decoded).mapError malformed

/-- The key that a text stands for. -/
def parse (options : CodecOptions) (d : TableDescriptor) (source : String) :
    Except Error PrimaryKey := do
  let malformed (reason : String) : Error := Cause.malformedKeyText source reason
  let parts := splitAt '|' [] source.toList
  match d.sortMember?, parts with
  | none, [partition] => do
    let partition ← parseComponent options malformed d.partitionMember partition
    pure ⟨partition, none⟩
  | some member, [partition, sort] => do
    let partition ← parseComponent options malformed d.partitionMember partition
    let sort ← parseComponent options malformed member sort
    pure ⟨partition, some sort⟩
  | sort, parts =>
    let expected := if sort.isSome then 2 else 1
    .error (malformed s!"expected {expected} component(s), found {parts.length}")

/-- The attributes of a key. -/
def toItem (options : CodecOptions) (d : TableDescriptor) (key : PrimaryKey) : Item :=
  let item := Fields.insert [] (d.partitionMember.storedName options) key.partition.toAttribute
  match d.sortMember?, key.sort with
  | some member, some sort => item.insert (member.storedName options) sort.toAttribute
  | _, _ => item

end PrimaryKey

end ItemMapper
