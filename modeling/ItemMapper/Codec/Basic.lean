import ItemMapper.Codec.Converter
import ItemMapper.Schema.Document
import ItemMapper.Value.Encoding

/-!
# The codec

How values of declared types become attribute values. Containers, enumerations and documents are
written piece by piece into a writer; everything else goes through the converters.

A member of a document that is null or holds the default of its type is left out, unless it is part
of the key, the member says otherwise, or the options do.

## Main definitions

* `Codec`: everything that writing and reading depend on.
* `Codec.write`: writes a value of a type into the current slot of a writer.
* `Codec.encodeWith`, `Codec.encode`: the attribute value of a value.
-/

namespace ItemMapper

/-- Everything that writing and reading depend on. -/
structure Codec where
  options : CodecOptions
  /-- How messages call a type. -/
  typeName : Ty → String
  /-- Whether members of a type are stored when they hold its default, where the application
  decides that. -/
  defaultValuesFor : Option (TypeInfo → Bool)
  /-- The discriminator of a document among others. -/
  discriminatorFor : TypeInfo → Option String
  /-- The chain of converters. -/
  converters : List Converter
  /-- The declared documents. -/
  documents : DocumentId → Document

namespace Codec

/-- Facts about a type. -/
def info (c : Codec) (type : Ty) : TypeInfo := type.info c.typeName

/-- The type as one that a value is wanted of. -/
def target (c : Codec) (type : Ty) : Target := ⟨type, c.typeName type⟩

/-- The schemas of the declared documents. -/
def schemas (c : Codec) : Schemas := fun id => ((c.documents id).schema c.typeName).toOption

/-- What the outermost object and the root keep under the options. -/
def writeFlags (c : Codec) : WriteFlags :=
  ⟨c.options.serializeNullValues, c.options.serializeDefaultValues⟩

/-- Whether a member of a type is stored when it holds the default of the type. -/
def keepsDefault (c : Codec) (type : TypeInfo) : Bool :=
  c.options.serializeDefaultValues ||
    match c.defaultValuesFor with
    | some decide => decide type
    | none => type.kind == .enumeration

/-- The name under which a declared member is stored. -/
def storedName (c : Codec) (f : Field) : String :=
  f.rename.getD (c.options.attributeNaming.apply f.name)

/-- Whether the member is part of the table's own key. -/
def isKey (f : Field) : Bool := f.roles.any (·.kind == .primary)

/-- Whether a member with a value is stored. -/
def keepsMember (c : Codec) (f : Field) (value : Datum) : Bool :=
  if value.isNull then isKey f || f.persistNull.getD c.options.serializeNullValues
  else if value.isDefault then
    isKey f || f.persistDefault.getD (c.keepsDefault (c.info f.type))
  else true

/-- Whether a member stays in the outermost object whatever it holds. -/
def isPinned (f : Field) : Bool := f.persistNull == some true || f.persistDefault == some true

/-- Writes a value of a type by a converter. -/
def writeLeaf (c : Codec) (type : Ty) (value : Datum) : WriterM Unit :=
  Converter.writeBy (Converter.first? c.converters type) (c.typeName type) ⟨type, value⟩

/-- The value that a call writes as a part of another one, after hooks. -/
def hooked (hooks : List WriteHook) (call : WriterM Unit) : Except Error AttributeValue := do
  let written ← Writer.forPart.run call
  runWriteHooks hooks (written.getD (.null true))

/-- Writes the value of a member through its hooks, if there are any. -/
def writeHooked (f : Field) (call : WriterM Unit) : WriterM Unit :=
  if f.onWrite.isEmpty then call
  else fun w =>
    match hooked f.onWrite call with
    | .ok value => Writer.write value w
    | .error e => .error e w

/-- Opens a document and writes its discriminator, if it has one. -/
def beginDocument (c : Codec) (d : Document) (discriminator : Option String) : WriterM Unit :=
  fun w =>
    match d.check with
    | .error e => .error e w
    | .ok () =>
      (do
        Writer.beginObject
        match discriminator with
        | some name => do
          Writer.propertyWith c.options.typeDiscriminator true
          Writer.writeText name
        | none => pure ()) w

/-- The failure to write a value that is not of its type. -/
def illTyped (c : Codec) (type : Ty) : WriterM Unit := fun w =>
  .error (Cause.unsupportedType (c.typeName type) "not a value of this type") w

mutual
/-- Writes a value of a type into the current slot. -/
def write (c : Codec) : Ty → Datum → WriterM Unit
  | .option _, .absent => Writer.writeNull
  | .option inner, .present value => write c inner value
  | .boxed inner, .boxed value => write c inner value
  | .enumeration type, .enumeration number => type.write c.options number
  | .list inner, .list items => do
    Writer.beginArray false
    writeItems c inner 0 items
    Writer.endArray
  | .set _ inner, .list items => do
    Writer.beginArray true
    writeItems c inner 0 items
    Writer.endArray
  | .map _ inner, .map entries => do
    Writer.beginObject
    writeEntries c inner entries
    Writer.endObject
  | .document id, .document members => do
    beginDocument c (c.documents id) none
    writeMembers c (c.documents id).fields members
    Writer.endObject
  | .oneOf name variants, .variant variant members =>
    match variants.lookup variant with
    | some id => do
      beginDocument c (c.documents id) (c.discriminatorFor (c.info (.document id)))
      writeMembers c (c.documents id).fields members
      Writer.endObject
    | none => illTyped c (.oneOf name variants)
  | .dynamic, .dynamic value => value.write c.options
  | .stored, .stored value => Writer.write value
  | .scalar type, value => writeLeaf c (.scalar type) value
  | .foreign name, value => writeLeaf c (.foreign name) value
  | type, _ => illTyped c type

/-- Writes the items of a list, the first of which has the given position. -/
def writeItems (c : Codec) (inner : Ty) (position : Nat) : List Datum → WriterM Unit
  | [] => pure ()
  | item :: rest => do
    Writer.inside (.index position) (write c inner item)
    writeItems c inner (position + 1) rest

/-- Writes the entries of a map. -/
def writeEntries (c : Codec) (inner : Ty) : List (String × Datum) → WriterM Unit
  | [] => pure ()
  | (key, value) :: rest => do
    Writer.property key
    Writer.inside (.field key) (write c inner value)
    writeEntries c inner rest

/-- Writes the members of a document. -/
def writeMembers (c : Codec) : List Field → List Datum → WriterM Unit
  | f :: fields, value :: values => do
    Writer.inside (.field (c.storedName f)) <|
      if c.keepsMember f value then do
        Writer.propertyWith (c.storedName f) (isPinned f)
        writeHooked f (write c f.type value)
      else pure ()
    writeMembers c fields values
  | _, _ => pure ()
end

/-- The attribute value of a value, if the flags keep one. -/
def encodeWith (c : Codec) (flags : WriteFlags) (type : Ty) (value : Datum) :
    Except Error (Option AttributeValue) :=
  (Writer.new flags).run (c.write type value)

/-- The attribute value of a value, if the options keep one. -/
def encode (c : Codec) (type : Ty) (value : Datum) : Except Error (Option AttributeValue) :=
  c.encodeWith c.writeFlags type value

/-- The attribute value of one member by itself, after its hooks. -/
def encodeMember (c : Codec) (f : Field) (value : Datum) :
    Except Error (Option AttributeValue) := do
  match ← c.encodeWith .none f.type value with
  | some written => (runWriteHooks f.onWrite written).map some
  | none => pure none

end Codec

end ItemMapper
