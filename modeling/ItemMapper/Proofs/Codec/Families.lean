import ItemMapper.Codec.Decoding

/-!
# Families of documents

The documents that are read back as they were written, or at least are written again as they were:
without hooks, with distinct stored names, and with members that are built from scalars, enumerations,
optional values, pointers, lists, sets, maps and other such documents, each holding the default of its
type where nothing is stored.

What is read back is a value of its type that holds nothing which vanishes on the way: a null or an
empty container inside an option, a list, a set or a map is not told apart from nothing, and a
member of the key may not be left out.

## Main definitions

* `Codec.HasType`: the values of a type.
* `Codec.Visits`: the orders in which the sets and the maps in a value may be visited.
* `Codec.KeepsStored`: the types of which what is read is stored as before.
* `Codec.Restorable`: a family of documents that are made of such types.
* `Codec.Plain`: a family of documents made of the types that need no such care.
* `Codec.Vanishes`: a value that is stored as null or as an empty container inside another one.
* `Codec.NothingVanishes`: nothing that a value holds, and no member of a key in it, vanishes.
-/

namespace ItemMapper

/-- The text of the number reads back as an equal number that has the same text, as it should of
every number that the format has. -/
def Floating.ReadsBack (f : Floating.Format) (x : Floating) : Prop :=
  ∃ y, Floating.read? f (x.print f) = some y ∧ y.equals x = true ∧ y.print f = x.print f

/-- What is read of the text of the value has the same text, and is the default of its type where the
value is. -/
def Stamp.KeepsText (type : TextType) (s : Stamp) : Prop :=
  ∀ read, type.read? s.text = some read →
    read.text = s.text ∧ (Datum.stamp read).isZero = (Datum.stamp s).isZero

/-- The values of a textual type. -/
def TextType.Fits : TextType → Stamp → Prop
  | .instant, .instant _ | .localInstant, .instant _ | .date, .date _ | .dateTime, .dateTime _
  | .clock, .clock _ | .signedSpan, .span _ | .unsignedSpan, .span _ => True
  | .uuid, .uuid value => value.value < 2 ^ 128
  | _, _ => False

/-- The values of a scalar type. Of numbers, dates and times those are meant whose texts can be read as
they were printed. -/
def Scalar.Holds : Scalar → Datum → Prop
  | .bool, .bool _ => True
  | .int type, .int value => type.low ≤ value ∧ value ≤ type.high
  | .float type, .float value => value.isFinite = true → value.ReadsBack type.format
  | .char, .char _ => True
  | .text, .text _ => True
  | .binary, .binary _ => True
  | .textual type, .stamp value => type.Fits value ∧ (type ≠ .uuid → value.KeepsText type)
  | _, _ => False

/-- What is read of a stored variant is stored as the same, which is not null, and has the number zero
where the variant does. -/
def EnumType.KeepsStored (e : EnumType) (options : CodecOptions) : Prop :=
  ∀ number, (e.name? number).isSome → ∃ written,
    Writer.forPart.run (e.write options number) = .ok (some written) ∧ written.isNull = false ∧
      ∀ read, e.read options written = .ok read →
        Writer.forPart.run (e.write options read) = .ok (some written) ∧ (read = 0 ↔ number = 0)

/-- The variants of an enumeration have names, no two the same, and numbers of 64 bits. -/
structure EnumType.WellFormed (e : EnumType) : Prop where
  names : (e.variants.map (·.1)).Nodup
  named : ∀ v ∈ e.variants, v.1 ≠ ""
  bounds : ∀ v ∈ e.variants, -(2 ^ 63) ≤ v.2 ∧ v.2 < 2 ^ 63

/-- The types that are built from scalars without formatted text, enumerations and the documents of
a family. -/
def Ty.BuiltFrom (family : DocumentId → Prop) : Ty → Prop
  | .scalar (.textual _) => False
  | .scalar _ => True
  | .enumeration type => type.WellFormed
  | .option inner | .boxed inner | .list inner | .set _ inner | .map _ inner =>
    inner.BuiltFrom family
  | .document id => family id
  | .oneOf _ _ | .dynamic | .stored | .foreign _ => False

/-- Whether an attribute value is null or an empty container, which objects and arrays drop. -/
def AttributeValue.isVoid (value : AttributeValue) : Bool :=
  value.isNull || value.isEmptyContainer

namespace Codec

/-! ### Values of types -/

/-- The values of a type. The members of a set and the keys of a map ascend. -/
inductive HasType (c : Codec) : Ty → Datum → Prop
  | scalar {type : Scalar} {value : Datum} (holds : type.Holds value) :
      HasType c (.scalar type) value
  | enumeration {type : EnumType} {number : Int} (known : (type.name? number).isSome) :
      HasType c (.enumeration type) (.enumeration number)
  | absent (inner : Ty) : HasType c (.option inner) .absent
  | present {inner : Ty} {value : Datum} (held : HasType c inner value) :
      HasType c (.option inner) (.present value)
  | boxed {inner : Ty} {value : Datum} (held : HasType c inner value) :
      HasType c (.boxed inner) (.boxed value)
  | list {inner : Ty} {items : List Datum} (held : ∀ item ∈ items, HasType c inner item) :
      HasType c (.list inner) (.list items)
  | set (hashed : Bool) {inner : Ty} {items : List Datum}
      (held : ∀ item ∈ items, HasType c inner item)
      (ascending : items.Pairwise fun x y => x.compare y = .lt) :
      HasType c (.set hashed inner) (.list items)
  | map (hashed : Bool) {inner : Ty} {entries : List (String × Datum)}
      (held : ∀ entry ∈ entries, HasType c inner entry.2) (ascending : Fields.Ascending entries) :
      HasType c (.map hashed inner) (.map entries)
  | document {id : DocumentId} {members : List Datum}
      (length : (c.documents id).fields.length = members.length)
      (held : ∀ member ∈ (c.documents id).fields.zip members,
        HasType c member.1.type member.2) :
      HasType c (.document id) (.document members)
  | oneOf {name variant : String} {variants : List (String × DocumentId)} {id : DocumentId}
      {members : List Datum} (known : variants.lookup variant = some id)
      (length : (c.documents id).fields.length = members.length)
      (held : ∀ member ∈ (c.documents id).fields.zip members,
        HasType c member.1.type member.2) :
      HasType c (.oneOf name variants) (.variant variant members)

/-- A value of a type, and the same value as it is visited when it is written: the members of sets and
the entries of maps come in any order, at any depth, as those of hashed ones may. -/
inductive Visits (c : Codec) : Ty → Datum → Datum → Prop
  | scalar (type : Scalar) (value : Datum) : Visits c (.scalar type) value value
  | enumeration (type : EnumType) (value : Datum) : Visits c (.enumeration type) value value
  | absent (inner : Ty) : Visits c (.option inner) .absent .absent
  | present {inner : Ty} {value visited : Datum} (held : Visits c inner value visited) :
      Visits c (.option inner) (.present value) (.present visited)
  | boxed {inner : Ty} {value visited : Datum} (held : Visits c inner value visited) :
      Visits c (.boxed inner) (.boxed value) (.boxed visited)
  | list {inner : Ty} {items visited : List Datum} (length : items.length = visited.length)
      (held : ∀ pair ∈ items.zip visited, Visits c inner pair.1 pair.2) :
      Visits c (.list inner) (.list items) (.list visited)
  | set (hashed : Bool) {inner : Ty} {items order visited : List Datum}
      (length : items.length = order.length)
      (held : ∀ pair ∈ items.zip order, Visits c inner pair.1 pair.2) (perm : order.Perm visited) :
      Visits c (.set hashed inner) (.list items) (.list visited)
  | map (hashed : Bool) {inner : Ty} {entries order visited : List (String × Datum)}
      (keys : entries.map (·.1) = order.map (·.1))
      (held : ∀ pair ∈ entries.zip order, Visits c inner pair.1.2 pair.2.2)
      (perm : order.Perm visited) : Visits c (.map hashed inner) (.map entries) (.map visited)
  | document {id : DocumentId} {members visited : List Datum}
      (length : members.length = visited.length)
      (held : ∀ member ∈ (c.documents id).fields.zip (members.zip visited),
        Visits c member.1.type member.2.1 member.2.2) :
      Visits c (.document id) (.document members) (.document visited)
  | oneOf {name variant : String} {variants : List (String × DocumentId)} {id : DocumentId}
      {members visited : List Datum} (known : variants.lookup variant = some id)
      (length : members.length = visited.length)
      (held : ∀ member ∈ (c.documents id).fields.zip (members.zip visited),
        Visits c member.1.type member.2.1 member.2.2) :
      Visits c (.oneOf name variants) (.variant variant members) (.variant variant visited)

/-- The default of a type; of an enumeration, the variant with the number zero if there is one. A
polymorphic type has no default that is its own. -/
def IsInitial (c : Codec) : Ty → Datum → Prop
  | .scalar type, value => value = type.initial
  | .enumeration type, value =>
    ∃ number, value = .enumeration number ∧ ((type.name? 0).isSome → number = 0)
  | .option _, value => value = .absent
  | .boxed inner, value => ∃ pointee, value = .boxed pointee ∧ c.IsInitial inner pointee
  | .list _, value | .set _ _, value => value = .list []
  | .map _ _, value => value = .map []
  | .document id, value => value = .document (initialMembers (c.documents id))
  | .oneOf _ _, _ => True
  | _, _ => False

/-! ### Families of documents -/

/-- The variants of a polymorphic type have names of their own and texts of their own, which stand
beside the members of their documents. -/
structure VariantsToldApart (c : Codec) (variants : List (String × DocumentId)) : Prop where
  names : (variants.map (·.1)).Nodup
  texts : (variants.map fun v => c.discriminatorFor (c.info (.document v.2))).Nodup
  discriminated : ∀ v ∈ variants,
    ∃ text, c.discriminatorFor (c.info (.document v.2)) = some text ∧ text ≠ ""
  free : ∀ v ∈ variants, ∀ f ∈ (c.documents v.2).fields,
    c.storedName f ≠ c.options.typeDiscriminator

/-- The types of which what is read is stored as before, the documents in them being of a family. -/
def KeepsStored (c : Codec) (family : DocumentId → Prop) : Ty → Prop
  | .scalar _ => True
  | .enumeration type => type.KeepsStored c.options
  | .option inner | .boxed inner | .list inner | .set _ inner | .map _ inner =>
    c.KeepsStored family inner
  | .document id => family id
  | .oneOf _ variants => c.VariantsToldApart variants ∧ ∀ v ∈ variants, family v.2
  | .dynamic | .stored | .foreign _ => False

/-- A family of documents without hooks, whose members have distinct stored names and hold the
defaults of their types where nothing is stored. There are no converters but those that are always
there. -/
structure Regular (c : Codec) (family : DocumentId → Prop) : Prop where
  converters : c.converters = Converter.builtins
  onWrite : ∀ id, family id → ∀ f ∈ (c.documents id).fields, f.onWrite = []
  onRead : ∀ id, family id → ∀ f ∈ (c.documents id).fields, f.onRead = []
  names : ∀ id, family id → ((c.documents id).fields.map c.storedName).Nodup
  initial : ∀ id, family id → ∀ f ∈ (c.documents id).fields, c.IsInitial f.type f.initial

/-- A regular family of whose members what is read is stored as before. -/
structure Restorable (c : Codec) (family : DocumentId → Prop) : Prop extends c.Regular family where
  types : ∀ id, family id → ∀ f ∈ (c.documents id).fields, c.KeepsStored family f.type

/-- A regular family whose members are built from scalars without formatted text, enumerations and
documents of the family, where the names of variants are stored as they are. -/
structure Plain (c : Codec) (family : DocumentId → Prop) : Prop extends c.Regular family where
  enumNaming : c.options.enumNaming = .identity
  types : ∀ id, family id → ∀ f ∈ (c.documents id).fields, f.type.BuiltFrom family

/-! ### What vanishes -/

/-- Inside another value, the value is stored as null or as an empty container. -/
def Vanishes (c : Codec) (type : Ty) (value : Datum) : Prop :=
  ∃ written, Writer.forPart.run (c.write type value) = .ok (some written) ∧ written.isVoid = true

/-- Nothing that the value holds in an option, a list, a set or a map vanishes, at any depth, and
neither does a member that is part of a key. -/
inductive NothingVanishes (c : Codec) : Ty → Datum → Prop
  | scalar (type : Scalar) (value : Datum) : NothingVanishes c (.scalar type) value
  | enumeration (type : EnumType) (value : Datum) : NothingVanishes c (.enumeration type) value
  | absent (inner : Ty) : NothingVanishes c (.option inner) .absent
  | present {inner : Ty} {value : Datum} (stays : ¬ c.Vanishes inner value)
      (held : NothingVanishes c inner value) :
      NothingVanishes c (.option inner) (.present value)
  | boxed {inner : Ty} {value : Datum} (held : NothingVanishes c inner value) :
      NothingVanishes c (.boxed inner) (.boxed value)
  | list {inner : Ty} {items : List Datum} (stays : ∀ item ∈ items, ¬ c.Vanishes inner item)
      (held : ∀ item ∈ items, NothingVanishes c inner item) :
      NothingVanishes c (.list inner) (.list items)
  | set {hashed : Bool} {inner : Ty} {items : List Datum}
      (stays : ∀ item ∈ items, ¬ c.Vanishes inner item)
      (held : ∀ item ∈ items, NothingVanishes c inner item) :
      NothingVanishes c (.set hashed inner) (.list items)
  | map {hashed : Bool} {inner : Ty} {entries : List (String × Datum)}
      (stays : ∀ entry ∈ entries, ¬ c.Vanishes inner entry.2)
      (held : ∀ entry ∈ entries, NothingVanishes c inner entry.2) :
      NothingVanishes c (.map hashed inner) (.map entries)
  | document {id : DocumentId} {members : List Datum}
      (stays : ∀ member ∈ (c.documents id).fields.zip members, isKey member.1 →
        ¬ c.Vanishes member.1.type member.2)
      (held : ∀ member ∈ (c.documents id).fields.zip members,
        NothingVanishes c member.1.type member.2) :
      NothingVanishes c (.document id) (.document members)
  | oneOf {name variant : String} {variants : List (String × DocumentId)} {id : DocumentId}
      {members : List Datum} (known : variants.lookup variant = some id)
      (stays : ∀ member ∈ (c.documents id).fields.zip members, isKey member.1 →
        ¬ c.Vanishes member.1.type member.2)
      (held : ∀ member ∈ (c.documents id).fields.zip members,
        NothingVanishes c member.1.type member.2) :
      NothingVanishes c (.oneOf name variants) (.variant variant members)

end Codec

end ItemMapper
