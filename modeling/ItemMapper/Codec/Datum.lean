import ItemMapper.Codec.Scalar
import ItemMapper.Value.Basic

/-!
# Types and their values

The types that the codec knows, built from scalars, enumerations, optional values, containers and
declared documents, and the values of these types. A type refers to a document by its number in a
catalogue, so that documents may contain themselves.

## Main definitions

* `Ty`: the types.
* `Datum`: the values.
* `Kind`: what sort of attribute value a type is stored as.
* `Datum.isNull`, `Datum.isDefault`: the values that may be left out of a document.
* `Datum.toValue`: the dynamic value of a value.
-/

namespace ItemMapper

/-- The number of a document in a catalogue. -/
abbrev DocumentId := Nat

/-- The types of values. -/
inductive Ty where
  | scalar (type : Scalar)
  | enumeration (type : EnumType)
  | option (inner : Ty)
  /-- A value behind a pointer. -/
  | boxed (inner : Ty)
  | list (inner : Ty)
  /-- A set, kept in order or by hashes. -/
  | set (hashed : Bool) (inner : Ty)
  /-- A map with texts as keys, kept in order or by hashes. -/
  | map (hashed : Bool) (inner : Ty)
  | document (id : DocumentId)
  /-- One of several documents, told apart by a discriminator. -/
  | oneOf (name : String) (variants : List (String × DocumentId))
  /-- Dynamic values. -/
  | dynamic
  /-- Attribute values as they stand. -/
  | stored
  /-- A type of the application, whose values are texts. -/
  | foreign (name : String)
deriving DecidableEq, Repr, Inhabited

/-- The values. -/
inductive Datum where
  | bool (value : Bool)
  | int (value : Int)
  | float (value : Floating)
  | char (value : Char)
  | text (value : String)
  | binary (bytes : Bytes)
  | stamp (value : Stamp)
  /-- A variant of an enumeration, by its number. -/
  | enumeration (number : Int)
  /-- An optional value that is not there. -/
  | absent
  /-- An optional value that is there. -/
  | present (inner : Datum)
  | boxed (inner : Datum)
  /-- The items of a list, or the members of a set in ascending order. -/
  | list (items : List Datum)
  /-- The entries of a map, their keys in ascending order. -/
  | map (entries : List (String × Datum))
  /-- The members of a document, in the order of their declaration. -/
  | document (members : List Datum)
  /-- One of several documents, by its variant's name and its members. -/
  | variant (name : String) (members : List Datum)
  | dynamic (value : Value)
  | stored (value : AttributeValue)
  | foreign (text : String)
deriving Repr, Inhabited

/-- What a type is stored as. -/
inductive Kind where
  | null
  | bool
  | text
  | number
  | binary
  | enumeration
  | list
  | set
  | map
  | document
  | dynamic
deriving DecidableEq, Repr, Inhabited

/-- The name of a kind. -/
def Kind.name : Kind → String
  | null => "null"
  | bool => "bool"
  | text => "string"
  | number => "number"
  | binary => "binary"
  | enumeration => "enum"
  | list => "list"
  | set => "set"
  | map => "map"
  | document => "document"
  | dynamic => "dynamic"

namespace Scalar

/-- What a scalar type is stored as. -/
def kind : Scalar → Kind
  | bool => .bool
  | int _ | float _ => .number
  | char | text | textual _ => .text
  | binary => .binary

/-- The default of a scalar type. -/
def initial : Scalar → Datum
  | bool => .bool false
  | int _ => .int 0
  | float _ => .float (.finite false 0)
  | char => .char '\x00'
  | text => .text ""
  | binary => .binary []
  | textual type => .stamp type.initial

end Scalar

namespace Ty

/-- What a type is stored as; a pointer and an optional value are stored as what they hold. -/
def kind : Ty → Kind
  | scalar type => type.kind
  | enumeration _ => .enumeration
  | option inner | boxed inner => inner.kind
  | list _ => .list
  | set _ _ => .set
  | map _ _ => .map
  | document _ | oneOf _ _ => .document
  | dynamic | stored | foreign _ => .dynamic

/-- The variants, of an enumeration that the type is or holds. -/
def enumType? : Ty → Option EnumType
  | enumeration type => some type
  | option inner | boxed inner => inner.enumType?
  | _ => none

/-- The document that the type is, holds, or is a list of. -/
def document? : Ty → Option DocumentId
  | document id => some id
  | option inner | boxed inner | list inner => inner.document?
  | _ => none

end Ty

namespace Datum

/-- Whether a value counts as null. -/
def isNull : Datum → Bool
  | absent => true
  | present inner | boxed inner => inner.isNull
  | dynamic value => value.isNull
  | stored (.null _) => true
  | _ => false

/-- Whether a scalar value is the default of its type. -/
def isZero : Datum → Bool
  | bool value => !value
  | int value => value == 0
  | float value => value.equals (.finite false 0)
  | char value => value == '\x00'
  | text value => value.isEmpty
  | binary bytes => bytes.isEmpty
  | stamp value =>
    match value with
    | .instant i => i.sameMoment .epoch
    | .date d => d == .epoch
    | .dateTime d => d == .epoch
    | .clock c => c == .midnight
    | .span nanos => nanos == 0
    | .uuid u => u == .zero
  | _ => false

/-- Whether a value is one that a member may hold without being stored: the default of a scalar, the
number zero of an enumeration, nothing, or an empty container. Documents and dynamic values never
are. -/
def isDefault : Datum → Bool
  | enumeration number => number == 0
  | absent => true
  | boxed inner => inner.isDefault
  | list items => items.isEmpty
  | map entries => entries.isEmpty
  | foreign value => value.isEmpty
  | present _ | document _ | variant _ _ | dynamic _ | stored _ => false
  | scalar => scalar.isZero

/-- The place of a value's sort in the order of values. -/
def rank : Datum → Nat
  | absent => 0
  | present _ => 1
  | bool _ => 2
  | int _ => 3
  | float _ => 4
  | char _ => 5
  | text _ => 6
  | binary _ => 7
  | stamp _ => 8
  | enumeration _ => 9
  | boxed _ => 10
  | list _ => 11
  | map _ => 12
  | document _ => 13
  | variant _ _ => 14
  | dynamic _ => 15
  | stored _ => 16
  | foreign _ => 17

/-- The numbers by which two values of one textual type are ordered. -/
def stampKey : Stamp → List Int
  | .instant i => [i.seconds, i.nanos]
  | .date d => [d.year, d.month, d.day]
  | .dateTime d => [d.date.year, d.date.month, d.date.day, d.clock.seconds, d.clock.nanos]
  | .clock c => [c.seconds, c.nanos]
  | .span nanos => [nanos]
  | .uuid u => [u.value]

mutual
/-- The order of the values of one type. -/
def compare : Datum → Datum → Ordering
  | present x, present y => compare x y
  | boxed x, boxed y => compare x y
  | bool x, bool y => Ord.compare x.toNat y.toNat
  | int x, int y => Ord.compare x y
  | float x, float y => (x.compare? y).getD .eq
  | char x, char y => Ord.compare x.toNat y.toNat
  | text x, text y => compareText x y
  | binary x, binary y => compareBytes x y
  | stamp x, stamp y => List.compareLex Ord.compare (stampKey x) (stampKey y)
  | enumeration x, enumeration y => Ord.compare x y
  | list x, list y => compareItems x y
  | map x, map y => compareEntries x y
  | document x, document y => compareItems x y
  | foreign x, foreign y => compareText x y
  | x, y => Ord.compare x.rank y.rank

/-- The lexicographic order of lists. -/
def compareItems : List Datum → List Datum → Ordering
  | [], [] => .eq
  | [], _ :: _ => .lt
  | _ :: _, [] => .gt
  | x :: xs, y :: ys => (compare x y).then (compareItems xs ys)

/-- The lexicographic order of entries. -/
def compareEntries : List (String × Datum) → List (String × Datum) → Ordering
  | [], [] => .eq
  | [], _ :: _ => .lt
  | _ :: _, [] => .gt
  | (j, x) :: xs, (k, y) :: ys =>
    (compareText j k).then ((compare x y).then (compareEntries xs ys))
end

/-- Removes the elements that compare equal to the one after them. -/
def dropRepeated : List Datum → List Datum
  | x :: y :: rest =>
    if compare x y = .eq then dropRepeated (y :: rest) else x :: dropRepeated (y :: rest)
  | xs => xs

/-- The set of the given members. Of members that compare equal, a set in order holds the last one, and
a set by hashes the first. -/
def ofMembers (hashed : Bool) (members : List Datum) : Datum :=
  let sorted := sortBy compare members
  list (if hashed then (dropRepeated sorted.reverse).reverse else dropRepeated sorted)

mutual
/-- The dynamic value of a value of a type. -/
def toValue : Ty → Datum → Value
  | _, bool value => .bool value
  | _, int value => Value.ofInt value
  | _, float value => .float value
  | _, char value => .text (String.singleton value)
  | _, text value => .text value
  | _, binary bytes => .binary bytes
  | _, stamp value => .text value.text
  | .enumeration type, enumeration number => .enumeration ⟨type, number⟩
  | _, absent => .null
  | .option inner, present value => toValue inner value
  | .boxed inner, boxed value => toValue inner value
  | .list inner, list items => .list (toValues inner items)
  | .set _ inner, list items => .set (toValues inner items)
  | .map _ inner, map entries => .map (toFields inner entries)
  | _, dynamic value => value
  | _, stored value => .stored value
  | _, foreign value => .text value
  | _, _ => .null

/-- The dynamic values of items. -/
def toValues (inner : Ty) : List Datum → List Value
  | [] => []
  | item :: rest => toValue inner item :: toValues inner rest

/-- The dynamic values of entries. -/
def toFields (inner : Ty) : List (String × Datum) → List (String × Value)
  | [] => []
  | (key, value) :: rest => (key, toValue inner value) :: toFields inner rest
end

end Datum

end ItemMapper
