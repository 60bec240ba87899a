import ItemMapper.Schema.Document
import ItemMapper.Wire.Value

/-!
# Typed values as JSON

A value is written after its type: an optional value as nothing or an array of one item, a document as
an object of its members, moments and spans of time as counts of seconds and nanoseconds. Members that
an object leaves out hold what they hold at first.

## Main definitions

* `Datum.toJson`, `Datum.ofJson?`: values of a type.
* `Stamp.toJson`, `Stamp.ofJson?`: moments, dates, spans of time and identifiers.
-/

namespace ItemMapper

namespace Stamp

/-- How many nanoseconds a second has. -/
def nanosPerSecond : Int := 1000000000

/-- The tree of a time of day. -/
def clockToJson (c : Clock) : Json := .ofItems [.ofNat c.seconds, .ofNat c.nanos]

/-- The tree of a date. -/
def dateToJson (d : Date) : Json := .ofItems [.ofInt d.year, .ofNat d.month, .ofNat d.day]

/-- The tree of a value of a type. -/
def toJson (type : TextType) : Stamp → Json
  | .instant i =>
    if type = .localInstant then .ofItems [.ofInt i.seconds, .ofNat i.nanos, .ofInt i.offset]
    else .ofItems [.ofInt i.seconds, .ofNat i.nanos]
  | .date d => dateToJson d
  | .dateTime d => .ofItems [dateToJson d.date, clockToJson d.clock]
  | .clock c => clockToJson c
  | .span nanos =>
    let seconds := nanos.fdiv nanosPerSecond
    let rest := Json.ofInt (nanos.fmod nanosPerSecond)
    if type = .unsignedSpan then .ofItems [.string (toString seconds), rest]
    else .ofItems [.ofInt seconds, rest]
  | .uuid u => .string (String.ofList u.digits)

/-- The time of day of a tree. -/
def clockOfJson? : Json → Option Clock
  | .array [seconds, nanos] _ => do
    let seconds ← seconds.nat?
    let nanos ← nanos.nat?
    pure ⟨seconds, nanos⟩
  | _ => none

/-- The date of a tree. -/
def dateOfJson? : Json → Option Date
  | .array [year, month, day] _ => do
    let year ← year.int?
    let month ← month.nat?
    let day ← day.nat?
    pure ⟨year, month, day⟩
  | _ => none

/-- The moment of a tree, which may also say at what offset it is told. -/
def instantOfJson? : Json → Option Instant
  | .array (seconds :: nanos :: rest) _ => do
    let seconds ← seconds.int?
    let nanos ← nanos.nat?
    let offset ← match rest with
      | [] => some 0
      | offset :: _ => offset.int?
    pure ⟨seconds, nanos, offset⟩
  | _ => none

/-- The span of time of a tree. -/
def spanOfJson? : Json → Option Int
  | .array [seconds, nanos] _ => do
    let seconds ← seconds.int?
    let nanos ← nanos.int?
    pure (seconds * nanosPerSecond + nanos)
  | _ => none

/-- The value of a type that a tree stands for. -/
def ofJson? (type : TextType) (j : Json) : Option Stamp :=
  match type, j with
  | .instant, j | .localInstant, j => (instantOfJson? j).map .instant
  | .date, j => (dateOfJson? j).map .date
  | .clock, j => (clockOfJson? j).map .clock
  | .dateTime, .array [day, time] _ => do
    let day ← dateOfJson? day
    let time ← clockOfJson? time
    pure (.dateTime ⟨day, time⟩)
  | .signedSpan, j | .unsignedSpan, j => (spanOfJson? j).map .span
  | .uuid, .string digits => (Uuid.hexNumber? digits.toList).map fun value => .uuid ⟨value⟩
  | _, _ => none

end Stamp

/-- The type behind pointers, and how many there are. -/
def Ty.unboxed : Ty → Nat × Ty
  | .boxed inner => (inner.unboxed.1 + 1, inner.unboxed.2)
  | type => (0, type)

namespace Datum

/-- A value behind a number of pointers. -/
def behind (value : Datum) : Nat → Datum
  | 0 => value
  | n + 1 => .boxed (value.behind n)

mutual
/-- The tree of a value of a type, where documents have the given members. -/
def toJson (fields : DocumentId → List Field) (type : Ty) : Datum → Json
  | .bool b => .bool b
  | .int i => .string (toString i)
  | .float x =>
    match type with
    | .scalar (.float width) => x.toJson width.format
    | _ => x.toJson Floating.double
  | .char c => .string (String.singleton c)
  | .text s => .string s
  | .binary bytes => Bytes.toJson bytes
  | .stamp value =>
    match type with
    | .scalar (.textual kind) => value.toJson kind
    | _ => value.toJson .instant
  | .enumeration number =>
    match type with
    | .enumeration e => .ofOption .string (e.name? number)
    | _ => .ofInt number
  | .absent => .null
  | .present inner =>
    match type with
    | .option held => .ofItems [toJson fields held inner]
    | _ => .null
  | .boxed inner =>
    match type with
    | .boxed held => toJson fields held inner
    | _ => .null
  | .list items =>
    match type with
    | .list held | .set _ held => .ofItems (itemsToJson fields held items)
    | _ => .null
  | .map entries =>
    match type with
    | .map _ held => .ofMembers (entriesToJson fields held entries)
    | _ => .null
  | .document members =>
    match type with
    | .document id => .ofMembers (membersToJson fields (fields id) members)
    | _ => .null
  | .variant name members =>
    match type with
    | .oneOf _ variants =>
      let declared := ((variants.lookup name).map fields).getD []
      .tagged name (.ofMembers (membersToJson fields declared members))
    | _ => .null
  | .dynamic value => value.toJson
  | .stored value => value.toJson
  | .foreign s => .string s

/-- The trees of items. -/
def itemsToJson (fields : DocumentId → List Field) (held : Ty) : List Datum → List Json
  | [] => []
  | item :: rest => toJson fields held item :: itemsToJson fields held rest

/-- The trees of entries. -/
def entriesToJson (fields : DocumentId → List Field) (held : Ty) :
    List (String × Datum) → List (String × Json)
  | [] => []
  | (key, value) :: rest => (key, toJson fields held value) :: entriesToJson fields held rest

/-- The trees of the members of a document. -/
def membersToJson (fields : DocumentId → List Field) (declared : List Field) :
    List Datum → List (String × Json)
  | [] => []
  | value :: rest =>
    match declared with
    | [] => []
    | f :: others => (f.name, toJson fields f.type value) :: membersToJson fields others rest
end

/-- The members of a document, of which some are given by name. -/
def assemble (declared : List Field) (given : List (String × Datum)) : List Datum :=
  declared.map fun f => (given.lookup f.name).getD f.initial

/-- The value of a type that a tree without parts stands for. -/
def simpleOfJson? (type : Ty) (j : Json) : Option Datum :=
  match type, j with
  | .scalar .bool, j => j.truth?.map .bool
  | .scalar (.int _), j => j.int?.map .int
  | .scalar (.float width), j => (Floating.ofJson? width.format j).map .float
  | .scalar .char, .string s => s.toList.head?.map .char
  | .scalar .text, .string s => some (.text s)
  | .scalar .binary, j => (Bytes.ofJson? j).map .binary
  | .scalar (.textual kind), j => (Stamp.ofJson? kind j).map .stamp
  | .enumeration e, .string name => (e.variants.lookup name).map .enumeration
  | .option _, .null => some .absent
  | .stored, j => (AttributeValue.ofJson? j).map .stored
  | .foreign _, .string s => some (.foreign s)
  | _, _ => none

mutual
/-- The value of a type that a tree stands for. -/
def ofJson? (fields : DocumentId → List Field) (extra : String → Json → Option Value) (type : Ty) :
    Json → Option Datum
  | .array items closed =>
    let (pointers, type) := type.unboxed
    let value : Option Datum := match type, items with
      | .option inner, [item] => (ofJson? fields extra inner item).map .present
      | .list inner, items => (itemsOfJson? fields extra inner items).map .list
      | .set hashed inner, items =>
        (itemsOfJson? fields extra inner items).map (.ofMembers hashed)
      | type, items => simpleOfJson? type (.array items closed)
    value.map (·.behind pointers)
  | .object members ending =>
    let (pointers, type) := type.unboxed
    let value : Option Datum := match type, members with
      | .map _ inner, members =>
        (entriesOfJson? fields extra inner members).map fun entries =>
          .map (Fields.ofList entries)
      | .document id, members =>
        (membersOfJson? fields extra (fields id) members).map fun given =>
          .document (assemble (fields id) given)
      | .oneOf _ variants, [(name, .object members _)] =>
        let declared := ((variants.lookup name).map fields).getD []
        (membersOfJson? fields extra declared members).map fun given =>
          .variant name (assemble declared given)
      | .dynamic, members => (Value.ofJson? extra (.object members ending)).map .dynamic
      | type, members => simpleOfJson? type (.object members ending)
    value.map (·.behind pointers)
  | leaf =>
    let (pointers, type) := type.unboxed
    (simpleOfJson? type leaf).map (·.behind pointers)

/-- The values of items. -/
def itemsOfJson? (fields : DocumentId → List Field) (extra : String → Json → Option Value)
    (inner : Ty) : List Json → Option (List Datum)
  | [] => some []
  | item :: rest => do
    let value ← ofJson? fields extra inner item
    let values ← itemsOfJson? fields extra inner rest
    pure (value :: values)

/-- The values of entries. -/
def entriesOfJson? (fields : DocumentId → List Field) (extra : String → Json → Option Value)
    (inner : Ty) : List (String × Json) → Option (List (String × Datum))
  | [] => some []
  | (key, member) :: rest => do
    let value ← ofJson? fields extra inner member
    let values ← entriesOfJson? fields extra inner rest
    pure ((key, value) :: values)

/-- The values of the members of a document that are given; other members are passed over. -/
def membersOfJson? (fields : DocumentId → List Field) (extra : String → Json → Option Value)
    (declared : List Field) : List (String × Json) → Option (List (String × Datum))
  | [] => some []
  | (name, member) :: rest =>
    match declared.find? (·.name == name) with
    | none => membersOfJson? fields extra declared rest
    | some f => do
      let value ← ofJson? fields extra f.type member
      let values ← membersOfJson? fields extra declared rest
      pure ((name, value) :: values)
end

end Datum

end ItemMapper
