import ItemMapper.Bytes.Basic
import ItemMapper.Number.Shortest
import ItemMapper.Time.Span
import ItemMapper.Time.Uuid

/-!
# Scalar types

The types of values that are stored as one text, number, byte string or truth value.

## Main definitions

* `Scalar`: the types.
* `Stamp`: the values of the types that are stored as formatted text, with `Stamp.text` and
  `TextType.read?`.
* `IntType.read?`: integers from decimal text.
-/

namespace ItemMapper

/-- An integer type: whether it has negative values, and its bits. A machine word has 64 bits. -/
inductive IntType where
  | int8
  | int16
  | int32
  | int64
  | int128
  | intWord
  | nat8
  | nat16
  | nat32
  | nat64
  | nat128
  | natWord
deriving DecidableEq, Repr, Inhabited

namespace IntType

/-- Whether the type has negative values. -/
def isSigned : IntType → Bool
  | int8 | int16 | int32 | int64 | int128 | intWord => true
  | _ => false

/-- How many bits the type has. -/
def bits : IntType → Nat
  | int8 | nat8 => 8
  | int16 | nat16 => 16
  | int32 | nat32 => 32
  | int64 | nat64 | intWord | natWord => 64
  | int128 | nat128 => 128

/-- The least value. -/
def low (t : IntType) : Int := if t.isSigned then -(2 ^ (t.bits - 1)) else 0

/-- The greatest value. -/
def high (t : IntType) : Int := if t.isSigned then 2 ^ (t.bits - 1) - 1 else 2 ^ t.bits - 1

/-- The value as one of the type, if it is within the bounds. -/
def check? (t : IntType) (value : Int) : Option Int :=
  if t.low ≤ value ∧ value ≤ t.high then some value else none

/-- The value of a run of digits with a sign that the type allows. -/
def readDigits? (t : IntType) (text : String) : Option Int :=
  let value := if t.isSigned then readInt? text else (readNat? text).map Int.ofNat
  value.bind t.check?

/-- The value nearest to an integer among those of a signed type with 128 bits. -/
def saturate128 (value : Int) : Int := max (-(2 ^ 127)) (min value (2 ^ 127 - 1))

/-- The value of a decimal text, which may also be a floating-point number that is whole. -/
def read? (t : IntType) (text : String) : Option Int :=
  let trimmed := Unicode.trim text
  match t.readDigits? trimmed with
  | some value => some value
  | none => do
    let number ← Floating.readDouble? trimmed
    let value ← number.toInt?
    t.check? (saturate128 value)

end IntType

/-- The types that are stored as formatted text. -/
inductive TextType where
  /-- Moments told at Greenwich. -/
  | instant
  /-- Moments told at an offset from Greenwich. -/
  | localInstant
  | date
  | dateTime
  | clock
  /-- Spans of time of either sign. -/
  | signedSpan
  | unsignedSpan
  | uuid
deriving DecidableEq, Repr, Inhabited

/-- A value that is stored as formatted text. -/
inductive Stamp where
  | instant (value : Instant)
  | date (value : Date)
  | dateTime (value : DateTime)
  | clock (value : Clock)
  /-- A span of time in nanoseconds. -/
  | span (nanos : Int)
  | uuid (value : Uuid)
deriving DecidableEq, Repr, Inhabited

/-- The text of a value. -/
def Stamp.text : Stamp → String
  | instant value => value.text
  | date value => value.text
  | dateTime value => value.text
  | clock value => value.text
  | span nanos => Span.text nanos
  | uuid value => value.text

/-- Equality, by which moments are equal wherever they are told. -/
def Stamp.same : Stamp → Stamp → Bool
  | instant x, instant y => x.sameMoment y
  | x, y => x == y

namespace TextType

/-- The value of a text. -/
def read? (t : TextType) (text : String) : Option Stamp :=
  match t with
  | instant => (Instant.read? text).map fun i => .instant i.atGreenwich
  | localInstant => (Instant.read? text).map .instant
  | date => (Date.read? text).map .date
  | dateTime => (DateTime.read? text).map .dateTime
  | clock => (Clock.read? text).map .clock
  | signedSpan => (Span.readSigned? text).map .span
  | unsignedSpan => (Span.readUnsigned? text).map fun n => .span n
  | uuid => (Uuid.read? text).map .uuid

/-- The default of the type: the start of 1970, nothing, or zeros. -/
def initial : TextType → Stamp
  | instant | localInstant => .instant .epoch
  | date => .date .epoch
  | dateTime => .dateTime .epoch
  | clock => .clock .midnight
  | signedSpan | unsignedSpan => .span 0
  | uuid => .uuid .zero

end TextType

/-- The width of a floating-point type. -/
inductive FloatType where
  | single
  | double
deriving DecidableEq, Repr, Inhabited

/-- The format of a floating-point type. -/
def FloatType.format : FloatType → Floating.Format
  | single => Floating.single
  | double => Floating.double

/-- The scalar types. -/
inductive Scalar where
  | bool
  | int (type : IntType)
  | float (type : FloatType)
  | char
  | text
  | binary
  | textual (type : TextType)
deriving DecidableEq, Repr, Inhabited

end ItemMapper
