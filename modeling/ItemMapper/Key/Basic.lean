import ItemMapper.Attribute.Basic
import ItemMapper.Bytes.Base64
import ItemMapper.Bytes.Percent
import ItemMapper.Bytes.Utf8
import ItemMapper.Error
import ItemMapper.Number.Order
import ItemMapper.Table.Definition

/-!
# Keys

A key consists of a partition value and perhaps a sort value, each a text, a number or a byte string.
Keys are ordered as the store orders them, and have a text in which the two values stand with a vertical
bar between them, byte strings as Base64 and everything unsafe as percent escapes.

## Main definitions

* `KeyValue`, `PrimaryKey`: the values and keys, with their orders.
* `PrimaryKey.text`: the text of a key.
-/

namespace ItemMapper

/-- One value of a key. -/
inductive KeyValue where
  | text (value : String)
  | number (digits : String)
  | binary (bytes : Bytes)
deriving DecidableEq, Repr, Inhabited

namespace KeyValue

/-- The type of the value. -/
def scalarType : KeyValue → ScalarType
  | text _ => .text
  | number _ => .number
  | binary _ => .binary

/-- The place of the value's type in the order of values. -/
def rank : KeyValue → Nat
  | text _ => 0
  | number _ => 1
  | binary _ => 2

/-- The order of values: texts, then numbers, then byte strings. -/
def compare : KeyValue → KeyValue → Ordering
  | text x, text y => compareText x y
  | number x, number y => compareNumberText x y
  | binary x, binary y => compareBytes x y
  | x, y => Ord.compare x.rank y.rank

/-- The text of the value. -/
def display : KeyValue → String
  | text value => value
  | number digits => digits
  | binary bytes => Base64.encode bytes

/-- The value of a type that a text stands for, or why it stands for none. -/
def ofText (type : ScalarType) (source : String) : Except String KeyValue :=
  match type with
  | .text => .ok (text source)
  | .number =>
    let trimmed := Unicode.trim source
    match Floating.readDouble? trimmed with
    | some value =>
      if value.isFinite then .ok (.number trimmed) else .error s!"'{source}' is not a number"
    | none => .error s!"'{source}' is not a number"
  | .binary =>
    match Base64.decode source with
    | .ok bytes => .ok (binary bytes)
    | .error e => .error s!"invalid base64: {e.message}"

/-- The attribute value of the value. -/
def toAttribute : KeyValue → AttributeValue
  | text value => .text value
  | number digits => .number digits
  | binary bytes => .binary bytes

/-- The value of an attribute value. -/
def ofAttribute : AttributeValue → Except Error KeyValue
  | .text value => .ok (text value)
  | .number digits => .ok (number digits)
  | .binary bytes => .ok (binary bytes)
  | other => .error (Error.typeMismatch "key value" other)

end KeyValue

/-- A key of a record. -/
structure PrimaryKey where
  partition : KeyValue
  sort : Option KeyValue
deriving DecidableEq, Repr, Inhabited

namespace PrimaryKey

/-- The order of optional values, in which nothing comes first. -/
def compareSort : Option KeyValue → Option KeyValue → Ordering
  | none, none => .eq
  | none, some _ => .lt
  | some _, none => .gt
  | some x, some y => x.compare y

/-- The order of keys. -/
def compare (x y : PrimaryKey) : Ordering :=
  (x.partition.compare y.partition).then (compareSort x.sort y.sort)

/-- The escaped text of one value. -/
def component (value : KeyValue) : String := Percent.encode (utf8 value.display)

/-- The text of a key. -/
def text (key : PrimaryKey) : String :=
  component key.partition ++
    match key.sort with
    | some sort => "|" ++ component sort
    | none => ""

end PrimaryKey

end ItemMapper
