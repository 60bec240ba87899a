import ItemMapper.Attribute.Display
import ItemMapper.Number.Shortest
import ItemMapper.Value.Enumeration

/-!
# Dynamic values

What the constants of expressions are, and what an attribute value becomes when no type is known
for it.

## Main definitions

* `Value`: the values.
* `Value.equals`: the program's own equality, by which not-a-number differs from itself.
* `Value.ofAttribute`: the dynamic value of an attribute value.
-/

namespace ItemMapper

/-- A dynamic value. -/
inductive Value where
  | null
  | bool (value : Bool)
  /-- A 64-bit integer. -/
  | int (value : Int)
  | float (value : Floating)
  /-- A number that is kept as decimal text. -/
  | number (digits : String)
  | text (value : String)
  | binary (bytes : Bytes)
  | list (items : List Value)
  | set (members : List Value)
  | map (fields : List (String × Value))
  | enumeration (value : EnumValue)
  /-- An attribute value as it stands. -/
  | stored (value : AttributeValue)
deriving Repr, Inhabited

namespace Value

/-- The name of the kind of value. -/
def kindName : Value → String
  | .null => "null"
  | .bool _ => "bool"
  | .int _ => "int"
  | .float _ => "float"
  | .number _ => "number"
  | .text _ => "string"
  | .binary _ => "binary"
  | .list _ => "list"
  | .set _ => "set"
  | .map _ => "map"
  | .enumeration _ => "enum"
  | .stored _ => "attribute"

/-- The truth value, of one. -/
def asBool? : Value → Option Bool
  | .bool value => some value
  | .stored (.bool value) => some value
  | _ => none

/-- Whether the value is null. -/
def isNull : Value → Bool
  | .null | .stored (.null _) => true
  | _ => false

mutual
/-- Equality: numbers of the same kind by value, sets in order, attribute values up to the order
inside their sets. -/
def equals : Value → Value → Bool
  | .null, .null => true
  | .bool x, .bool y => x == y
  | .int x, .int y => x == y
  | .float x, .float y => x.equals y
  | .number x, .number y => x == y
  | .text x, .text y => x == y
  | .binary x, .binary y => x == y
  | .list x, .list y => equalItems x y
  | .set x, .set y => equalItems x y
  | .map x, .map y => equalFields x y
  | .enumeration x, .enumeration y => x == y
  | .stored x, .stored y => x.same y
  | _, _ => false

/-- Equality of lists, item by item. -/
def equalItems : List Value → List Value → Bool
  | [], [] => true
  | x :: xs, y :: ys => equals x y && equalItems xs ys
  | _, _ => false

/-- Equality of maps, field by field. -/
def equalFields : List (String × Value) → List (String × Value) → Bool
  | [], [] => true
  | (j, x) :: xs, (k, y) :: ys => j == k && equals x y && equalFields xs ys
  | _, _ => false
end

/-- The value of a decimal text: an integer where it fits into 64 bits, else the text. -/
def ofDigits (digits : String) : Value :=
  match readInt64? (Unicode.trim digits) with
  | some i => .int i
  | none => .number digits

/-- The value of an integer: itself where it fits into 64 bits, else its decimal text. -/
def ofInt (i : Int) : Value :=
  if -(2 ^ 63) ≤ i ∧ i < 2 ^ 63 then .int i else .number (toString i)

mutual
/-- The dynamic value of an attribute value. -/
def ofAttribute : AttributeValue → Value
  | .null _ => .null
  | .bool value => .bool value
  | .text value => .text value
  | .number digits => ofDigits digits
  | .binary bytes => .binary bytes
  | .textSet members => .set (members.map .text)
  | .numberSet members => .set (members.map ofDigits)
  | .binarySet members => .set (members.map .binary)
  | .list items => .list (ofItems items)
  | .map fields => .map (ofFields fields)

/-- The dynamic values of the items of a list. -/
def ofItems : List AttributeValue → List Value
  | [] => []
  | item :: rest => ofAttribute item :: ofItems rest

/-- The dynamic values of the fields of a map. -/
def ofFields : List (String × AttributeValue) → List (String × Value)
  | [] => []
  | (key, value) :: rest => (key, ofAttribute value) :: ofFields rest
end

mutual
/-- The text of a value: texts are quoted, sets stand between braces, lists between brackets. -/
def display : Value → String
  | .null => "null"
  | .bool value => toString value
  | .int value => toString value
  | .float value => Floating.print Floating.double value
  | .number digits => digits
  | .text value => quoted value
  | .binary bytes => s!"<{bytes.length} bytes>"
  | .list items => "[" ++ ", ".intercalate (displayItems items) ++ "]"
  | .set members => "\x7b" ++ ", ".intercalate (displayItems members) ++ "\x7d"
  | .map fields => "\x7b" ++ ", ".intercalate (displayFields fields) ++ "\x7d"
  | .enumeration value => value.name?.getD (toString value.number)
  | .stored value => value.display

/-- The texts of the items of a list. -/
def displayItems : List Value → List String
  | [] => []
  | item :: rest => display item :: displayItems rest

/-- The texts of the fields of a map. -/
def displayFields : List (String × Value) → List String
  | [] => []
  | (key, value) :: rest => (quoted key ++ ": " ++ display value) :: displayFields rest
end

end Value

end ItemMapper
