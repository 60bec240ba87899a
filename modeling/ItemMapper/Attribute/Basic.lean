import ItemMapper.Order.Fields
import ItemMapper.Order.Sorting

/-!
# Attribute values

The values that the store keeps: texts, numbers as decimal text, byte strings, sets of these,
truth values, null, lists and maps.

## Main definitions

* `AttributeValue`: the values.
* `AttributeValue.tag`: the name of a value's type on the wire.
* `AttributeValue.same`: equality that ignores the order inside sets.
* `Item`: the fields of a stored record.
-/

namespace ItemMapper

/-- A single typed value as the store keeps it. -/
inductive AttributeValue where
  | text (value : String)
  /-- A number, as decimal text. -/
  | number (digits : String)
  | binary (bytes : Bytes)
  /-- A set of texts, in the order in which it is held. -/
  | textSet (members : List String)
  /-- A set of numbers, each as decimal text. -/
  | numberSet (members : List String)
  | binarySet (members : List Bytes)
  | bool (value : Bool)
  /-- Null; the flag is true for the ordinary null value. -/
  | null (flag : Bool)
  | list (items : List AttributeValue)
  /-- A map, its keys in ascending order. -/
  | map (fields : List (String × AttributeValue))
deriving Repr, Inhabited

/-- The attributes of a stored record by name. -/
abbrev Item := Fields AttributeValue

namespace AttributeValue

mutual
/-- Structural equality as a test, the order inside sets included. -/
def identical : AttributeValue → AttributeValue → Bool
  | .text x, .text y => x == y
  | .number x, .number y => x == y
  | .binary x, .binary y => x == y
  | .textSet x, .textSet y => x == y
  | .numberSet x, .numberSet y => x == y
  | .binarySet x, .binarySet y => x == y
  | .bool x, .bool y => x == y
  | .null x, .null y => x == y
  | .list x, .list y => identicalItems x y
  | .map x, .map y => identicalFields x y
  | _, _ => false

/-- Structural equality of lists of values as a test. -/
def identicalItems : List AttributeValue → List AttributeValue → Bool
  | [], [] => true
  | x :: xs, y :: ys => identical x y && identicalItems xs ys
  | _, _ => false

/-- Structural equality of fields as a test. -/
def identicalFields : List (String × AttributeValue) → List (String × AttributeValue) → Bool
  | [], [] => true
  | (j, x) :: xs, (k, y) :: ys => j == k && identical x y && identicalFields xs ys
  | _, _ => false
end

mutual
theorem identical_iff (x y : AttributeValue) : identical x y = true ↔ x = y := by
  match x, y with
  | .text x, y => cases y <;> simp [identical]
  | .number x, y => cases y <;> simp [identical]
  | .binary x, y => cases y <;> simp [identical]
  | .textSet x, y => cases y <;> simp [identical]
  | .numberSet x, y => cases y <;> simp [identical]
  | .binarySet x, y => cases y <;> simp [identical]
  | .bool x, y => cases y <;> simp [identical]
  | .null x, y => cases y <;> simp [identical]
  | .list x, y => cases y <;> simp [identical, identicalItems_iff x]
  | .map x, y => cases y <;> simp [identical, identicalFields_iff x]

theorem identicalItems_iff (x y : List AttributeValue) : identicalItems x y = true ↔ x = y := by
  match x, y with
  | [], y => cases y <;> simp [identicalItems]
  | x :: xs, y => cases y <;> simp [identicalItems, identical_iff x, identicalItems_iff xs]

theorem identicalFields_iff (x y : List (String × AttributeValue)) :
    identicalFields x y = true ↔ x = y := by
  match x, y with
  | [], y => cases y <;> simp [identicalFields]
  | (j, x) :: xs, y =>
    cases y <;> simp [identicalFields, identical_iff x, identicalFields_iff xs, Prod.ext_iff]
end

instance : DecidableEq AttributeValue := fun x y =>
  decidable_of_iff (identical x y = true) (identical_iff x y)

/-- The name of the value's type on the wire. -/
def tag : AttributeValue → String
  | .text _ => "S"
  | .number _ => "N"
  | .binary _ => "B"
  | .textSet _ => "SS"
  | .numberSet _ => "NS"
  | .binarySet _ => "BS"
  | .bool _ => "BOOL"
  | .null _ => "NULL"
  | .list _ => "L"
  | .map _ => "M"

/-- Whether the value is the ordinary null value. -/
def isNull : AttributeValue → Bool
  | .null true => true
  | _ => false

/-- Whether the value is null, whatever its flag. -/
def isAnyNull : AttributeValue → Bool
  | .null _ => true
  | _ => false

/-- Whether the value is one of the three kinds of set. -/
def isSet : AttributeValue → Bool
  | .textSet _ | .numberSet _ | .binarySet _ => true
  | _ => false

/-- Whether the value is a list or a map without entries. -/
def isEmptyContainer : AttributeValue → Bool
  | .list [] | .map [] => true
  | _ => false

/-- The text, of a text. -/
def asText? : AttributeValue → Option String
  | .text value => some value
  | _ => none

/-- The decimal text, of a number. -/
def asNumber? : AttributeValue → Option String
  | .number digits => some digits
  | _ => none

/-- The bytes, of a byte string. -/
def asBinary? : AttributeValue → Option Bytes
  | .binary bytes => some bytes
  | _ => none

/-- The fields, of a map. -/
def asMap? : AttributeValue → Option Item
  | .map fields => some fields
  | _ => none

/-- The items, of a list. -/
def asList? : AttributeValue → Option (List AttributeValue)
  | .list items => some items
  | _ => none

/-- The truth value, of one. -/
def asBool? : AttributeValue → Option Bool
  | .bool value => some value
  | _ => none

mutual
/-- Equality that ignores the order inside sets; members count as often as they occur. -/
def same : AttributeValue → AttributeValue → Bool
  | .text x, .text y => x == y
  | .number x, .number y => x == y
  | .binary x, .binary y => x == y
  | .textSet x, .textSet y => sortBy compareText x == sortBy compareText y
  | .numberSet x, .numberSet y => sortBy compareText x == sortBy compareText y
  | .binarySet x, .binarySet y => sortBy compareBytes x == sortBy compareBytes y
  | .bool x, .bool y => x == y
  | .null x, .null y => x == y
  | .list x, .list y => sameItems x y
  | .map x, .map y => sameFields x y
  | _, _ => false

/-- Lists are the same when their items are, one by one. -/
def sameItems : List AttributeValue → List AttributeValue → Bool
  | [], [] => true
  | x :: xs, y :: ys => same x y && sameItems xs ys
  | _, _ => false

/-- Maps are the same when they have the same keys and the same values under them. -/
def sameFields : List (String × AttributeValue) → List (String × AttributeValue) → Bool
  | [], [] => true
  | (j, x) :: xs, (k, y) :: ys => j == k && same x y && sameFields xs ys
  | _, _ => false
end

end AttributeValue

end ItemMapper
