import ItemMapper.Attribute.Basic
import ItemMapper.Wire.Basic

/-!
# Attribute values on the wire

An attribute value is an object with one member, whose name is the tag of the value's type. Byte
strings travel as Base64 text and numbers as decimal text.

## Main definitions

* `AttributeValue.toJson`: the wire form.
* `AttributeValue.ofJson`: reads a wire form.
* `Item.toJson`, `Item.ofJson`: the same for the attributes of a record.
-/

namespace ItemMapper

namespace AttributeValue

/-- The tags, in the order in which a refusal lists them. -/
def tags : List String := ["NULL", "BOOL", "S", "N", "B", "SS", "NS", "BS", "L", "M"]

/-- An array of texts. -/
def jsonTexts (texts : List String) : Json := .ofItems (texts.map Json.string)

mutual
/-- The wire form of a value. -/
def toJson : AttributeValue → Json
  | .text value => .tagged "S" (.string value)
  | .number digits => .tagged "N" (.string digits)
  | .binary bytes => .tagged "B" (.string (Base64.encode bytes))
  | .textSet members => .tagged "SS" (jsonTexts members)
  | .numberSet members => .tagged "NS" (jsonTexts members)
  | .binarySet members => .tagged "BS" (jsonTexts (members.map Base64.encode))
  | .bool value => .tagged "BOOL" (.bool value)
  | .null flag => .tagged "NULL" (.bool flag)
  | .list items => .tagged "L" (.ofItems (itemsToJson items))
  | .map fields => .tagged "M" (.ofMembers (fieldsToJson fields))

/-- The wire forms of the items of a list. -/
def itemsToJson : List AttributeValue → List Json
  | [] => []
  | item :: rest => item.toJson :: itemsToJson rest

/-- The wire forms of the values of a map. -/
def fieldsToJson : List (String × AttributeValue) → List (String × Json)
  | [] => []
  | (key, value) :: rest => (key, value.toJson) :: fieldsToJson rest
end

/-- Reads the bytes of a Base64 text. -/
def readBase64 (source : String) : Except Wire.Error Bytes :=
  (Base64.decode source).mapError .base64

/-- Reads the bytes of every Base64 text. -/
def readBase64All : List String → Except Wire.Error (List Bytes)
  | [] => .ok []
  | source :: rest => do
    let bytes ← readBase64 source
    let others ← readBase64All rest
    pure (bytes :: others)

/-- What is expected where a value should stand. -/
def expectation : String := "an AttributeValue object with exactly one type key"

mutual
/-- Reads the wire form of a value. -/
def ofJson : Nat → Json → Except Wire.Error AttributeValue
  | 0, .object _ _ | _, .unkeyed _ => .error .malformed
  | _ + 1, .object [] ending => .error (if ending.isClosed then .noTag else .malformed)
  | depth + 1, .object ((tag, payload) :: rest) ending => do
    let value ← ofPayload depth tag payload
    match rest with
    | (extra, _) :: _ => .error (.secondTag extra)
    | [] => if ending.isClosed then .ok value else .error .malformed
  | _, j => .error (Wire.mismatch expectation j)

/-- Reads what stands under a tag. -/
def ofPayload (depth : Nat) (tag : String) (payload : Json) : Except Wire.Error AttributeValue :=
  match tag with
  | "S" => (Wire.text depth payload).map .text
  | "N" => (Wire.text depth payload).map .number
  | "B" => do
    let source ← Wire.text depth payload
    (readBase64 source).map .binary
  | "SS" => (Wire.sequence Wire.text depth payload).map .textSet
  | "NS" => (Wire.sequence Wire.text depth payload).map .numberSet
  | "BS" => do
    let sources ← Wire.sequence Wire.text depth payload
    (readBase64All sources).map .binarySet
  | "BOOL" => (Wire.truth depth payload).map .bool
  | "NULL" => (Wire.truth depth payload).map .null
  | "L" =>
    match depth, payload with
    | 0, .array _ _ => .error .malformed
    | depth + 1, .array items closed => (ofItems depth closed items).map .list
    | _, j => .error (Wire.mismatch "a sequence" j)
  | "M" =>
    match depth, payload with
    | 0, .object _ _ | _, .unkeyed _ => .error .malformed
    | depth + 1, .object members ending =>
      (ofMembers depth ending.isClosed members).map fun pairs => .map (Fields.ofList pairs)
    | _, j => .error (Wire.mismatch "a map" j)
  | other => .error (.unknownField other tags)

/-- Reads the items of a list. -/
def ofItems (depth : Nat) (closed : Bool) : List Json → Except Wire.Error (List AttributeValue)
  | [] => if closed then .ok [] else .error .malformed
  | item :: rest => do
    let value ← ofJson depth item
    let values ← ofItems depth closed rest
    pure (value :: values)

/-- Reads the members of a map, in the order of the text. -/
def ofMembers (depth : Nat) (closed : Bool) :
    List (String × Json) → Except Wire.Error (List (String × AttributeValue))
  | [] => if closed then .ok [] else .error .malformed
  | (key, item) :: rest => do
    let value ← ofJson depth item
    let values ← ofMembers depth closed rest
    pure ((key, value) :: values)
end

end AttributeValue

namespace Item

/-- The wire form of the attributes of a record. -/
def toJson (item : Item) : Json := .ofMembers (AttributeValue.fieldsToJson item)

/-- Reads the attributes of a record; of two under one name the later one stays. -/
def ofJson : Wire.Reader Item := fun depth j =>
  match depth, j with
  | 0, .object _ _ | _, .unkeyed _ => .error .malformed
  | depth + 1, .object members ending =>
    (AttributeValue.ofMembers depth ending.isClosed members).map Fields.ofList
  | _, j => .error (Wire.mismatch "a map" j)

end Item

end ItemMapper
