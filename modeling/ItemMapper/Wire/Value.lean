import ItemMapper.Json.Access
import ItemMapper.Value.Basic
import ItemMapper.Wire.AttributeValue

/-!
# Dynamic values as JSON

A dynamic value is an object of one member, named for the kind of the value. Integers and floats are
texts, so that nothing is lost, and byte strings are Base64.

## Main definitions

* `EnumType.toJson`, `EnumType.ofJson?`: enumerations.
* `Value.toJson`, `Value.ofJson?`: dynamic values.
-/

namespace ItemMapper

/-- The tree of a byte string. -/
def Bytes.toJson (bytes : Bytes) : Json := .string (Base64.encode bytes)

/-- The byte string of a tree. -/
def Bytes.ofJson? (j : Json) : Option Bytes :=
  j.text?.bind fun text => (Base64.decode text).toOption

namespace Floating

/-- The tree of a floating-point number of a format. -/
def toJson (f : Format) (x : Floating) : Json := .string (print f x)

/-- The floating-point number of a tree. -/
def ofJson? (f : Format) (j : Json) : Option Floating := j.text?.bind (read? f)

end Floating

/-- The attribute value of a tree. -/
def AttributeValue.ofJson? (j : Json) : Option AttributeValue :=
  (AttributeValue.ofJson Wire.depthLimit j).toOption

namespace EnumType

/-- The tree of the variants of an enumeration. -/
def variantsToJson (variants : List (String × Int)) : Json :=
  .ofItems (variants.map fun (name, number) => .ofItems [.string name, .ofInt number])

/-- A variant of a tree. -/
def variantOfJson? : Json → Option (String × Int)
  | .array [.string name, number] _ => number.int?.map fun number => (name, number)
  | _ => none

/-- The variants of a tree. -/
def variantsOfJson? (j : Json) : Option (List (String × Int)) :=
  j.items?.bind fun items => items.mapM variantOfJson?

/-- The tree of an enumeration. -/
def toJson (e : EnumType) : Json :=
  .ofMembers [("type", .string e.typeName), ("variants", variantsToJson e.variants)]

/-- The enumeration of a tree. -/
def ofJson? (j : Json) : Option EnumType := do
  let typeName ← j.textField? "type"
  let variants ← (j.field? "variants").bind variantsOfJson?
  pure ⟨typeName, variants⟩

end EnumType

/-- The variant of a tree. -/
def EnumValue.ofJson? (j : Json) : Option EnumValue := do
  let type ← EnumType.ofJson? j
  let number ← (j.field? "value").bind Json.int?
  pure ⟨type, number⟩

/-- The tree of a variant. -/
def EnumValue.toJson (e : EnumValue) : Json :=
  .ofMembers
    [("type", .string e.type.typeName), ("variants", EnumType.variantsToJson e.type.variants),
     ("value", .ofInt e.number)]

namespace Value

mutual
/-- The tree of a dynamic value. -/
def toJson : Value → Json
  | .null => .tagged "null" (.bool true)
  | .bool b => .tagged "bool" (.bool b)
  | .int i => .tagged "int" (.string (toString i))
  | .float x => .tagged "float" (x.toJson Floating.double)
  | .number digits => .tagged "number" (.string digits)
  | .text s => .tagged "string" (.string s)
  | .binary bytes => .tagged "binary" (Bytes.toJson bytes)
  | .list items => .tagged "list" (.ofItems (itemsToJson items))
  | .set members => .tagged "set" (.ofItems (itemsToJson members))
  | .map fields => .tagged "map" (.ofMembers (fieldsToJson fields))
  | .enumeration e => .tagged "enum" e.toJson
  | .stored v => .tagged "attr" v.toJson

/-- The trees of the items of a list. -/
def itemsToJson : List Value → List Json
  | [] => []
  | item :: rest => toJson item :: itemsToJson rest

/-- The trees of the fields of a map. -/
def fieldsToJson : List (String × Value) → List (String × Json)
  | [] => []
  | (key, value) :: rest => (key, toJson value) :: fieldsToJson rest
end

/-- The value of a tree that holds no other values, under the name of its kind; other names are left
to the application. -/
def simpleOfJson? (extra : String → Json → Option Value) (kind : String) (payload : Json) :
    Option Value :=
  match kind with
  | "null" => some .null
  | "bool" => payload.truth?.map .bool
  | "int" => payload.int?.map .int
  | "float" => (Floating.ofJson? Floating.double payload).map .float
  | "number" => payload.text?.map .number
  | "string" => payload.text?.map .text
  | "binary" => (Bytes.ofJson? payload).map .binary
  | "enum" => (EnumValue.ofJson? payload).map .enumeration
  | "attr" => (AttributeValue.ofJson? payload).map .stored
  | kind => extra kind payload

mutual
/-- The dynamic value of a tree; kinds that are not known here are left to the application. -/
def ofJson? (extra : String → Json → Option Value) : Json → Option Value
  | .object [(kind, .array items closed)] _ =>
    if kind = "list" then (itemsOfJson? extra items).map .list
    else if kind = "set" then (itemsOfJson? extra items).map .set
    else extra kind (.array items closed)
  | .object [(kind, .object members ending)] _ =>
    if kind = "map" then
      (fieldsOfJson? extra members).map fun fields => .map (Fields.ofList fields)
    else simpleOfJson? extra kind (.object members ending)
  | .object [(kind, payload)] _ => simpleOfJson? extra kind payload
  | _ => none

/-- The values of the items of an array. -/
def itemsOfJson? (extra : String → Json → Option Value) : List Json → Option (List Value)
  | [] => some []
  | item :: rest => do
    let value ← ofJson? extra item
    let values ← itemsOfJson? extra rest
    pure (value :: values)

/-- The values of the members of an object. -/
def fieldsOfJson? (extra : String → Json → Option Value) :
    List (String × Json) → Option (List (String × Value))
  | [] => some []
  | (key, member) :: rest => do
    let value ← ofJson? extra member
    let values ← fieldsOfJson? extra rest
    pure ((key, value) :: values)
end

end Value

end ItemMapper
