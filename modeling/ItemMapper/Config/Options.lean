import ItemMapper.Config.Naming

/-!
# Codec options

The settings that can be written down: what becomes of defaults and nulls, how names are derived,
how enumerations are stored, and which attribute tells the variants of a polymorphic value apart.

## Main definitions

* `CodecOptions`: the settings.
* `CodecOptions.ofEnvironment`: the settings that environment variables give.
-/

namespace ItemMapper

/-- How the variant of an enumeration is stored. -/
inductive EnumEncoding where
  | name
  | number
deriving DecidableEq, Repr, Inhabited

namespace EnumEncoding

/-- An encoding from the text of a setting, or a complaint about the text. -/
def ofText (text : String) : Except String EnumEncoding :=
  let key := lowerAscii text
  if key = "name" ∨ key = "string" then .ok name
  else if key = "number" ∨ key = "numeric" then .ok number
  else .error s!"unknown enum encoding '{key}'"

/-- The words for the encodings on the wire. -/
def words : List (String × EnumEncoding) := [("name", name), ("number", number)]

/-- The word for the encoding on the wire. -/
def wireName : EnumEncoding → String
  | name => "name"
  | number => "number"

end EnumEncoding

/-- The settings of the codec. -/
structure CodecOptions where
  /-- Whether members that hold the default of their type are stored. -/
  serializeDefaultValues : Bool
  /-- Whether members that hold null are stored. -/
  serializeNullValues : Bool
  attributeNaming : NamingPolicy
  enumNaming : NamingPolicy
  enumEncoding : EnumEncoding
  /-- The attribute that names the variant of a polymorphic value. -/
  typeDiscriminator : String
deriving DecidableEq, Repr

namespace CodecOptions

/-- The settings where nothing is chosen. -/
def initial : CodecOptions :=
  ⟨false, false, .identity, .identity, .name, "$type"⟩

instance : Inhabited CodecOptions := ⟨initial⟩

/-- Whether the text of a setting switches it on. -/
def isOn (text : String) : Bool := text == "1" || sameIgnoringCase text "true"

/-- The settings that environment variables give. A variable is looked up by the name of its setting, the
application prepending a name of its own; a text that cannot be read changes nothing. -/
def ofEnvironment (setting : String → Option String) : CodecOptions :=
  let policy (name : String) : NamingPolicy :=
    match (setting name).map NamingPolicy.ofText with
    | some (.ok policy) => policy
    | _ => .identity
  { serializeDefaultValues := ((setting "SERIALIZE_DEFAULT_VALUES").map isOn).getD false
    serializeNullValues := ((setting "SERIALIZE_NULL_VALUES").map isOn).getD false
    attributeNaming := policy "ATTRIBUTE_NAMING"
    enumNaming := policy "ENUM_NAMING"
    enumEncoding :=
      match (setting "ENUM_ENCODING").map EnumEncoding.ofText with
      | some (.ok encoding) => encoding
      | _ => .name
    typeDiscriminator :=
      match setting "TYPE_DISCRIMINATOR" with
      | some text => if text.isEmpty then "$type" else text
      | none => "$type" }

end CodecOptions

end ItemMapper
