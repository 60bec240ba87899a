import ItemMapper.Config.Options
import ItemMapper.Wire.Basic

/-!
# Codec options on the wire

## Main definitions

* `CodecOptions.toJson`, `CodecOptions.ofJson`: the wire form of the settings.
-/

namespace ItemMapper

namespace NamingPolicy

/-- The wire form. -/
def toJson (policy : NamingPolicy) : Json := .string policy.name

/-- Reads the wire form. -/
def ofJson : Wire.Reader NamingPolicy := Wire.word words

end NamingPolicy

namespace EnumEncoding

/-- The wire form. -/
def toJson (encoding : EnumEncoding) : Json := .string encoding.wireName

/-- Reads the wire form. -/
def ofJson : Wire.Reader EnumEncoding := Wire.word words

end EnumEncoding

namespace CodecOptions

/-- The wire form. -/
def toJson (o : CodecOptions) : Json :=
  .ofMembers
    [("serializeDefaultValues", .bool o.serializeDefaultValues),
     ("serializeNullValues", .bool o.serializeNullValues),
     ("attributeNaming", o.attributeNaming.toJson),
     ("enumNaming", o.enumNaming.toJson),
     ("enumEncoding", o.enumEncoding.toJson),
     ("typeDiscriminator", .string o.typeDiscriminator)]

/-- What has been read of the settings. -/
private structure Draft where
  defaults : Option Bool
  nulls : Option Bool
  attributeNaming : Option NamingPolicy
  enumNaming : Option NamingPolicy
  enumEncoding : Option EnumEncoding
  discriminator : Option String

/-- Reads the wire form. -/
def ofJson : Wire.Reader CodecOptions :=
  Wire.record "struct CodecOptions"
    [⟨"serializeDefaultValues", false, (·.defaults.isSome),
        fun d depth j => (Wire.truth depth j).map fun v => { d with defaults := some v }⟩,
     ⟨"serializeNullValues", false, (·.nulls.isSome),
        fun d depth j => (Wire.truth depth j).map fun v => { d with nulls := some v }⟩,
     ⟨"attributeNaming", false, (·.attributeNaming.isSome), fun d depth j =>
        (NamingPolicy.ofJson depth j).map fun v => { d with attributeNaming := some v }⟩,
     ⟨"enumNaming", false, (·.enumNaming.isSome), fun d depth j =>
        (NamingPolicy.ofJson depth j).map fun v => { d with enumNaming := some v }⟩,
     ⟨"enumEncoding", false, (·.enumEncoding.isSome), fun d depth j =>
        (EnumEncoding.ofJson depth j).map fun v => { d with enumEncoding := some v }⟩,
     ⟨"typeDiscriminator", false, (·.discriminator.isSome),
        fun d depth j => (Wire.text depth j).map fun v => { d with discriminator := some v }⟩]
    (⟨none, none, none, none, none, none⟩ : Draft)
    fun d => do
      let defaults ← Wire.required "serializeDefaultValues" d.defaults
      let nulls ← Wire.required "serializeNullValues" d.nulls
      let attributeNaming ← Wire.required "attributeNaming" d.attributeNaming
      let enumNaming ← Wire.required "enumNaming" d.enumNaming
      let enumEncoding ← Wire.required "enumEncoding" d.enumEncoding
      let discriminator ← Wire.required "typeDiscriminator" d.discriminator
      pure ⟨defaults, nulls, attributeNaming, enumNaming, enumEncoding, discriminator⟩

end CodecOptions

end ItemMapper
