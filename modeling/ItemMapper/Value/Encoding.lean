import ItemMapper.Value.Basic
import ItemMapper.Writer.Basic

/-!
# Writing dynamic values

## Main definitions

* `EnumValue.write`: writes a variant as the options say.
* `Value.write`: writes a dynamic value.
-/

namespace ItemMapper

/-- Writes the variant of an enumeration that has a number. -/
def EnumType.write (e : EnumType) (options : CodecOptions) (number : Int) : WriterM Unit :=
  match e.stored options number with
  | .name text => Writer.writeText text
  | .number value => Writer.writeInt value

/-- Writes a variant. -/
def EnumValue.write (e : EnumValue) (options : CodecOptions) : WriterM Unit :=
  e.type.write options e.number

namespace Value

mutual
/-- Writes a dynamic value into the current slot. -/
def write (options : CodecOptions) : Value → WriterM Unit
  | .null => Writer.writeNull
  | .bool value => Writer.writeBool value
  | .int value => Writer.writeInt value
  | .float value => Writer.writeFloat Floating.double value
  | .number digits => Writer.writeNumber digits
  | .text value => Writer.writeText value
  | .binary bytes => Writer.writeBinary bytes
  | .list items => do
    Writer.beginArray false
    writeItems options 0 items
    Writer.endArray
  | .set members => do
    Writer.beginArray true
    writeItems options 0 members
    Writer.endArray
  | .map fields => do
    Writer.beginObject
    writeFields options fields
    Writer.endObject
  | .enumeration value => value.write options
  | .stored value => Writer.write value

/-- Writes the items of a list, the first of which has the given position. -/
def writeItems (options : CodecOptions) (position : Nat) : List Value → WriterM Unit
  | [] => pure ()
  | item :: rest => do
    Writer.inside (.index position) (write options item)
    writeItems options (position + 1) rest

/-- Writes the fields of a map. -/
def writeFields (options : CodecOptions) : List (String × Value) → WriterM Unit
  | [] => pure ()
  | (key, value) :: rest => do
    Writer.property key
    Writer.inside (.field key) (write options value)
    writeFields options rest
end

/-- The attribute value of a dynamic value, if the flags keep one. -/
def encode (options : CodecOptions) (flags : WriteFlags) (value : Value) :
    Except Error (Option AttributeValue) :=
  (Writer.new flags).run (value.write options)

end Value

end ItemMapper
