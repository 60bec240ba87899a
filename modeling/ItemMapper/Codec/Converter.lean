import ItemMapper.Codec.Datum
import ItemMapper.Bytes.Base64
import ItemMapper.Writer.Basic

/-!
# Converters

Values of scalar types and of the application's own types are written and read by converters. A
converter says which types it handles. The first of a chain that handles a type is the one that is
used.

## Main definitions

* `Converter`: a converter.
* `Converter.primitive`, `Converter.binary`, `Converter.textual`: the converters that are always
  there.
* `Converter.first?`: the converter of a chain for a type.
* `Registry`: a chain that remembers what it has found.
-/

namespace ItemMapper

/-- A value with its type. -/
structure Typed where
  type : Ty
  datum : Datum
deriving Repr, Inhabited

/-- A type that a value is wanted of. -/
structure Target where
  type : Ty
  /-- How messages call the type. -/
  name : String
deriving DecidableEq, Repr, Inhabited

/-- The refusal of an attribute value as a value of the target. -/
def Target.mismatch (target : Target) (value : AttributeValue) : Error :=
  Error.typeMismatch target.name value

/-- A converter. -/
structure Converter where
  name : String
  handles : Ty → Bool
  write : Typed → WriterM Unit
  read : Target → AttributeValue → Except Error Typed

instance : Inhabited Converter :=
  ⟨⟨"", fun _ => false, fun _ => pure (), fun target value => .error (target.mismatch value)⟩⟩

namespace Converter

/-- The failure to write a value of a type that the converter does not handle. -/
def cannotWrite (name : String) : WriterM Unit := fun w =>
  .error (Cause.unsupportedType "<unknown>" s!"{name} converter cannot write this value") w

/-- Writes a truth value, number, character or text. -/
def writePrimitive : Typed → WriterM Unit
  | ⟨.scalar .bool, .bool value⟩ => Writer.writeBool value
  | ⟨.scalar (.int _), .int value⟩ => Writer.writeInt value
  | ⟨.scalar (.float type), .float value⟩ => Writer.writeFloat type.format value
  | ⟨.scalar .char, .char value⟩ => Writer.writeText (String.singleton value)
  | ⟨.scalar .text, .text value⟩ => Writer.writeText value
  | _ => cannotWrite "primitive"

/-- Reads a number as a value of a scalar type. -/
def readNumber (target : Target) (digits : String) : Except Error Datum :=
  match target.type with
  | .scalar (.int type) =>
    match type.read? digits with
    | some value => .ok (.int value)
    | none => .error (Cause.invalidNumber digits target.name)
  | .scalar (.float type) =>
    match Floating.read? type.format (Unicode.trim digits) with
    | some value => .ok (.float value)
    | none => .error (Cause.invalidNumber digits target.name)
  | .scalar .text => .ok (.text digits)
  | _ => .error (Cause.unsupportedType target.name "not a supported numeric target")

/-- Whether the type is a truth value, number, character or text. -/
def isPrimitive : Ty → Bool
  | .scalar .bool | .scalar (.int _) | .scalar (.float _) | .scalar .char | .scalar .text => true
  | _ => false

/-- Reads a truth value, number, character or text; null is the default of the type. -/
def readPrimitive (target : Target) (value : AttributeValue) : Except Error Typed :=
  let ok (datum : Datum) : Except Error Typed := .ok ⟨target.type, datum⟩
  match target.type, value with
  | .scalar type, .null _ =>
    if isPrimitive target.type then ok type.initial else .error (target.mismatch value)
  | .scalar .bool, .bool flag => ok (.bool flag)
  | .scalar .text, .text s => ok (.text s)
  | .scalar .char, .text s =>
    match s.toList with
    | [c] => ok (.char c)
    | cs => .error (Cause.typeMismatch "char" s!"S of length {cs.length}")
  | _, .number digits => (readNumber target digits).map fun datum => ⟨target.type, datum⟩
  | _, _ => .error (target.mismatch value)

/-- Truth values, numbers, characters and texts. -/
def primitive : Converter := ⟨"primitive", isPrimitive, writePrimitive, readPrimitive⟩

/-- Writes a byte string. -/
def writeBytes : Typed → WriterM Unit
  | ⟨.scalar .binary, .binary bytes⟩ => Writer.writeBinary bytes
  | _ => cannotWrite "binary"

/-- Reads a byte string, which may also be stored as Base64 text; null is the empty one. -/
def readBytes (target : Target) (value : AttributeValue) : Except Error Typed :=
  let ok (bytes : Bytes) : Except Error Typed := .ok ⟨.scalar .binary, .binary bytes⟩
  match value with
  | .null _ => ok []
  | .binary bytes => ok bytes
  | .text s =>
    match Base64.decode s with
    | .ok bytes => ok bytes
    | .error _ => .error (target.mismatch value)
  | _ => .error (target.mismatch value)

/-- Byte strings. -/
def binary : Converter := ⟨"binary", (· == .scalar .binary), writeBytes, readBytes⟩

/-- Whether the type is one of those in a list. -/
def handlesTextual (types : List TextType) : Ty → Bool
  | .scalar (.textual type) => types.contains type
  | _ => false

/-- Writes a value of one of the types as text. -/
def writeTextual (types : List TextType) (value : Typed) : WriterM Unit :=
  match value.datum with
  | .stamp stamp =>
    if handlesTextual types value.type then Writer.writeText stamp.text else cannotWrite "parsable"
  | _ => cannotWrite "parsable"

/-- Reads a value of one of the types from its text; null is the default of the type. -/
def readTextual (types : List TextType) (target : Target) (value : AttributeValue) :
    Except Error Typed :=
  match target.type with
  | .scalar (.textual type) =>
    if !types.contains type then .error (target.mismatch value)
    else
      match value with
      | .null _ => .ok ⟨target.type, .stamp type.initial⟩
      | .text s =>
        match type.read? s with
        | some stamp => .ok ⟨target.type, .stamp stamp⟩
        | none => .error (Cause.typeMismatch target.name s!"S '{s}'")
      | _ => .error (target.mismatch value)
  | _ => .error (target.mismatch value)

/-- The types in a list, which are stored as formatted text. -/
def textualOf (types : List TextType) : Converter :=
  ⟨"parsable", handlesTextual types, writeTextual types, readTextual types⟩

/-- All types that are stored as formatted text. -/
def textual : Converter :=
  textualOf [.instant, .localInstant, .date, .dateTime, .clock, .signedSpan, .unsignedSpan, .uuid]

/-- The converters that are always there. -/
def builtins : List Converter := [primitive, binary, textual]

/-- The converter of a chain for a type. -/
def first? (chain : List Converter) (type : Ty) : Option Converter :=
  chain.find? (·.handles type)

/-- The failure to find a converter for a type. -/
def notFound (name : String) : Error :=
  Cause.unsupportedType name "no converter handles this type"

/-- Writes a value by a converter, if there is one. -/
def writeBy (converter : Option Converter) (name : String) (value : Typed) : WriterM Unit := fun w =>
  match converter with
  | some c => c.write value w
  | none => .error (notFound name) w

/-- Reads a value of the target by a converter, if there is one. The value has to be of the type
that is wanted. -/
def readBy (converter : Option Converter) (target : Target) (value : AttributeValue) :
    Except Error Datum :=
  match converter with
  | none => .error (notFound target.name)
  | some c => do
    let result ← c.read target value
    if result.type = target.type then pure result.datum
    else
      .error (Cause.unsupportedType target.name s!"converter {c.name} produced a different type")

end Converter

/-- A chain of converters, and what has been found in it since it last changed. -/
structure Registry where
  chain : List Converter
  found : List (Ty × Option Converter)

namespace Registry

/-- The registry of a configuration: its converters in order, and then those that are always
there. -/
def ofConfiguration (converters : List Converter) : Registry :=
  ⟨converters ++ Converter.builtins, []⟩

/-- Puts a converter in front of the chain; what has been found is forgotten. -/
def register (r : Registry) (converter : Converter) : Registry :=
  ⟨converter :: r.chain, []⟩

/-- The converter for a type, which is looked for in the chain only once. -/
def find (r : Registry) (type : Ty) : Option Converter × Registry :=
  match r.found.lookup type with
  | some converter => (converter, r)
  | none =>
    let converter := Converter.first? r.chain type
    (converter, { r with found := (type, converter) :: r.found })

end Registry

end ItemMapper
