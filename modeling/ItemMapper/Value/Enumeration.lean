import ItemMapper.Config.Options
import ItemMapper.Error
import ItemMapper.Number.Decimal
import ItemMapper.Unicode.Blank

/-!
# Enumerations

An enumeration is a list of variants, each a name and a number. A variant is stored by its name,
after the naming policy, or by its number; reading accepts both, whichever the options say. A name
is looked up exactly first, as declared or as stored, and then as declared without regard to the
case of ASCII letters.

## Main definitions

* `EnumType`: the name of an enumeration and its variants.
* `EnumType.stored`: how a variant is stored.
* `EnumType.read`: the variant that an attribute value stands for.
-/

namespace ItemMapper

/-- An enumeration. -/
structure EnumType where
  typeName : String
  /-- The names and numbers of the variants, in the order of declaration. -/
  variants : List (String × Int)
deriving DecidableEq, Repr, Inhabited

namespace EnumType

/-- The name of the variant with a number. -/
def name? (e : EnumType) (number : Int) : Option String :=
  (e.variants.find? fun variant => variant.2 == number).map (·.1)

/-- How a variant is stored: as text, or as a number where names are not wanted or the number
belongs to no variant. -/
inductive Stored where
  | name (text : String)
  | number (value : Int)
deriving DecidableEq, Repr

/-- How the variant with a number is stored. -/
def stored (e : EnumType) (options : CodecOptions) (number : Int) : Stored :=
  match options.enumEncoding, e.name? number with
  | .name, some name => .name (options.enumNaming.apply name)
  | _, _ => .number number

/-- The number of the variant that a text names. -/
def numberOf? (e : EnumType) (naming : NamingPolicy) (text : String) : Option Int :=
  match e.variants.find? fun (name, _) => name == text || naming.apply name == text with
  | some (_, number) => some number
  | none => (e.variants.find? fun (name, _) => sameIgnoringCase name text).map (·.2)

/-- The number of the variant that an attribute value stands for. -/
def read (e : EnumType) (options : CodecOptions) : AttributeValue → Except Error Int
  | .text s =>
    match e.numberOf? options.enumNaming s with
    | some number => .ok number
    | none => .error (Cause.typeMismatch e.typeName s!"S '{s}'")
  | .number n =>
    match readInt64? (Unicode.trim n) with
    | none => .error (Cause.invalidNumber n e.typeName)
    | some number =>
      if (e.name? number).isSome then .ok number
      else .error (Cause.typeMismatch e.typeName s!"N '{n}'")
  | other => .error (Error.typeMismatch e.typeName other)

end EnumType

/-- A variant of an enumeration, by its number. -/
structure EnumValue where
  type : EnumType
  number : Int
deriving DecidableEq, Repr, Inhabited

/-- The name of the variant, if the number belongs to one. -/
def EnumValue.name? (e : EnumValue) : Option String := e.type.name? e.number

end ItemMapper
