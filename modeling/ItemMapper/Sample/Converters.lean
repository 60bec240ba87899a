import ItemMapper.Codec.Converter

/-!
# Sample converters

Converters of an application: two for texts, one that breaks its promise about types, and two for a
type of the application's own.

## Main definitions

* `Sample.shout`, `Sample.quote`, `Sample.wrong`, `Sample.wild`, `Sample.mute`: the converters.
-/

namespace ItemMapper.Sample

/-- A converter of one type. -/
def converterOf (name : String) (type : Ty) (write : Datum → WriterM Unit)
    (read : AttributeValue → Option Typed) : Converter where
  name := name
  handles := (· == type)
  write := fun value => write value.datum
  read := fun target value =>
    match read value with
    | some result => .ok result
    | none => .error (target.mismatch value)

/-- The text of a value that is one. -/
def textOf : Datum → String
  | .text s | .foreign s => s
  | _ => ""

/-- Stores texts in capitals. -/
def shout : Converter :=
  converterOf "shout" (.scalar .text) (fun d => Writer.writeText ((textOf d).map Char.toUpper)) fun
    | .text s => some ⟨.scalar .text, .text (s.map Char.toLower)⟩
    | _ => none

/-- Whether a character is an angle bracket. -/
def isAngle (c : Char) : Bool := c = '<' || c = '>'

/-- Stores texts between angle brackets. -/
def quote : Converter :=
  converterOf "quote" (.scalar .text) (fun d => Writer.writeText ("<" ++ textOf d ++ ">")) fun
    | .text s =>
      let kept := ((s.toList.dropWhile isAngle).reverse.dropWhile isAngle).reverse
      some ⟨.scalar .text, .text (String.ofList kept)⟩
    | _ => none

/-- Stores integers as one, and reads texts where integers are wanted. -/
def wrong : Converter :=
  converterOf "wrong" (.scalar (.int .int32)) (fun _ => Writer.writeInt 1) fun
    | .number _ => some ⟨.scalar .text, .text ""⟩
    | _ => none

/-- What a value of the application's own type is that is read from an attribute value. -/
def report : AttributeValue → String
  | .null _ => "null"
  | .bool b => "bool:" ++ toString b
  | .text s => "s:" ++ s
  | .number digits => "n:" ++ digits
  | .binary bytes => "b:" ++ toString bytes.length
  | .textSet members => "ss:" ++ ",".intercalate members
  | .numberSet members => "ns:" ++ ",".intercalate members
  | .binarySet members => "bs:" ++ toString members.length
  | .list items => "l:" ++ toString items.length
  | .map fields => "m:" ++ toString fields.length

/-- Stores values of the application's own type as texts, and reads them from everything. -/
def wild (typeName : String) : Converter :=
  converterOf "wild" (.foreign typeName) (fun d => Writer.writeText (textOf d)) fun value =>
    some ⟨.foreign typeName, .foreign (report value)⟩

/-- Stores values of the application's own type as null, and reads none. -/
def mute (typeName : String) : Converter :=
  converterOf "mute" (.foreign typeName) (fun _ => Writer.writeNull) fun _ => none

/-- The converter of a name, where the application's own type has the given name. -/
def converter? (typeName name : String) : Option Converter :=
  [shout, quote, wrong, wild typeName, mute typeName].find? (·.name == name)

end ItemMapper.Sample
