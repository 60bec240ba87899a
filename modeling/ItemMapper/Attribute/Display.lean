import ItemMapper.Attribute.Basic
import ItemMapper.Text.Quoted

/-!
# The short description of an attribute value

The tag and, for scalars and sets of text, the contents; for everything else only a count.

## Main definitions

* `AttributeValue.display`: the description.
-/

namespace ItemMapper.AttributeValue

/-- Quoted texts between square brackets. -/
def quotedList (texts : List String) : String :=
  "[" ++ ", ".intercalate (texts.map quoted) ++ "]"

/-- What the description says after the tag. -/
def displayBody : AttributeValue → String
  | .text value | .number value => value
  | .binary bytes => s!"{bytes.length} bytes"
  | .textSet members | .numberSet members => quotedList members
  | .binarySet members => s!"{members.length} items"
  | .bool value | .null value => toString value
  | .list items => s!"{items.length} items"
  | .map fields => s!"{fields.length} keys"

/-- The description of a value. -/
def display (v : AttributeValue) : String :=
  "\x7b" ++ v.tag ++ ": " ++ v.displayBody ++ "\x7d"

end ItemMapper.AttributeValue
