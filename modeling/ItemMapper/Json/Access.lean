import ItemMapper.Json.Basic
import ItemMapper.Number.Decimal
import ItemMapper.Order.Fields

/-!
# Parts of JSON trees

Building trees out of values and taking them apart again.

## Main definitions

* `Json.ofInt`, `Json.ofTexts`, `Json.ofOption`: trees of values.
* `Json.field?`, `Json.items?`, `Json.text?` and the like: the parts of a tree.
-/

namespace ItemMapper.Json

/-- The tree of an integer. -/
def ofInt (i : Int) : Json := number (toString i)

/-- The tree of a natural number. -/
def ofNat (n : Nat) : Json := number (toString n)

/-- The tree of a list of texts. -/
def ofTexts (texts : List String) : Json := ofItems (texts.map string)

/-- The tree of a value that may be missing. -/
def ofOption {α : Type} (write : α → Json) : Option α → Json
  | some value => write value
  | none => null

/-- The text of a string. -/
def text? : Json → Option String
  | string text => some text
  | _ => none

/-- The value of a truth value. -/
def truth? : Json → Option Bool
  | bool value => some value
  | _ => none

/-- The integer of a number, or of a string that holds one. -/
def int? : Json → Option Int
  | number text | string text => readInt? text
  | _ => none

/-- The natural number of a number, or of a string that holds one. -/
def nat? (j : Json) : Option Nat :=
  match j.int? with
  | some (Int.ofNat n) => some n
  | _ => none

/-- The items of an array. -/
def items? : Json → Option (List Json)
  | array items _ => some items
  | _ => none

/-- The members of an object, in ascending order; of two with one name the later one stays. -/
def fields? : Json → Option (Fields Json)
  | object members _ => some (Fields.ofList members)
  | _ => none

/-- The member of an object under a name. -/
def field? (j : Json) (name : String) : Option Json := j.fields?.bind fun fields => fields.get? name

/-- The text under a name. -/
def textField? (j : Json) (name : String) : Option String := (j.field? name).bind text?

/-- The items under a name, of which there are none where nothing stands. -/
def itemsField? (j : Json) (name : String) : Option (List Json) :=
  match j.field? name with
  | some found => found.items?
  | none => some []

end ItemMapper.Json
