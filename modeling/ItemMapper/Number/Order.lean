import ItemMapper.Bytes.Basic
import ItemMapper.Number.Decimal
import ItemMapper.Unicode.Blank

/-!
# The order of number texts

Numbers are kept as decimal text and ordered by the doubles that they denote, white space at their
ends aside. Texts that denote the same double, or of which one denotes none, are ordered as texts.

## Main definitions

* `compareNumberText`: the order.
-/

namespace ItemMapper

/-- The double that a number text denotes; a text that denotes none counts as not a number. -/
def numberValue (text : String) : Floating :=
  (Floating.readDouble? (Unicode.trim text)).getD .nan

/-- The order of number texts. -/
def compareNumberText (a b : String) : Ordering :=
  match (numberValue a).compare? (numberValue b) with
  | some .lt => .lt
  | some .gt => .gt
  | _ => compareText a b

end ItemMapper
