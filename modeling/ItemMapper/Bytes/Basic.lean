/-!
# Byte strings

A byte string is a list of bytes, ordered lexicographically. Texts are compared by their UTF-8
bytes; since UTF-8 keeps the order of code points, that is the lexicographic order of their characters.

## Main definitions

* `Bytes`: byte strings.
* `utf8`: the bytes of a text.
* `compareBytes`, `compareText`: the orders. Both are total, and equal only on equal arguments.
-/

namespace ItemMapper

/-- A byte string. -/
abbrev Bytes := List UInt8

/-- The UTF-8 bytes of a text. -/
def utf8 (text : String) : Bytes := text.toUTF8.toList

/-- The order of byte strings: the first difference decides, and a byte string that is the beginning of
a longer one comes first. -/
def compareBytes (a b : Bytes) : Ordering := List.compareLex compare a b

/-- The order of texts, by UTF-8 bytes, which is the order by code points. -/
def compareText (a b : String) : Ordering := List.compareLex compare a.toList b.toList

instance : Std.TransCmp compareBytes := inferInstanceAs (Std.TransCmp (List.compareLex compare))

instance : Std.LawfulEqCmp compareBytes :=
  inferInstanceAs (Std.LawfulEqCmp (List.compareLex compare))

instance : Std.TransCmp compareText where
  eq_swap {a b} := @Std.OrientedCmp.eq_swap _ (List.compareLex compare) _ a.toList b.toList
  isLE_trans {a b c} :=
    @Std.TransCmp.isLE_trans _ (List.compareLex compare) _ a.toList b.toList c.toList

instance : Std.LawfulEqCmp compareText where
  eq_of_compare h :=
    String.toList_injective (@Std.LawfulEqCmp.eq_of_compare _ (List.compareLex compare) _ _ _ h)

end ItemMapper
