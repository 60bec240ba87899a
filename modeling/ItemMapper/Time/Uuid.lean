/-!
# Universally unique identifiers

An identifier is a number of 128 bits, written as 32 lower-case hexadecimal digits in groups of 8, 4,
4, 4 and 12 with hyphens between them. When it is read, letters may be of either case; the hyphens may
be missing; and the form with hyphens may stand between braces or after `urn:uuid:`.

## Main definitions

* `Uuid.text`, `Uuid.read?`: the text of an identifier, and reading it.
-/

namespace ItemMapper

/-- An identifier. -/
structure Uuid where
  value : Nat
deriving DecidableEq, Repr, Inhabited

namespace Uuid

/-- The identifier of zeros. -/
def zero : Uuid := ⟨0⟩

/-- The 32 digits of an identifier. -/
def digits (u : Uuid) : List Char :=
  let ds := Nat.toDigits 16 u.value
  List.replicate (32 - ds.length) '0' ++ ds

/-- The text of an identifier. -/
def text (u : Uuid) : String :=
  let ds := u.digits
  String.ofList <|
    ds.take 8 ++ '-' :: (ds.drop 8).take 4 ++ '-' :: (ds.drop 12).take 4 ++
      '-' :: (ds.drop 16).take 4 ++ '-' :: ds.drop 20

/-- The value of a hexadecimal digit in either case. -/
def hexValue? (c : Char) : Option Nat :=
  if '0' ≤ c ∧ c ≤ '9' then some (c.toNat - '0'.toNat)
  else if 'a' ≤ c ∧ c ≤ 'f' then some (c.toNat - 'a'.toNat + 10)
  else if 'A' ≤ c ∧ c ≤ 'F' then some (c.toNat - 'A'.toNat + 10)
  else none

/-- The number that hexadecimal digits denote. -/
def hexNumber? (cs : List Char) : Option Nat :=
  cs.foldl (fun value c => do pure ((← value) * 16 + (← hexValue? c))) (some 0)

/-- The identifier of 32 digits. -/
def ofDigits? (cs : List Char) : Option Uuid :=
  if cs.length = 32 then (hexNumber? cs).map Uuid.mk else none

/-- The identifier of 32 digits in groups. -/
def ofGroups? (cs : List Char) : Option Uuid :=
  if cs.length = 36 ∧ [8, 13, 18, 23].all fun i => cs[i]? = some '-' then
    ofDigits? (cs.take 8 ++ (cs.drop 9).take 4 ++ (cs.drop 14).take 4 ++ (cs.drop 19).take 4 ++
      cs.drop 24)
  else none

/-- Reads an identifier. -/
def read? (source : String) : Option Uuid :=
  let cs := source.toList
  match cs.length with
  | 32 => ofDigits? cs
  | 36 => ofGroups? cs
  | 38 =>
    if cs.head? = some '\x7b' ∧ cs.getLast? = some '\x7d' then ofGroups? ((cs.drop 1).take 36)
    else none
  | 45 =>
    if (cs.take 9).map Char.toLower = "urn:uuid:".toList then ofGroups? (cs.drop 9) else none
  | _ => none

end Uuid

end ItemMapper
