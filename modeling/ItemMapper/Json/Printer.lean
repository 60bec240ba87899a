import ItemMapper.Json.Basic

/-!
# Printing JSON

A tree is printed on one line without blanks. In strings, quotes, backslashes and controls are
escaped and every other character stands for itself.

## Main definitions

* `Json.print`: the text of a tree.
-/

namespace ItemMapper.Json

/-- The two hexadecimal digits of a number below 256. -/
def hexPair (n : Nat) : List Char :=
  [Nat.digitChar (n / 16), Nat.digitChar (n % 16)]

/-- A character as it stands in a string. -/
def escapeChar (c : Char) : List Char :=
  if c = '"' then ['\\', '"']
  else if c = '\\' then ['\\', '\\']
  else if c.toNat < 0x20 then ['\\', 'u', '0', '0'] ++ hexPair c.toNat
  else [c]

/-- The text of a string. -/
def printString (text : String) : String :=
  "\"" ++ String.ofList (text.toList.flatMap escapeChar) ++ "\""

mutual
/-- The text of a tree; what could not be read is null. -/
def print : Json → String
  | null | unkeyed _ | garbled | broken => "null"
  | bool value => if value then "true" else "false"
  | number text => text
  | string text => printString text
  | array items _ => "[" ++ ",".intercalate (printItems items) ++ "]"
  | object members _ => "\x7b" ++ ",".intercalate (printMembers members) ++ "\x7d"

/-- The texts of the items of an array. -/
def printItems : List Json → List String
  | [] => []
  | item :: rest => print item :: printItems rest

/-- The texts of the members of an object. -/
def printMembers : List (String × Json) → List String
  | [] => []
  | (key, value) :: rest => (printString key ++ ":" ++ print value) :: printMembers rest
end

end ItemMapper.Json
