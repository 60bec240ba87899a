import ItemMapper.Unicode.Unprintable

/-!
# Quoted texts

A quoted text stands between double quotes. Quotes, backslashes, tabs, line ends and NUL are
escaped by a backslash and a letter, and every other character that is not printable by its number
in hexadecimal between braces.

## Main definitions

* `quoted`: the quoted form of a text.
-/

namespace ItemMapper

/-- A number in lower-case hexadecimal. -/
def hexadecimal (n : Nat) : List Char := Nat.toDigits 16 n

/-- The characters that stand for one character between quotes. -/
def escapeChar (c : Char) : List Char :=
  if c = '"' then ['\\', '"']
  else if c = '\\' then ['\\', '\\']
  else if c = '\n' then ['\\', 'n']
  else if c = '\r' then ['\\', 'r']
  else if c = '\t' then ['\\', 't']
  else if c = '\x00' then ['\\', '0']
  else if Unicode.isPrintable c then [c]
  else ['\\', 'u', '\x7b'] ++ hexadecimal c.toNat ++ ['\x7d']

/-- The quoted form of a text. -/
def quoted (text : String) : String :=
  String.ofList ('"' :: text.toList.flatMap escapeChar ++ ['"'])

end ItemMapper
