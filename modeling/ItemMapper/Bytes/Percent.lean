import ItemMapper.Bytes.Basic

/-!
# Percent escapes

A byte is written as a percent sign and two upper-case hexadecimal digits when it is a control,
not ASCII, the percent sign or the vertical bar; every other byte stands for itself. When reading, a
percent sign without two hexadecimal digits behind it stands for itself.

## Main definitions

* `Percent.encode`: the escaped text of a byte string.
* `Percent.decode`: the bytes that a text with escapes stands for.
-/

namespace ItemMapper.Percent

/-- Whether a byte is written as an escape. -/
def isEscaped (byte : UInt8) : Bool :=
  let n := byte.toNat
  n < 0x20 || 0x7F ≤ n || n = '%'.toNat || n = '|'.toNat

/-- The hexadecimal digit for a number below sixteen, in upper case. -/
def hexDigit (n : Nat) : Char :=
  if n < 10 then Char.ofNat ('0'.toNat + n) else Char.ofNat ('A'.toNat + (n - 10))

/-- The value of a hexadecimal digit in either case. -/
def hexValue? (byte : UInt8) : Option Nat :=
  let n := byte.toNat
  if 48 ≤ n ∧ n ≤ 57 then some (n - 48)
  else if 65 ≤ n ∧ n ≤ 70 then some (n - 55)
  else if 97 ≤ n ∧ n ≤ 102 then some (n - 87)
  else none

/-- The characters that stand for a byte. -/
def encodeByte (byte : UInt8) : List Char :=
  if isEscaped byte then ['%', hexDigit (byte.toNat / 16), hexDigit (byte.toNat % 16)]
  else [Char.ofNat byte.toNat]

/-- The escaped text of a byte string. -/
def encode (bytes : Bytes) : String := String.ofList (bytes.flatMap encodeByte)

/-- The bytes that bytes with escapes stand for. -/
def decode : Bytes → Bytes
  | [] => []
  | byte :: high :: low :: rest =>
    if byte.toNat = '%'.toNat then
      match hexValue? high, hexValue? low with
      | some h, some l => UInt8.ofNat (h * 16 + l) :: decode rest
      | _, _ => byte :: decode (high :: low :: rest)
    else byte :: decode (high :: low :: rest)
  | byte :: rest => byte :: decode rest

end ItemMapper.Percent
