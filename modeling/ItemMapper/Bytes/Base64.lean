import ItemMapper.Bytes.Basic

/-!
# Base64

The standard alphabet, with the padding that makes the length a multiple of four. Reading is
strict: the padding has to be there, nothing may follow it, and the bits that a last symbol
carries beyond the bytes have to be zero.

## Main definitions

* `Base64.encode`: the text of a byte string.
* `Base64.decode`: the byte string of a text, or the first reason to refuse it.
-/

namespace ItemMapper.Base64

/-- Why a text is not the Base64 form of any byte string. -/
inductive Error where
  /-- A byte that is not a symbol, or a padding mark where none may stand. -/
  | invalidSymbol (byte : UInt8) (offset : Nat)
  /-- A last symbol with bits beyond the bytes. -/
  | invalidLastSymbol (byte : UInt8) (offset : Nat)
  /-- A last group of a single symbol. -/
  | invalidLength (length : Nat)
  /-- Too little padding. -/
  | invalidPadding
deriving DecidableEq, Repr

/-- The description of a refusal. -/
def Error.message : Error → String
  | invalidSymbol byte offset => s!"Invalid symbol {byte.toNat}, offset {offset}."
  | invalidLastSymbol byte offset => s!"Invalid last symbol {byte.toNat}, offset {offset}."
  | invalidLength length => s!"Invalid input length: {length}"
  | invalidPadding => "Invalid padding"

/-- The symbol for six bits. -/
def symbol (n : Nat) : Char :=
  if n < 26 then Char.ofNat ('A'.toNat + n)
  else if n < 52 then Char.ofNat ('a'.toNat + (n - 26))
  else if n < 62 then Char.ofNat ('0'.toNat + (n - 52))
  else if n = 62 then '+' else '/'

/-- The six bits that a symbol stands for. -/
def sextet? (byte : UInt8) : Option Nat :=
  let n := byte.toNat
  if 65 ≤ n ∧ n ≤ 90 then some (n - 65)
  else if 97 ≤ n ∧ n ≤ 122 then some (n - 97 + 26)
  else if 48 ≤ n ∧ n ≤ 57 then some (n - 48 + 52)
  else if n = 43 then some 62
  else if n = 47 then some 63
  else none

/-- The padding mark. -/
def pad : UInt8 := 61

/-- The symbols of a byte string. -/
def encodeChars : Bytes → List Char
  | a :: b :: c :: rest =>
    let n := a.toNat * 65536 + b.toNat * 256 + c.toNat
    symbol (n / 262144) :: symbol (n / 4096 % 64) :: symbol (n / 64 % 64) :: symbol (n % 64) ::
      encodeChars rest
  | [a, b] =>
    let n := a.toNat * 1024 + b.toNat * 4
    [symbol (n / 4096), symbol (n / 64 % 64), symbol (n % 64), '=']
  | [a] =>
    let n := a.toNat * 16
    [symbol (n / 64), symbol (n % 64), '=', '=']
  | [] => []

/-- The Base64 text of a byte string. -/
def encode (bytes : Bytes) : String := String.ofList (encodeChars bytes)

/-- The bytes that a run of sextets fills; bits beyond the last full byte are dropped. -/
def ofSextets : List Nat → Bytes
  | a :: b :: c :: d :: rest =>
    UInt8.ofNat (a * 4 + b / 16) :: UInt8.ofNat (b % 16 * 16 + c / 4) ::
      UInt8.ofNat (c % 4 * 64 + d) :: ofSextets rest
  | [a, b, c] => [UInt8.ofNat (a * 4 + b / 16), UInt8.ofNat (b % 16 * 16 + c / 4)]
  | [a, b] => [UInt8.ofNat (a * 4 + b / 16)]
  | _ => []

/-- The sextets of the groups before the last one, where no padding may stand. -/
def readGroups (offset : Nat) : Bytes → Except Error (List Nat)
  | [] => .ok []
  | byte :: rest =>
    match sextet? byte with
    | none => .error (.invalidSymbol byte offset)
    | some n => (readGroups (offset + 1) rest).map (n :: ·)

/-- What the last group holds: its sextets, its last symbol and how much padding follows. -/
structure LastGroup where
  sextets : List Nat := []
  lastSymbol : UInt8 := 0
  padding : Nat := 0

/-- Reads the last group, which starts at `start`; `index` counts inside the group. -/
def readLastGroup (start index : Nat) (group : LastGroup) : Bytes → Except Error LastGroup
  | [] => .ok group
  | byte :: rest =>
    if byte = pad then
      if index < 2 then .error (.invalidSymbol byte (start + index))
      else readLastGroup start (index + 1) { group with padding := group.padding + 1 } rest
    else if 0 < group.padding then .error (.invalidSymbol pad (start + (index - group.padding)))
    else
      match sextet? byte with
      | none => .error (.invalidSymbol byte (start + index))
      | some n =>
        readLastGroup start (index + 1)
          { group with sextets := group.sextets ++ [n], lastSymbol := byte } rest

/-- The bits of a last group beyond its full bytes. -/
def spareBits : List Nat → Nat
  | [_, b] => b % 16
  | [_, _, c] => c % 4
  | _ => 0

/-- What a last group that starts at `start` has to satisfy. -/
def checkLastGroup (start : Nat) (group : LastGroup) : Except Error Unit := do
  let count := group.sextets.length
  if count < 2 then throw (.invalidLength (start + count))
  if (count + group.padding) % 4 ≠ 0 then throw .invalidPadding
  if spareBits group.sextets ≠ 0 then
    throw (.invalidLastSymbol group.lastSymbol (start + count - 1))

/-- The byte string of a Base64 text given by its bytes. -/
def decodeBytes (input : Bytes) : Except Error Bytes := do
  let length := input.length
  if length = 0 then return []
  let last := input.getLastD 0
  if length % 4 = 1 ∧ last ≠ pad ∧ sextet? last = none then
    throw (.invalidSymbol last (length - 1))
  let start := length - (if length % 4 = 0 then 4 else length % 4)
  let groups ← readGroups 0 (input.take start)
  let group ← readLastGroup start 0 {} (input.drop start)
  checkLastGroup start group
  return ofSextets (groups ++ group.sextets)

/-- The byte string of a Base64 text. -/
def decode (text : String) : Except Error Bytes := decodeBytes (utf8 text)

end ItemMapper.Base64
