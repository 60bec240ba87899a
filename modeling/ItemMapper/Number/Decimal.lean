import ItemMapper.Number.Floating

/-!
# Reading numbers from text

An integer is a run of decimal digits after an optional sign. A floating-point number is an
optional sign and then `inf`, `infinity`, `nan` in any letter case, or digits with an optional
point and an optional decimal exponent, at least one digit standing before or after the point.
Nothing is trimmed and no digit separators are allowed.

## Main definitions

* `readNat?`, `readInt?`, `readInt64?`: runs of digits.
* `Floating.read?`: the number of a format nearest to the decimal value that the text denotes.
-/

namespace ItemMapper

/-- The value of a decimal digit. -/
def digitValue? (c : Char) : Option Nat :=
  if '0' ≤ c ∧ c ≤ '9' then some (c.toNat - '0'.toNat) else none

/-- Whether the character is one of the ten decimal digits. -/
def isDigit (c : Char) : Bool := (digitValue? c).isSome

/-- The value of a run of digits, most significant first, read after `start`. -/
def digitsValue (start : Nat) (digits : List Char) : Nat :=
  digits.foldl (fun value c => value * 10 + (digitValue? c).getD 0) start

/-- A non-empty run of digits and nothing else. -/
def readDigits? (cs : List Char) : Option Nat :=
  if cs ≠ [] ∧ cs.all isDigit then some (digitsValue 0 cs) else none

/-- The sign in front, if there is one, and what follows; true is the minus sign. -/
def takeSign : List Char → Bool × List Char
  | '-' :: rest => (true, rest)
  | '+' :: rest => (false, rest)
  | rest => (false, rest)

/-- An unsigned integer: digits after an optional plus sign. -/
def readNat? (text : String) : Option Nat :=
  match text.toList with
  | '+' :: rest => readDigits? rest
  | cs => readDigits? cs

/-- A signed integer: digits after an optional sign. -/
def readInt? (text : String) : Option Int :=
  let (negative, rest) := takeSign text.toList
  (readDigits? rest).map fun n => if negative then -(n : Int) else n

/-- A signed integer of 64 bits. -/
def readInt64? (text : String) : Option Int :=
  match readInt? text with
  | some i => if -(2 ^ 63) ≤ i ∧ i < 2 ^ 63 then some i else none
  | none => none

namespace Floating

/-- The letters of a text in lower case, for the words that stand for special numbers. -/
def lowered (cs : List Char) : List Char := cs.map Char.toLower

/-- The decimal exponent that ends a number; the exponent of a number without one is zero. -/
def readExponent? : List Char → Option Int
  | [] => some 0
  | c :: rest =>
    if c = 'e' ∨ c = 'E' then
      let (negative, digits) := takeSign rest
      (readDigits? digits).map fun n => if negative then -(n : Int) else n
    else none

/-- `digits · 10 ^ exponent` in the format. A value far outside every format's range is settled
by its size alone, so that no huge power is formed. -/
def ofDecimal (f : Format) (negative : Bool) (digits : Nat) (exponent : Int) : Floating :=
  if digits = 0 then finite negative 0
  else
    let magnitude := exponent + (toString digits).length
    if magnitude > 400 then infinite negative
    else if magnitude < -400 then finite negative 0
    else if 0 ≤ exponent then ofRatio f negative (digits * 10 ^ exponent.toNat) 1
    else ofRatio f negative digits (10 ^ (-exponent).toNat)

/-- A number written with digits. -/
def readMagnitude? (f : Format) (negative : Bool) (cs : List Char) : Option Floating := do
  let whole := cs.takeWhile isDigit
  let rest := cs.dropWhile isDigit
  let (fraction, rest) := match rest with
    | '.' :: tail => (tail.takeWhile isDigit, tail.dropWhile isDigit)
    | tail => ([], tail)
  guard (whole ≠ [] ∨ fraction ≠ [])
  let exponent ← readExponent? rest
  pure (ofDecimal f negative (digitsValue (digitsValue 0 whole) fraction)
    (exponent - fraction.length))

/-- The number of the format that a text denotes. -/
def read? (f : Format) (text : String) : Option Floating :=
  let (negative, rest) := takeSign text.toList
  let word := String.ofList (lowered rest)
  if word = "nan" then some nan
  else if word = "inf" ∨ word = "infinity" then some (infinite negative)
  else readMagnitude? f negative rest

/-- The double that a text denotes. -/
def readDouble? (text : String) : Option Floating := read? double text

end Floating

end ItemMapper
