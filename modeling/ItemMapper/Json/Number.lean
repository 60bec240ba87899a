import ItemMapper.Number.Decimal
import ItemMapper.Number.Shortest

/-!
# What a JSON number denotes

A whole number within 64 bits denotes an integer. Every other number denotes a double: the first
digits that fit into 64 bits, scaled by a power of ten with one rounding for every step. A number
beyond the doubles denotes nothing.

## Main definitions

* `JsonNumber.ofText`: what the text of a number denotes.
* `JsonNumber.describe`: how a report names it.
-/

namespace ItemMapper

/-- What a JSON number denotes. -/
inductive JsonNumber where
  | integer (value : Int)
  | floating (value : Floating)
  | outOfRange
deriving DecidableEq, Repr

namespace JsonNumber

/-- The largest number that the digits may reach. -/
def maxSignificand : Nat := 2 ^ 64 - 1

/-- The digits that fit into 64 bits, after `value`, and how many are left out. -/
def takeFitting (value : Nat) : List Char → Nat × Nat × Nat
  | [] => (value, 0, 0)
  | c :: rest =>
    let next := value * 10 + (digitValue? c).getD 0
    if maxSignificand < next then (value, 0, rest.length + 1)
    else
      let (value, taken, left) := takeFitting next rest
      (value, taken + 1, left)

/-- `significand · 10 ^ exponent` as a double, scaled in steps of at most 308. -/
def scale (negative : Bool) (significand : Floating) (exponent : Int) : Nat → JsonNumber
  | 0 => outOfRange
  | fuel + 1 =>
    let sign (x : Floating) : JsonNumber := floating (if negative then x.negate else x)
    if exponent.natAbs ≤ 308 then
      let power := Floating.ofInt Floating.double (10 ^ exponent.natAbs)
      if 0 ≤ exponent then
        let x := Floating.mul Floating.double significand power
        if x.isFinite then sign x else outOfRange
      else sign (Floating.div Floating.double significand power)
    else if significand = .finite false 0 then sign significand
    else if 0 ≤ exponent then outOfRange
    else
      let power := Floating.ofInt Floating.double (10 ^ 308)
      scale negative (Floating.div Floating.double significand power) (exponent + 308) fuel

/-- What a number with a fraction, an exponent or too many digits denotes. -/
def ofParts (negative : Bool) (whole fraction : List Char) (exponent : Int) : JsonNumber :=
  let (significand, _, left) := takeFitting 0 whole
  let (significand, places, _) := takeFitting significand fraction
  if significand = 0 then floating (.finite negative 0)
  else
    let exponent := exponent + left - places
    if exponent < -(400 + whole.length + fraction.length : Int) then floating (.finite negative 0)
    else scale negative (Floating.ofInt Floating.double significand) exponent
      (whole.length + fraction.length + 3)

/-- The exponent that the text after the digits denotes. -/
def exponentOf : List Char → Int
  | _ :: '-' :: digits => -(digitsValue 0 digits : Int)
  | _ :: '+' :: digits => digitsValue 0 digits
  | _ :: digits => digitsValue 0 digits
  | [] => 0

/-- What the text of a number denotes. -/
def ofText (text : String) : JsonNumber :=
  let (negative, rest) := takeSign text.toList
  let whole := rest.takeWhile isDigit
  let rest := rest.dropWhile isDigit
  let (fraction, exponent) := match rest with
    | '.' :: tail => (tail.takeWhile isDigit, tail.dropWhile isDigit)
    | tail => ([], tail)
  let value := digitsValue 0 whole
  if fraction.isEmpty ∧ exponent.isEmpty then
    if negative then
      if value = 0 ∨ 2 ^ 63 < value then ofParts negative whole [] 0 else integer (-(value : Int))
    else if value ≤ maxSignificand then integer value
    else ofParts negative whole [] 0
  else ofParts negative whole fraction (exponentOf exponent)

/-- Digits with a point: positional from a hundred-thousandth up to sixteen digits before the
point, otherwise with a signed exponent; a whole number keeps one zero after the point. -/
def decimalText (d : Floating.Decimal) : String :=
  let kept := (Nat.toDigits 10 d.digits).reverse.dropWhile (· == '0') |>.reverse
  let digits := if kept.isEmpty then ['0'] else kept
  let point : Int := d.exponent + (Nat.toDigits 10 d.digits).length
  let count : Int := digits.length
  String.ofList <|
    if count ≤ point ∧ point ≤ 16 then
      digits ++ List.replicate (point - count).toNat '0' ++ ['.', '0']
    else if 0 < point ∧ point ≤ 16 then
      digits.take point.toNat ++ '.' :: digits.drop point.toNat
    else if -5 < point ∧ point ≤ 0 then
      '0' :: '.' :: List.replicate (-point).toNat '0' ++ digits
    else
      let sign := if 0 < point then ['+'] else []
      let exponent := sign ++ (toString (point - 1)).toList
      match digits with
      | [d] => d :: 'e' :: exponent
      | d :: rest => d :: '.' :: rest ++ 'e' :: exponent
      | [] => []

/-- The text of a double in a report: of two equally near decimals the even one. -/
def floatingText : Floating → String
  | .nan => "NaN"
  | .infinite negative => if negative then "-inf" else "inf"
  | .finite negative units =>
    let magnitude :=
      if units = 0 then "0.0" else decimalText (Floating.shortest .even Floating.double units)
    if negative then "-" ++ magnitude else magnitude

end JsonNumber

end ItemMapper
