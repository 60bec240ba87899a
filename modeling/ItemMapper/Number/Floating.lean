/-!
# Binary floating-point numbers, exactly

A finite number is a sign and a magnitude counted in units of `2 ^ (-1074)`, the smallest
positive number of the double format. Every finite number of the single and of the double
format is a whole number of these units, so the formats differ only in how they round, and
sums, products and comparisons are natural-number arithmetic followed by one rounding.

## Main definitions

* `Floating`: not-a-number, the two infinities and the finite numbers.
* `Floating.Format`: the double and the single format.
* `Floating.ofRatio`: the nearest number of a format to a ratio, ties to even.
* `Floating.compare?`: the numeric comparison, undefined on not-a-number.
-/

-- Powers are the core library's throughout, also in modules that see Mathlib's monoids.
attribute [instance (high), default_instance (high + 1)] instPowNat

namespace ItemMapper

/-- A binary floating-point number. -/
inductive Floating where
  /-- The result of an undefined operation. -/
  | nan
  /-- One of the two infinities. -/
  | infinite (negative : Bool)
  /-- A sign and a magnitude in units of `2 ^ (-1074)`; zero has a sign too. -/
  | finite (negative : Bool) (units : Nat)
deriving DecidableEq, Repr, Inhabited

namespace Floating

/-- What a format can hold. -/
structure Format where
  /-- How many significant bits a number has. -/
  precision : Nat
  /-- The smallest positive number is `2 ^ grain` units. -/
  grain : Nat
  /-- Magnitudes from `2 ^ limit` units on are infinite. -/
  limit : Nat
deriving DecidableEq, Repr

/-- How many binary places a unit has: a unit is `2 ^ (-places)`. -/
def places : Nat := 1074

/-- The double format. -/
def double : Format := ⟨53, 0, 2098⟩

/-- The single format. -/
def single : Format := ⟨24, 925, 1202⟩

/-- The whole number nearest to `num / den`, a tie going to the even one. -/
def roundHalfEven (num den : Nat) : Nat :=
  let quotient := num / den
  let rest := num % den
  if 2 * rest > den ∨ (2 * rest = den ∧ quotient % 2 = 1) then quotient + 1 else quotient

namespace Format

/-- The exponent of the distance between neighbours around a magnitude of `whole` units. -/
def stepExponent (f : Format) (whole : Nat) : Nat :=
  max (whole.log2 + 1 - f.precision) f.grain

/-- The magnitude of the format nearest to `num / den` units, if it is finite. -/
def roundUnits? (f : Format) (num den : Nat) : Option Nat :=
  let step := 2 ^ f.stepExponent (num / den)
  let units := roundHalfEven num (den * step) * step
  if units < 2 ^ f.limit then some units else none

end Format

/-- The number of the format nearest to `± num / den` units, overflow being infinite. -/
def ofUnits (f : Format) (negative : Bool) (num den : Nat) : Floating :=
  match f.roundUnits? num den with
  | some units => finite negative units
  | none => infinite negative

/-- The number of the format nearest to `± num / den`. -/
def ofRatio (f : Format) (negative : Bool) (num den : Nat) : Floating :=
  ofUnits f negative (num * 2 ^ places) den

/-- The number of the format nearest to an integer. -/
def ofInt (f : Format) (i : Int) : Floating := ofRatio f (i < 0) i.natAbs 1

/-- The value of a finite number in units, with its sign. -/
def signedUnits (negative : Bool) (units : Nat) : Int :=
  if negative then -(units : Int) else units

/-- Whether the number is neither infinite nor undefined. -/
def isFinite : Floating → Bool
  | finite _ _ => true
  | _ => false

/-- Numeric comparison; the two zeros are equal, and not-a-number compares with nothing. -/
def compare? : Floating → Floating → Option Ordering
  | nan, _ | _, nan => none
  | infinite a, infinite b => some (compare b.toNat a.toNat)
  | infinite a, finite _ _ => some (if a then .lt else .gt)
  | finite _ _, infinite b => some (if b then .gt else .lt)
  | finite s a, finite t b => some (compare (signedUnits s a) (signedUnits t b))

/-- Numeric equality: the zeros are equal and not-a-number differs from itself. -/
def equals (x y : Floating) : Bool := x.compare? y == some .eq

/-- The number with its sign turned. -/
def negate : Floating → Floating
  | nan => nan
  | infinite s => infinite (!s)
  | finite s u => finite (!s) u

/-- The sum; an exact zero is positive unless both operands are negative. -/
def add (f : Format) : Floating → Floating → Floating
  | nan, _ | _, nan => nan
  | infinite a, infinite b => if a = b then infinite a else nan
  | infinite a, finite _ _ => infinite a
  | finite _ _, infinite b => infinite b
  | finite s a, finite t b =>
    let sum := signedUnits s a + signedUnits t b
    if sum = 0 then finite (s && t) 0 else ofUnits f (sum < 0) sum.natAbs 1

/-- The difference. -/
def sub (f : Format) (x y : Floating) : Floating := add f x y.negate

/-- The product. -/
def mul (f : Format) : Floating → Floating → Floating
  | nan, _ | _, nan => nan
  | infinite a, infinite b => infinite (a != b)
  | infinite a, finite t u | finite t u, infinite a => if u = 0 then nan else infinite (a != t)
  | finite s a, finite t b => ofUnits f (s != t) (a * b) (2 ^ places)

/-- The quotient; a division by zero is infinite, and undefined where both are zero. -/
def div (f : Format) : Floating → Floating → Floating
  | nan, _ | _, nan => nan
  | infinite _, infinite _ => nan
  | infinite a, finite t _ => infinite (a != t)
  | finite s _, infinite b => finite (s != b) 0
  | finite s a, finite t b =>
    if b = 0 then (if a = 0 then nan else infinite (s != t))
    else ofUnits f (s != t) (a * 2 ^ places) b

/-- The integer a number denotes, if it denotes one. -/
def toInt? : Floating → Option Int
  | finite s u => if u % 2 ^ places = 0 then some (signedUnits s (u / 2 ^ places)) else none
  | _ => none

end Floating

end ItemMapper
