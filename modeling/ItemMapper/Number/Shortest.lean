import ItemMapper.Number.Floating

/-!
# The shortest decimal text of a floating-point number

A finite number is written with the fewest significant digits that read back as the same number
of its format; of two such decimals the nearer one is written, and a tie is broken as a `Tie`
says. The text is positional whatever the size: no exponent, no point after a whole number; here a
tie goes up.

## Main definitions

* `Floating.Tie`: which of two equally near decimals is taken.
* `Floating.shortest`: the digits and the place of the point.
* `Floating.print`: the text.
-/

namespace ItemMapper.Floating

/-- A positive decimal: `digits · 10 ^ exponent`. -/
structure Decimal where
  digits : Nat
  exponent : Int
deriving DecidableEq, Repr

/-- How many decimal digits a natural number has. -/
def decimalLength (n : Nat) : Nat := (Nat.toDigits 10 n).length

/-- The number of digits before the point of `num / den`; it is negative or zero when zeros
follow the point. -/
def decimalScale (num den : Nat) : Int :=
  if den ≤ num then decimalLength (num / den) else 1 - (decimalLength ((den - 1) / num) : Int)

/-- The reals that read back as a number, as ratios over a common denominator: from `low` to
`high`, the ends included when `closed`. -/
structure Interval where
  low : Nat
  value : Nat
  high : Nat
  den : Nat
  closed : Bool

/-- Whether `num / den` lies in the interval. -/
def Interval.contains (i : Interval) (num den : Nat) : Bool :=
  let x := num * i.den
  if i.closed then i.low * den ≤ x && x ≤ i.high * den
  else i.low * den < x && x < i.high * den

/-- The reals nearest to a positive magnitude of the format. Below a power of two the neighbour is
half as far away as above it. -/
def Format.interval (f : Format) (units : Nat) : Interval :=
  let step := 2 ^ f.stepExponent units
  let narrow := units = 2 ^ units.log2 ∧ f.grain + f.precision ≤ units.log2 + 1
  { low := if narrow then 4 * units - step else 4 * units - 2 * step
    value := 4 * units
    high := 4 * units + 2 * step
    den := 4 * 2 ^ places
    closed := (units / step) % 2 = 0 }

/-- Which of two equally near decimals is taken. -/
inductive Tie where
  /-- The larger one. -/
  | up
  /-- The one whose last digit is even. -/
  | even
deriving DecidableEq, Repr

/-- The whole number nearest to `num / den`, a tie being broken as told. -/
def Tie.nearest (tie : Tie) (num den : Nat) : Nat :=
  let below := num / den
  let rest := num % den
  if 2 * rest < den ∨ (2 * rest = den ∧ tie = .even ∧ below % 2 = 0) then below else below + 1

/-- The point of the grid of `count` digits that reads back, if one of the two neighbours of the
value does: the nearer of both, a tie being broken as told. -/
def gridPoint? (tie : Tie) (i : Interval) (scale : Int) (count : Nat) : Option Decimal :=
  let exponent := scale - count
  let up := 10 ^ exponent.toNat
  let down := 10 ^ (-exponent).toNat
  let num := i.value * down
  let den := i.den * up
  let below := num / den
  let above := below + 1
  let reads (n : Nat) : Bool := i.contains (n * up) down
  match reads below, reads above with
  | true, true => some ⟨tie.nearest num den, exponent⟩
  | true, false => some ⟨below, exponent⟩
  | false, true => some ⟨above, exponent⟩
  | false, false => none

/-- The first grid, from `count` digits on, that has a point which reads back. -/
def firstGrid (tie : Tie) (i : Interval) (scale : Int) (count : Nat) : Nat → Decimal
  | 0 => ⟨i.value / i.den, 0⟩
  | fuel + 1 =>
    match gridPoint? tie i scale count with
    | some d => d
    | none => firstGrid tie i scale (count + 1) fuel

/-- The shortest decimal that reads back as the positive magnitude. Seventeen digits suffice for
every format here. -/
def shortest (tie : Tie) (f : Format) (units : Nat) : Decimal :=
  let i := f.interval units
  firstGrid tie i (decimalScale i.value i.den) 1 17

/-- The positional text of a decimal. -/
def Decimal.text (d : Decimal) : String :=
  let digits := Nat.toDigits 10 d.digits
  if 0 ≤ d.exponent then String.ofList (digits ++ List.replicate d.exponent.toNat '0')
  else
    let fractionLength := (-d.exponent).toNat
    let padded := List.replicate (fractionLength + 1 - digits.length) '0' ++ digits
    let whole := padded.take (padded.length - fractionLength)
    let fraction := padded.drop (padded.length - fractionLength)
    let kept := (fraction.reverse.dropWhile (· == '0')).reverse
    String.ofList (if kept.isEmpty then whole else whole ++ '.' :: kept)

/-- The text of a number of the format. -/
def print (f : Format) : Floating → String
  | nan => "NaN"
  | infinite negative => if negative then "-inf" else "inf"
  | finite negative units =>
    let magnitude := if units = 0 then "0" else (shortest .up f units).text
    if negative then "-" ++ magnitude else magnitude

end ItemMapper.Floating
