import ItemMapper.Number.Decimal
import ItemMapper.Time.Calendar
import ItemMapper.Unicode.Blank

/-!
# Dates and times as text

A moment is written as date, `T`, time and offset; a fraction is written in three, six or nine
digits where it is not zero, and the offset zero as `Z`. When dates and times of day are read, white
space may stand in front of every number, and a year may carry a sign; a moment is read
strictly, except that its date and time may also be parted by a space or a small letter.

## Main definitions

* `Date.text`, `Clock.text`, `DateTime.text`, `Instant.text`: the texts.
* `Date.read?`, `Clock.read?`, `DateTime.read?`, `Instant.read?`: reading them.
-/

namespace ItemMapper

/-- A number in at least so many digits. -/
def padded (width n : Nat) : String :=
  let digits := toString n
  String.ofList (List.replicate (width - digits.length) '0') ++ digits

/-- A number with its sign, in at least four digits. -/
def signedYear (year : Int) : String :=
  (if year < 0 then "-" else "+") ++ padded 4 year.natAbs

/-- A year: four digits, or a sign and at least four digits outside of these. -/
def yearText (year : Int) : String :=
  if 0 ≤ year ∧ year ≤ 9999 then padded 4 year.toNat else signedYear year

/-- The fraction of a second, if it is not zero, with its point. -/
def fractionText (nanos : Nat) : String :=
  if nanos = 0 then ""
  else if nanos % 1000000 = 0 then "." ++ padded 3 (nanos / 1000000)
  else if nanos % 1000 = 0 then "." ++ padded 6 (nanos / 1000)
  else "." ++ padded 9 nanos

/-- `2024-02-29`. -/
def Date.text (d : Date) : String :=
  yearText d.year ++ "-" ++ padded 2 d.month ++ "-" ++ padded 2 d.day

/-- `13:45:00.250`; a leap second is the second sixty. -/
def Clock.text (c : Clock) : String :=
  let leap := c.nanos / 1000000000
  padded 2 (c.seconds / 3600) ++ ":" ++ padded 2 (c.seconds / 60 % 60) ++ ":" ++
    padded 2 (c.seconds % 60 + leap) ++ fractionText (c.nanos - leap * 1000000000)

/-- `2024-02-29T13:45:00.250`. -/
def DateTime.text (d : DateTime) : String := d.date.text ++ "T" ++ d.clock.text

/-- The offset from Greenwich, to the nearest minute. -/
def offsetText (offset : Int) : String :=
  if offset = 0 then "Z"
  else
    let minutes := (offset.natAbs + 30) / 60
    (if offset < 0 then "-" else "+") ++ padded 2 (minutes / 60) ++ ":" ++ padded 2 (minutes % 60)

/-- `2024-02-29T13:45:00.250+01:00`. -/
def Instant.text (i : Instant) : String := i.shown.text ++ offsetText i.offset

namespace TimeText

/-- A reader takes something off the front of a text. -/
abbrev Reader (α : Type) := List Char → Option (α × List Char)

/-- A number of at least one and at most `width` digits; it has to fit into 64 bits. -/
def number (width : Nat) : Reader Nat := fun cs =>
  let digits := (cs.take width).takeWhile isDigit
  let value := digitsValue 0 digits
  if digits.isEmpty ∨ 2 ^ 63 ≤ value then none else some (value, cs.drop digits.length)

/-- A number of any length. -/
def anyNumber : Reader Nat := fun cs => number cs.length cs

/-- A number of exactly two digits. -/
def twoDigits : Reader Nat := fun cs =>
  match cs with
  | a :: b :: rest =>
    if isDigit a ∧ isDigit b then some (digitsValue 0 [a, b], rest) else none
  | _ => none

/-- One certain character. -/
def mark (expected : Char) : Reader Unit := fun cs =>
  match cs with
  | c :: rest => if c = expected then some ((), rest) else none
  | [] => none

/-- A year: four digits at most, or any number of them after a sign. -/
def year : Reader Int := fun cs =>
  let cs := cs.dropWhile Unicode.isBlank
  let limited (result : Option (Int × List Char)) : Option (Int × List Char) :=
    result.bind fun (value, rest) =>
      if -(2 ^ 31) ≤ value ∧ value < 2 ^ 31 then some (value, rest) else none
  match cs with
  | '-' :: rest => limited ((anyNumber rest).map fun (n, rest) => (-(n : Int), rest))
  | '+' :: rest => limited ((anyNumber rest).map fun (n, rest) => ((n : Int), rest))
  | rest => (number 4 rest).map fun (n, rest) => ((n : Int), rest)

/-- A number of at most two digits within bounds, after white space. -/
def field (low high : Nat) : Reader Nat := fun cs =>
  match number 2 (cs.dropWhile Unicode.isBlank) with
  | some (n, rest) => if low ≤ n ∧ n ≤ high then some (n, rest) else none
  | none => none

/-- The fraction of a second in nanoseconds; digits after the ninth are passed over. -/
def fraction : Reader Nat := fun cs =>
  match cs with
  | '.' :: rest =>
    let digits := (rest.take 9).takeWhile isDigit
    if digits.isEmpty then none
    else
      some (digitsValue 0 digits * 10 ^ (9 - digits.length),
        (rest.drop digits.length).dropWhile isDigit)
  | rest => some (0, rest)

/-- The time of day of hour, minute, second and nanoseconds; the second sixty is a leap second. -/
def clockOf (hour minute second nanos : Nat) : Clock :=
  if second = 60 then ⟨hour * 3600 + minute * 60 + 59, 1000000000 + nanos⟩
  else ⟨hour * 3600 + minute * 60 + second, nanos⟩

/-- A date. -/
def date : Reader Date := fun cs => do
  let (y, cs) ← year cs
  let ((), cs) ← mark '-' cs
  let (m, cs) ← field 1 12 cs
  let ((), cs) ← mark '-' cs
  let (d, cs) ← field 1 31 cs
  let result ← Date.ofYmd? y m d
  pure (result, cs)

/-- A time of day. -/
def clock : Reader Clock := fun cs => do
  let (h, cs) ← field 0 23 cs
  let ((), cs) ← mark ':' cs
  let (m, cs) ← field 0 59 cs
  let ((), cs) ← mark ':' cs
  let (s, cs) ← field 0 60 cs
  let (nanos, cs) ← fraction cs
  pure (clockOf h m s nanos, cs)

/-- The whole of a text. -/
def whole {α : Type} (read : Reader α) (text : String) : Option α :=
  match read text.toList with
  | some (value, []) => some value
  | _ => none

/-- A number of exactly two digits within bounds. -/
def exactField (low high : Nat) : Reader Nat := fun cs =>
  match twoDigits cs with
  | some (n, rest) => if low ≤ n ∧ n ≤ high then some (n, rest) else none
  | none => none

/-- The sign of an offset, which may be a true minus sign; true is negative. -/
def offsetSign : Reader Bool := fun cs =>
  match cs with
  | '+' :: rest => some (false, rest)
  | '-' :: rest => some (true, rest)
  | '−' :: rest => some (true, rest)
  | _ => none

/-- An offset from Greenwich in seconds. -/
def offset : Reader Int := fun cs =>
  match cs with
  | 'Z' :: rest | 'z' :: rest => some (0, rest)
  | cs => do
    let (negative, cs) ← offsetSign cs
    let (hours, cs) ← exactField 0 23 cs
    let ((), cs) ← mark ':' cs
    let (minutes, cs) ← exactField 0 59 cs
    let seconds : Int := hours * 3600 + minutes * 60
    pure (if negative then -seconds else seconds, cs)

/-- What parts date and time of a moment. -/
def separator : Reader Unit := fun cs =>
  match cs with
  | 'T' :: rest | 't' :: rest | ' ' :: rest => some ((), rest)
  | _ => none

/-- A moment. -/
def instant : Reader Instant := fun cs => do
  let (century, cs) ← twoDigits cs
  let (years, cs) ← twoDigits cs
  let ((), cs) ← mark '-' cs
  let (month, cs) ← exactField 1 12 cs
  let ((), cs) ← mark '-' cs
  let (day, cs) ← exactField 1 31 cs
  let ((), cs) ← separator cs
  let (hour, cs) ← exactField 0 23 cs
  let ((), cs) ← mark ':' cs
  let (minute, cs) ← exactField 0 59 cs
  let ((), cs) ← mark ':' cs
  let (second, cs) ← exactField 0 60 cs
  let (nanos, cs) ← fraction cs
  let (offset, cs) ← offset cs
  let date ← Date.ofYmd? (century * 100 + years : Nat) month day
  pure (Instant.ofLocal ⟨date, clockOf hour minute second nanos⟩ offset, cs)

/-- A date and a time of day. -/
def dateTime : Reader DateTime := fun cs => do
  let (date, cs) ← date cs
  let ((), cs) ← mark 'T' cs
  let (clock, cs) ← clock cs
  pure (⟨date, clock⟩, cs)

end TimeText

/-- Reads a date. -/
def Date.read? (text : String) : Option Date := TimeText.whole TimeText.date text

/-- Reads a time of day. -/
def Clock.read? (text : String) : Option Clock := TimeText.whole TimeText.clock text

/-- Reads a date and a time of day. -/
def DateTime.read? (text : String) : Option DateTime := TimeText.whole TimeText.dateTime text

/-- Reads a moment. -/
def Instant.read? (text : String) : Option Instant := TimeText.whole TimeText.instant text

/-- The same moment told at Greenwich. -/
def Instant.atGreenwich (i : Instant) : Instant := { i with offset := 0 }

end ItemMapper
