/-!
# Dates and times of day

Dates of the Gregorian calendar, extended to all years, and times of day with a leap second. A day
is also counted from the first of January 1970.

## Main definitions

* `Date`, `Clock`, `DateTime`, `Instant`: the types.
* `Date.ofDays`, `Date.toDays`: dates and day counts.
-/

namespace ItemMapper

/-- A date. -/
structure Date where
  year : Int
  month : Nat
  day : Nat
deriving DecidableEq, Repr, Inhabited

/-- A time of day. -/
structure Clock where
  /-- Seconds since midnight. -/
  seconds : Nat
  /-- Nanoseconds of the second; from a thousand million on they belong to a leap second. -/
  nanos : Nat
deriving DecidableEq, Repr, Inhabited

/-- A date and a time of day. -/
structure DateTime where
  date : Date
  clock : Clock
deriving DecidableEq, Repr, Inhabited

/-- A moment, as it is told at an offset from Greenwich. -/
structure Instant where
  /-- Seconds since the start of 1970 at Greenwich. -/
  seconds : Int
  nanos : Nat
  /-- How many seconds the local clock is ahead of Greenwich. -/
  offset : Int
deriving DecidableEq, Repr, Inhabited

/-- Whether a year has a leap day. -/
def isLeapYear (year : Int) : Bool :=
  year % 4 = 0 && (year % 100 ≠ 0 || year % 400 = 0)

/-- How many days a month has. -/
def daysInMonth (year : Int) (month : Nat) : Nat :=
  if month = 2 then (if isLeapYear year then 29 else 28)
  else if month = 4 ∨ month = 6 ∨ month = 9 ∨ month = 11 then 30
  else 31

namespace Date

/-- The years that dates reach. -/
def minYear : Int := -262143

/-- The last year that dates reach. -/
def maxYear : Int := 262142

/-- The date of a year, month and day, if there is one. -/
def ofYmd? (year : Int) (month day : Nat) : Option Date :=
  if minYear ≤ year ∧ year ≤ maxYear ∧ 1 ≤ month ∧ month ≤ 12 ∧ 1 ≤ day ∧
      day ≤ daysInMonth year month then some ⟨year, month, day⟩
  else none

-- The sum is the core library's, also where Mathlib's semirings are in scope.
attribute [local instance (high)] Zero.ofOfNat0 in
/-- The days of a year before a month. -/
def daysBefore (year : Int) (month : Nat) : Nat :=
  ((List.range (month - 1)).map fun i => daysInMonth year (i + 1)).sum

/-- The days from the first of January of the year one to the first of January of a year. -/
def daysBeforeYear (year : Int) : Int :=
  let y := year - 1
  365 * y + y / 4 - y / 100 + y / 400

/-- The day count of a date, from the first of January 1970 on. -/
def toDays (d : Date) : Int :=
  daysBeforeYear d.year - 719162 + daysBefore d.year d.month + (d.day - 1 : Nat)

/-- The month and day of a day of a year, the first being zero. -/
def monthOfDay (year : Int) (month : Nat) (day : Nat) : Nat → Nat × Nat
  | 0 => (month, day + 1)
  | fuel + 1 =>
    let length := daysInMonth year month
    if day < length then (month, day + 1)
    else monthOfDay year (month + 1) (day - length) fuel

/-- The date of a day count. -/
def ofDays (days : Int) : Date :=
  let n := days + 719162
  let cycles := n / 146097
  let rest := (n % 146097).toNat
  let centuries := min (rest / 36524) 3
  let rest := rest - centuries * 36524
  let quads := rest / 1461
  let rest := rest - quads * 1461
  let years := min (rest / 365) 3
  let rest := rest - years * 365
  let year := cycles * 400 + (centuries * 100 + quads * 4 + years : Nat) + 1
  let (month, day) := monthOfDay year 1 rest 11
  ⟨year, month, day⟩

end Date

/-- The start of 1970. -/
def Date.epoch : Date := ⟨1970, 1, 1⟩

/-- Midnight. -/
def Clock.midnight : Clock := ⟨0, 0⟩

/-- The start of 1970. -/
def DateTime.epoch : DateTime := ⟨.epoch, .midnight⟩

namespace Instant

/-- The start of 1970 at Greenwich. -/
def epoch : Instant := ⟨0, 0, 0⟩

/-- What calendar and clock show at the moment. -/
def shown (i : Instant) : DateTime :=
  let seconds := i.seconds + i.offset
  ⟨Date.ofDays (seconds / 86400), ⟨(seconds % 86400).toNat, i.nanos⟩⟩

/-- The moment at which calendar and clock show a date and time, at an offset. -/
def ofLocal (d : DateTime) (offset : Int) : Instant :=
  ⟨d.date.toDays * 86400 + d.clock.seconds - offset, d.clock.nanos, offset⟩

/-- Whether two moments are the same, wherever they are told. -/
def sameMoment (a b : Instant) : Bool := a.seconds == b.seconds && a.nanos == b.nanos

end Instant

end ItemMapper
