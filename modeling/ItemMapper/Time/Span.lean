import ItemMapper.Number.Decimal
import ItemMapper.Time.Text

/-!
# Spans of time as text

A span is written as `[-][d.]hh:mm:ss[.fffffffff]`: days where there are any, then hours, minutes and
seconds, and nine digits of a fraction where it is not zero. When it is read, the numbers may be of
any length within their bounds, may carry a plus sign, and the fraction has one to nine digits.

A span is counted in nanoseconds. There are two types of span: signed ones of up to 2^63 - 1
milliseconds either way, and unsigned ones of whole seconds below 2^64 with a fraction.

## Main definitions

* `Span.text`: the text of a span.
* `Span.readSigned?`, `Span.readUnsigned?`: reading the two types.
-/

namespace ItemMapper.Span

/-- Nanoseconds of a second. -/
def second : Nat := 1000000000

/-- Seconds of a day. -/
def day : Nat := 86400

/-- The largest signed span, in nanoseconds. -/
def maxSigned : Nat := (2 ^ 63 - 1) * 1000000

/-- The text of a span without its sign. -/
def unsignedText (nanos : Nat) : String :=
  let seconds := nanos / second
  let days := seconds / day
  let rest := seconds % day
  let fraction := nanos % second
  (if 0 < days then toString days ++ "." else "") ++
    padded 2 (rest / 3600) ++ ":" ++ padded 2 (rest % 3600 / 60) ++ ":" ++ padded 2 (rest % 60) ++
    (if 0 < fraction then "." ++ padded 9 fraction else "")

/-- The text of a span. -/
def text (nanos : Int) : String :=
  (if nanos < 0 then "-" else "") ++ unsignedText nanos.natAbs

/-- An unsigned integer of 64 bits. -/
def readWord? (cs : List Char) : Option Nat :=
  match readNat? (String.ofList cs) with
  | some n => if n < 2 ^ 64 then some n else none
  | none => none

/-- What stands before and after the first occurrence of a character. -/
def splitFirst? (mark : Char) : List Char → Option (List Char × List Char)
  | [] => none
  | c :: rest =>
    if c = mark then some ([], rest)
    else (splitFirst? mark rest).map fun (before, after) => (c :: before, after)

/-- The days of a span and what follows them: they end at a point before the first colon. -/
def readDays? (cs : List Char) : Option (Nat × List Char) := do
  let (hours, _) ← splitFirst? ':' cs
  match splitFirst? '.' hours with
  | none => pure (0, cs)
  | some (days, _) =>
    let n ← readWord? days
    pure (n, cs.drop (days.length + 1))

/-- The fraction in nanoseconds: one to nine digits. -/
def readFraction? (digits : List Char) : Option Nat :=
  if digits ≠ [] ∧ digits.length ≤ 9 ∧ digits.all isDigit then
    some (digitsValue 0 digits * 10 ^ (9 - digits.length))
  else none

/-- The seconds of a minute with their fraction, in nanoseconds. -/
def readSeconds? (cs : List Char) : Option Nat := do
  let (whole, nanos) ← match splitFirst? '.' cs with
    | none => pure (cs, 0)
    | some (whole, fraction) => do
      let nanos ← readFraction? fraction
      pure (whole, nanos)
  let seconds ← readWord? whole
  if seconds < 60 then some (seconds * second + nanos) else none

/-- An unsigned span in nanoseconds; its whole seconds have to fit into 64 bits. -/
def readBody? (cs : List Char) : Option Nat := do
  let (days, clock) ← readDays? cs
  let (hours, rest) ← splitFirst? ':' clock
  let (minutes, seconds) ← splitFirst? ':' rest
  let hours ← readWord? hours
  let minutes ← readWord? minutes
  let nanos ← readSeconds? seconds
  if hours < 24 ∧ minutes < 60 then
    let total := (days * day + hours * 3600 + minutes * 60) * second + nanos
    if total < 2 ^ 64 * second then some total else none
  else none

/-- Reads a signed span. -/
def readSigned? (source : String) : Option Int :=
  let (negative, body) := match source.toList with
    | '-' :: rest => (true, rest)
    | cs => (false, cs)
  match readBody? body with
  | some nanos =>
    if nanos ≤ maxSigned then some (if negative then -(nanos : Int) else nanos) else none
  | none => none

/-- Reads an unsigned span. -/
def readUnsigned? (source : String) : Option Nat :=
  match source.toList with
  | '-' :: _ => none
  | cs => readBody? cs

end ItemMapper.Span
