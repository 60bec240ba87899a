import ItemMapper.Json.Basic
import ItemMapper.Number.Decimal

/-!
# Reading JSON text

The grammar is the usual one: blanks are spaces, tabs and line ends, numbers have no leading
zeros, strings hold no raw controls, and nothing but blanks follows the value.

## Main definitions

* `Json.Document`: the tree of a text and whether anything but blanks follows it.
* `Json.Document.ofText`: reads a text.
-/

namespace ItemMapper.Json

/-- The tree of a text. -/
structure Document where
  root : Json
  /-- Whether the text ends after the root. -/
  complete : Bool
deriving Repr

/-- The characters from the first that is not a JSON blank. -/
def skipBlanks (cs : List Char) : List Char :=
  cs.dropWhile fun c => c = ' ' || c = '\t' || c = '\n' || c = '\r'

/-- The value of a hexadecimal digit. -/
def hexDigit? (c : Char) : Option Nat :=
  if '0' ≤ c ∧ c ≤ '9' then some (c.toNat - '0'.toNat)
  else if 'a' ≤ c ∧ c ≤ 'f' then some (c.toNat - 'a'.toNat + 10)
  else if 'A' ≤ c ∧ c ≤ 'F' then some (c.toNat - 'A'.toNat + 10)
  else none

/-- The code unit of four hexadecimal digits. -/
def codeUnit? (a b c d : Char) : Option Nat := do
  let a ← hexDigit? a
  let b ← hexDigit? b
  let c ← hexDigit? c
  let d ← hexDigit? d
  pure (((a * 16 + b) * 16 + c) * 16 + d)

/-- The character of a one-letter escape. -/
def simpleEscape? (c : Char) : Option Char :=
  match c with
  | '"' => some '"'
  | '\\' => some '\\'
  | '/' => some '/'
  | 'b' => some '\x08'
  | 'f' => some '\x0c'
  | 'n' => some '\n'
  | 'r' => some '\r'
  | 't' => some '\t'
  | _ => none

/-- A string body up to its closing quote: the characters in reverse, none of them where an escape
denotes none, and the rest of the text. No result where the text stops being JSON. -/
def readString (seen : Option (List Char)) : Nat → List Char → Option (Option String × List Char)
  | 0, _ => none
  | fuel + 1, cs =>
    match cs with
    | [] => none
    | '"' :: rest => some (seen.map fun cs => String.ofList cs.reverse, rest)
    | '\\' :: 'u' :: a :: b :: c :: d :: rest =>
      match codeUnit? a b c d with
      | none => none
      | some high =>
        if 0xD800 ≤ high ∧ high ≤ 0xDBFF then
          match rest with
          | '\\' :: 'u' :: a' :: b' :: c' :: d' :: rest' =>
            match codeUnit? a' b' c' d' with
            | none => none
            | some low =>
              if 0xDC00 ≤ low ∧ low ≤ 0xDFFF then
                let code := 0x10000 + (high - 0xD800) * 0x400 + (low - 0xDC00)
                readString (seen.map (Char.ofNat code :: ·)) fuel rest'
              else readString none fuel rest
          | _ => readString none fuel rest
        else if 0xDC00 ≤ high ∧ high ≤ 0xDFFF then readString none fuel rest
        else readString (seen.map (Char.ofNat high :: ·)) fuel rest
    | '\\' :: c :: rest =>
      match simpleEscape? c with
      | none => none
      | some c => readString (seen.map (c :: ·)) fuel rest
    | c :: rest =>
      if c.toNat < 0x20 ∨ c = '\\' then none else readString (seen.map (c :: ·)) fuel rest

/-- The digits at the front, of which there has to be one. -/
def takeDigits? (cs : List Char) : Option (List Char × List Char) :=
  let digits := cs.takeWhile isDigit
  if digits.isEmpty then none else some (digits, cs.dropWhile isDigit)

/-- The whole part of a number: a zero, or digits that start with another one. -/
def takeWhole? (cs : List Char) : Option (List Char × List Char) := do
  let (digits, rest) ← takeDigits? cs
  if digits.head? = some '0' ∧ digits.length ≠ 1 then none else some (digits, rest)

/-- The fraction of a number with its point, if there is one. -/
def takeFraction? : List Char → Option (List Char × List Char)
  | '.' :: rest => do
    let (digits, rest) ← takeDigits? rest
    pure ('.' :: digits, rest)
  | rest => some ([], rest)

/-- The exponent of a number with its letter and sign, if there is one. -/
def takeExponent? : List Char → Option (List Char × List Char)
  | c :: rest =>
    if c = 'e' ∨ c = 'E' then
      match rest with
      | '+' :: tail => (takeDigits? tail).map fun (ds, rest) => (c :: '+' :: ds, rest)
      | '-' :: tail => (takeDigits? tail).map fun (ds, rest) => (c :: '-' :: ds, rest)
      | tail => (takeDigits? tail).map fun (ds, rest) => (c :: ds, rest)
    else some ([], c :: rest)
  | [] => some ([], [])

/-- The text of a number at the front. -/
def readNumber (cs : List Char) : Option (String × List Char) := do
  let (sign, rest) := match cs with
    | '-' :: rest => (['-'], rest)
    | rest => ([], rest)
  let (whole, rest) ← takeWhole? rest
  let (fraction, rest) ← takeFraction? rest
  let (exponent, rest) ← takeExponent? rest
  pure (String.ofList (sign ++ whole ++ fraction ++ exponent), rest)

/-- The members up to the first key that denotes no text. -/
def namedMembers : List (Option String × Json) → List (String × Json)
  | (some key, value) :: rest => (key, value) :: namedMembers rest
  | _ => []

/-- The object of members that were read up to its closing brace, or to where the text stops being
JSON. -/
def objectOf (members : List (Option String × Json)) (complete : Bool) : Json :=
  object (namedMembers members) <|
    if !complete then .broken else if members.all (·.1.isSome) then .closed else .garbled

mutual
/-- The value at the front and what follows it; nothing follows a value that is not whole. The fuel
bounds the depth and the length, which the text does too. -/
def readValue : Nat → List Char → Json × Option (List Char)
  | 0, _ => (broken, none)
  | fuel + 1, cs =>
    match skipBlanks cs with
    | 'n' :: 'u' :: 'l' :: 'l' :: rest => (null, some rest)
    | 't' :: 'r' :: 'u' :: 'e' :: rest => (bool true, some rest)
    | 'f' :: 'a' :: 'l' :: 's' :: 'e' :: rest => (bool false, some rest)
    | '"' :: rest =>
      match readString (some []) (rest.length + 1) rest with
      | none => (broken, none)
      | some (none, rest) => (garbled, some rest)
      | some (some text, rest) => (string text, some rest)
    | '[' :: rest =>
      match skipBlanks rest with
      | ']' :: rest => (array [] true, some rest)
      | rest =>
        let (items, rest) := readItems fuel rest
        (array items rest.isSome, rest)
    | '\x7b' :: rest =>
      match skipBlanks rest with
      | '\x7d' :: rest => (object [] .closed, some rest)
      | '"' :: rest =>
        let (members, rest) := readMembers fuel ('"' :: rest)
        (objectOf members rest.isSome, rest)
      | rest => (unkeyed (readValue fuel rest).1, none)
    | rest =>
      match readNumber rest with
      | none => (broken, none)
      | some (text, rest) => (number text, some rest)

/-- The items of an array up to its end, the first of them in front. -/
def readItems : Nat → List Char → List Json × Option (List Char)
  | 0, _ => ([], none)
  | fuel + 1, cs =>
    match readValue fuel cs with
    | (item, none) => ([item], none)
    | (item, some rest) =>
      match skipBlanks rest with
      | ']' :: rest => ([item], some rest)
      | ',' :: rest =>
        match skipBlanks rest with
        | ']' :: _ => ([item], none)
        | [] => ([item], none)
        | rest =>
          let (items, rest) := readItems fuel rest
          (item :: items, rest)
      | _ => ([item], none)

/-- The members of an object up to its end, the first of them in front; a key with an escape that denotes
no character is none. -/
def readMembers : Nat → List Char → List (Option String × Json) × Option (List Char)
  | 0, _ => ([], none)
  | fuel + 1, cs =>
    match skipBlanks cs with
    | '"' :: rest =>
      match readString (some []) (rest.length + 1) rest with
      | some (key, rest) =>
        match skipBlanks rest with
        | ':' :: rest =>
          match readValue fuel rest with
          | (value, none) => ([(key, value)], none)
          | (value, some rest) =>
            match skipBlanks rest with
            | '\x7d' :: rest => ([(key, value)], some rest)
            | ',' :: rest =>
              let (members, rest) := readMembers fuel rest
              ((key, value) :: members, rest)
            | _ => ([(key, value)], none)
        | _ => ([(key, broken)], none)
      | _ => ([], none)
    | _ => ([], none)
end

/-- The tree of a text. -/
def Document.ofText (text : String) : Document :=
  let cs := text.toList
  match readValue (2 * cs.length + 2) cs with
  | (root, none) => ⟨root, false⟩
  | (root, some rest) => ⟨root, (skipBlanks rest).isEmpty⟩

end ItemMapper.Json
