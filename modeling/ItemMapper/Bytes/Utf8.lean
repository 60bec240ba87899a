import ItemMapper.Bytes.Basic

/-!
# Reading UTF-8

## Main definitions

* `Utf8.decode`: the text of a byte string, or where the first byte stands that no text explains.
-/

namespace ItemMapper.Utf8

/-- Where a byte string stops being UTF-8. -/
inductive Error where
  /-- The bytes from `index` on, `length` of them, begin no character. -/
  | invalid (index length : Nat)
  /-- The last character, which starts at `index`, is cut off. -/
  | incomplete (index : Nat)
deriving DecidableEq, Repr

/-- The description of a refusal. -/
def Error.message : Error → String
  | invalid index length => s!"invalid utf-8 sequence of {length} bytes from index {index}"
  | incomplete index => s!"incomplete utf-8 byte sequence from index {index}"

/-- Whether a byte continues a character. -/
def isTail (b : Nat) : Bool := 0x80 ≤ b && b ≤ 0xBF

/-- The second bytes that may follow a first byte; the bounds keep out overlong forms, surrogates
and numbers that are too large. -/
def isSecond (first second : Nat) : Bool :=
  if first = 0xE0 then 0xA0 ≤ second && second ≤ 0xBF
  else if first = 0xED then 0x80 ≤ second && second ≤ 0x9F
  else if first = 0xF0 then 0x90 ≤ second && second ≤ 0xBF
  else if first = 0xF4 then 0x80 ≤ second && second ≤ 0x8F
  else isTail second

/-- The first character of a non-empty byte string, which starts at `index`, and the bytes after
its first one that it takes. -/
def readChar (index first : Nat) (rest : List Nat) : Except Error (Nat × Nat) :=
  if first < 0x80 then .ok (first, 0)
  else if 0xC2 ≤ first ∧ first ≤ 0xDF then
    match rest with
    | [] => .error (.incomplete index)
    | b :: _ => if isTail b then .ok ((first - 0xC0) * 64 + (b - 0x80), 1)
      else .error (.invalid index 1)
  else if 0xE0 ≤ first ∧ first ≤ 0xEF then
    match rest with
    | [] => .error (.incomplete index)
    | b :: rest =>
      if !isSecond first b then .error (.invalid index 1)
      else match rest with
        | [] => .error (.incomplete index)
        | c :: _ =>
          if isTail c then .ok (((first - 0xE0) * 64 + (b - 0x80)) * 64 + (c - 0x80), 2)
          else .error (.invalid index 2)
  else if 0xF0 ≤ first ∧ first ≤ 0xF4 then
    match rest with
    | [] => .error (.incomplete index)
    | b :: rest =>
      if !isSecond first b then .error (.invalid index 1)
      else match rest with
        | [] => .error (.incomplete index)
        | c :: rest =>
          if !isTail c then .error (.invalid index 2)
          else match rest with
            | [] => .error (.incomplete index)
            | d :: _ =>
              if isTail d then
                .ok ((((first - 0xF0) * 64 + (b - 0x80)) * 64 + (c - 0x80)) * 64 + (d - 0x80), 3)
              else .error (.invalid index 3)
  else .error (.invalid index 1)

/-- The characters of a byte string that starts at `index`; `skip` bytes of it already belong to
the character before. -/
def decodeFrom (index skip : Nat) : Bytes → Except Error (List Char)
  | [] => .ok []
  | byte :: rest =>
    match skip with
    | skip + 1 => decodeFrom (index + 1) skip rest
    | 0 =>
      match readChar index byte.toNat ((rest.take 3).map UInt8.toNat) with
      | .error e => .error e
      | .ok (code, taken) =>
        (decodeFrom (index + 1) taken rest).map (Char.ofNat code :: ·)

/-- The text of a byte string. -/
def decode (bytes : Bytes) : Except Error String := (decodeFrom 0 0 bytes).map String.ofList

end ItemMapper.Utf8
