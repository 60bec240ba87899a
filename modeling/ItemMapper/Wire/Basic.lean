import ItemMapper.Bytes.Base64
import ItemMapper.Json.Number
import ItemMapper.Json.Reader
import ItemMapper.Text.Quoted

/-!
# Reading shapes out of JSON

What the store sends is read from JSON trees by shape: texts, truth values, sequences, words out of
a fixed list and records. A reader walks the tree in the order of the text, so of two faults it
reports the one that comes first. Containers may be nested 127 deep; what a record does not know it
skips at any depth.

## Main definitions

* `Wire.Error`: why a tree was refused, with `Wire.Error.message?`.
* `Wire.Reader`: readers, given how much deeper the tree may still go.
* `Wire.text`, `Wire.truth`, `Wire.sequence`, `Wire.word`, `Wire.record`: the shapes.
-/

namespace ItemMapper.Wire

/-- What stands where something else was expected. -/
inductive Found where
  | null
  | truth (value : Bool)
  | integer (value : Int)
  | floating (value : Floating)
  | text (value : String)
  | sequence
  | map
  /-- A word where a word with contents was expected. -/
  | bareWord
deriving Repr

/-- The description of what stands there. -/
def Found.describe : Found → String
  | null => "null"
  | truth value => s!"boolean `{value}`"
  | integer value => s!"integer `{value}`"
  | floating value => s!"floating point `{JsonNumber.floatingText value}`"
  | text value => s!"string {quoted value}"
  | sequence => "sequence"
  | map => "map"
  | bareWord => "unit variant"

/-- Why a text was refused. -/
inductive Error where
  /-- The text is not JSON, or is nested too deeply, or a number is too large. -/
  | malformed
  | unexpected (found : Found) (expected : String)
  | unknownField (name : String) (known : List String)
  | unknownWord (name : String) (known : List String)
  | missingField (name : String)
  | duplicateField (name : String)
  | tooShort (count : Nat) (expected : String)
  | base64 (error : Base64.Error)
  /-- An attribute value without a tag. -/
  | noTag
  /-- An attribute value with a second tag. -/
  | secondTag (name : String)
deriving Repr

/-- A list of names as alternatives. -/
def alternatives : List String → String
  | [] => "nothing"
  | [a] => s!"`{a}`"
  | [a, b] => s!"`{a}` or `{b}`"
  | names => "one of " ++ ", ".intercalate (names.map fun name => s!"`{name}`")

/-- The description of a refusal; a text that is not JSON has none. -/
def Error.message? : Error → Option String
  | malformed => none
  | unexpected found expected => s!"invalid type: {found.describe}, expected {expected}"
  | unknownField name known => s!"unknown field `{name}`, expected {alternatives known}"
  | unknownWord name known => s!"unknown variant `{name}`, expected {alternatives known}"
  | missingField name => s!"missing field `{name}`"
  | duplicateField name => s!"duplicate field `{name}`"
  | tooShort count expected => s!"invalid length {count}, expected {expected}"
  | base64 error => error.message
  | noTag => "AttributeValue must have exactly one key"
  | secondTag name => s!"AttributeValue must have exactly one key, found extra key '{name}'"

/-- A reader of one shape, given how many containers deep the tree may still go. -/
abbrev Reader (α : Type) := Nat → Json → Except Error α

/-- How many containers may be nested. -/
def depthLimit : Nat := 127

/-- The refusal of a tree that is not of the expected shape. -/
def mismatch (expected : String) : Json → Error
  | .null => .unexpected .null expected
  | .bool value => .unexpected (.truth value) expected
  | .string value => .unexpected (.text value) expected
  | .array _ _ => .unexpected .sequence expected
  | .object _ _ | .unkeyed _ => .unexpected .map expected
  | .garbled | .broken => .malformed
  | .number digits =>
    match JsonNumber.ofText digits with
    | .integer value => .unexpected (.integer value) expected
    | .floating value => .unexpected (.floating value) expected
    | .outOfRange => .malformed

/-- Reads a text. -/
def text : Reader String := fun _ j =>
  match j with
  | .string value => .ok value
  | j => .error (mismatch "a string" j)

/-- Reads a truth value. -/
def truth : Reader Bool := fun _ j =>
  match j with
  | .bool value => .ok value
  | j => .error (mismatch "a boolean" j)

/-- Reads null as nothing and everything else by a reader. -/
def optional {α : Type} (read : Reader α) : Reader (Option α) := fun depth j =>
  match j with
  | .null => .ok none
  | j => (read depth j).map some

/-- Reads every item, and then asks that the container was closed. -/
def readAll {α : Type} (read : Json → Except Error α) (closed : Bool) :
    List Json → Except Error (List α)
  | [] => if closed then .ok [] else .error .malformed
  | item :: rest => do
    let value ← read item
    let values ← readAll read closed rest
    pure (value :: values)

/-- Reads a sequence of any length. -/
def sequence {α : Type} (read : Reader α) : Reader (List α) := fun depth j =>
  match depth, j with
  | 0, .array _ _ => .error .malformed
  | depth + 1, .array items closed => readAll (read depth) closed items
  | _, j => .error (mismatch "a sequence" j)

/-- The value of a word of the list. -/
def lookupWord {α : Type} (words : List (String × α)) (name : String) : Except Error α :=
  match words.lookup name with
  | some value => .ok value
  | none => .error (.unknownWord name (words.map (·.1)))

/-- What is expected where a word should stand as a key. -/
def wordExpectation : String := "variant identifier"

/-- Reads one of a list of words; the word may also be the only key of an object, with null under
it. -/
def word {α : Type} (words : List (String × α)) : Reader α := fun depth j =>
  match depth, j with
  | _, .string name => lookupWord words name
  | _ + 1, .object ((name, payload) :: rest) ending => do
    let value ← lookupWord words name
    match payload with
    | .null => if rest.isEmpty && ending.isClosed then .ok value else .error .malformed
    | payload => .error (mismatch "unit" payload)
  | _ + 1, .unkeyed key => .error (mismatch wordExpectation key)
  | _, _ => .error .malformed

/-- One field of a record whose state so far is a `σ`. -/
structure Field (σ : Type) where
  name : String
  /-- Whether a record given as an array may stop before this field. -/
  optional : Bool
  /-- Whether the field has been read. -/
  isSet : σ → Bool
  /-- Reads the field into the state. -/
  read : σ → Reader σ

/-- Reads the members of an object into a record; unknown members are skipped. -/
def readMembers {σ : Type} (fields : List (Field σ)) (depth : Nat) (closed : Bool) (state : σ) :
    List (String × Json) → Except Error σ
  | [] => if closed then .ok state else .error .malformed
  | (name, value) :: rest =>
    match fields.find? (·.name == name) with
    | none =>
      if value.isWhole then readMembers fields depth closed state rest else .error .malformed
    | some field =>
      if field.isSet state then .error (.duplicateField name)
      else do
        let state ← field.read state depth value
        readMembers fields depth closed state rest

/-- Reads the items of an array into a record, field by field. -/
def readPositions {σ : Type} (expected : String) (depth : Nat) (closed : Bool) :
    List (Field σ) → Nat → σ → List Json → Except Error σ
  | [], _, state, items => if items.isEmpty && closed then .ok state else .error .malformed
  | field :: fields, count, state, item :: items => do
    let state ← field.read state depth item
    readPositions expected depth closed fields (count + 1) state items
  | field :: fields, count, state, [] =>
    if !closed then .error .malformed
    else if field.optional then readPositions expected depth closed fields (count + 1) state []
    else .error (.tooShort count expected)

/-- Reads a record, which may be given as an object or as an array of its fields in order. -/
def record {σ α : Type} (name : String) (fields : List (Field σ)) (start : σ)
    (finish : σ → Except Error α) : Reader α := fun depth j =>
  let plural := if fields.length = 1 then "element" else "elements"
  match depth, j with
  | depth + 1, .object members ending => do
    let state ← readMembers fields depth ending.isClosed start members
    finish state
  | depth + 1, .array items closed => do
    let expected := s!"{name} with {fields.length} {plural}"
    let state ← readPositions expected depth closed fields 0 start items
    finish state
  | 0, .object _ _ | 0, .array _ _ | _, .unkeyed _ => .error .malformed
  | _, j => .error (mismatch name j)

/-- A field that has to be there. -/
def required {α : Type} (name : String) : Option α → Except Error α
  | some value => .ok value
  | none => .error (.missingField name)

/-- Reads a whole text. -/
def readText {α : Type} (read : Reader α) (source : String) : Except Error α := do
  let document := Json.Document.ofText source
  let value ← read depthLimit document.root
  if document.complete then .ok value else .error .malformed

end ItemMapper.Wire
