import ItemMapper.Expression.Basic
import ItemMapper.Value.Encoding

/-!
# Placeholders

An expression speaks of names and values by placeholders, `#p0`, `#p1` and `:v0`, `:v1` and so on, and
comes with tables that say what they stand for. Equal names share a placeholder, and equal values do.
Raw text brings placeholders of its own; the generated ones avoid them.

## Main definitions

* `Aliases`: the tables.
* `Aliases.nameAlias`, `Aliases.valueAlias`: the placeholder of a name or of a value.
* `Aliases.mergeRaw`: takes over the placeholders of raw text.
-/

namespace ItemMapper

/-- What the placeholders of expressions stand for. -/
structure Aliases where
  /-- The names, by placeholders. -/
  names : Fields String
  /-- The placeholders that new uses of a name get, latest first. -/
  nameAliases : List (String × String)
  /-- The values, by placeholders. -/
  values : Fields AttributeValue
  /-- The placeholders that new uses of a value get, latest first. -/
  valueAliases : List (AttributeValue × String)
  /-- Every number below this was tried for a name. -/
  nextName : Nat
  /-- Every number below this was tried for a value. -/
  nextValue : Nat
deriving Repr

/-- A computation that may add placeholders; those that it added before a failure stay. -/
abbrev AliasM := EStateM Error Aliases

/-- A result, without adding anything. -/
def AliasM.ofExcept {α : Type} : Except Error α → AliasM α
  | .ok value => pure value
  | .error e => throw e

namespace Aliases

/-- No placeholders. -/
def empty : Aliases := ⟨[], [], [], [], 0, 0⟩

instance : Inhabited Aliases := ⟨empty⟩

/-- The placeholder for a name with a number. -/
def nameMark (number : Nat) : String := s!"#p{number}"

/-- The placeholder for a value with a number. -/
def valueMark (number : Nat) : String := s!":v{number}"

/-- The first number from `start` on that is not taken, where at most `bound` numbers are. -/
def firstFree (taken : Nat → Bool) (start : Nat) : Nat → Nat
  | 0 => start
  | bound + 1 => if taken start then firstFree taken (start + 1) bound else start

/-- The placeholder that uses of a value get. A value is looked up without regard to the order inside
sets. -/
def aliasOf? (table : List (AttributeValue × String)) (value : AttributeValue) : Option String :=
  (table.find? fun entry => entry.1.same value).map (·.2)

/-- The tables with a new placeholder for a name. -/
def bindName (a : Aliases) (placeholder name : String) : Aliases :=
  { a with
    names := a.names.insert placeholder name
    nameAliases :=
      if (a.nameAliases.lookup name).isSome then a.nameAliases
      else (name, placeholder) :: a.nameAliases }

/-- The tables with a new placeholder for a value. -/
def bindValue (a : Aliases) (placeholder : String) (value : AttributeValue) : Aliases :=
  { a with
    values := a.values.insert placeholder value
    valueAliases :=
      if (aliasOf? a.valueAliases value).isSome then a.valueAliases
      else (value, placeholder) :: a.valueAliases }

/-- The placeholder of a name, a new one where it has none. -/
def nameAlias (name : String) : AliasM String := do
  let a ← get
  match a.nameAliases.lookup name with
  | some placeholder => pure placeholder
  | none => do
    let number := firstFree (fun i => a.names.contains (nameMark i)) a.nextName a.names.length
    set { a.bindName (nameMark number) name with nextName := number + 1 }
    pure (nameMark number)

/-- The placeholder of a value, a new one where it has none. -/
def valueAlias (value : AttributeValue) : AliasM String := do
  let a ← get
  match aliasOf? a.valueAliases value with
  | some placeholder => pure placeholder
  | none => do
    let number := firstFree (fun i => a.values.contains (valueMark i)) a.nextValue a.values.length
    set { a.bindValue (valueMark number) value with nextValue := number + 1 }
    pure (valueMark number)

/-- Takes over a placeholder of raw text for a name. It may stand for nothing else already. -/
def mergeName (placeholder name : String) : AliasM Unit := do
  let a ← get
  match a.names.get? placeholder with
  | some present => if present = name then pure () else throw ↑(Cause.aliasConflict placeholder)
  | none => set (a.bindName placeholder name)

/-- The attribute value of a constant, which is null where nothing is stored. -/
def stored (options : CodecOptions) (value : Value) : Except Error AttributeValue :=
  (value.encode options .all).map (·.getD (.null true))

/-- Takes over a placeholder of raw text for a value. It may stand for no other value already. -/
def mergeValue (options : CodecOptions) (placeholder : String) (value : Value) : AliasM Unit := do
  let value ← AliasM.ofExcept (stored options value)
  let a ← get
  match a.values.get? placeholder with
  | some present => if present.same value then pure () else throw ↑(Cause.aliasConflict placeholder)
  | none => set (a.bindValue placeholder value)

/-- Takes over all placeholders for names. -/
def mergeNames : List (String × String) → AliasM Unit
  | [] => pure ()
  | (placeholder, name) :: rest => do
    mergeName placeholder name
    mergeNames rest

/-- Takes over all placeholders for values. -/
def mergeValues (options : CodecOptions) : List (String × Value) → AliasM Unit
  | [] => pure ()
  | (placeholder, value) :: rest => do
    mergeValue options placeholder value
    mergeValues options rest

/-- Takes over the placeholders of raw text, names first. -/
def mergeRaw (options : CodecOptions) (raw : RawExpression) : AliasM Unit := do
  mergeNames raw.names
  mergeValues options raw.values

end Aliases

end ItemMapper
