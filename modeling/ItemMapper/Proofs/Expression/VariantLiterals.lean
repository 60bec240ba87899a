import ItemMapper.Expression.Condition
import ItemMapper.Proofs.Codec.Scalars
import ItemMapper.Proofs.Computation
import ItemMapper.Proofs.Values.Recursion

/-!
# Literals of variants

Beside a member of an enumeration a variant may be given by its number, by a text that is read as the
variant, or as the variant itself. Each of them is shaped to the variant and stands for what the variant
is stored as. A number of no variant is refused there, and so is a text that is not read; other constants
are taken as they are.

## Main definitions

* `EnumType.Denotes`: the literals of a variant.

## Main statements

* `Expr.shaped_of_denotes`: what a literal of a variant stands for.
* `Expr.operand_of_denotes`: how it is written.
-/

namespace ItemMapper

variable {options : CodecOptions} {e : EnumType} {literal : Value} {text : String} {number : Int}

namespace EnumType

/-- The literals of the variant with a number. What its enumeration is called does not matter. -/
inductive Denotes (e : EnumType) (options : CodecOptions) : Value → Int → Prop
  | number {number : Int} (declared : (e.name? number).isSome = true) :
      Denotes e options (.int number) number
  | text {text : String} {number : Int} (read : e.read options (.text text) = .ok number) :
      Denotes e options (.text text) number
  | variant (name : String) {number : Int} (declared : (e.name? number).isSome = true) :
      Denotes e options (.enumeration ⟨⟨name, e.variants⟩, number⟩) number

/-- A variant is stored as its name or as its number. -/
theorem piece_of_declared {name : String} (h : e.name? number = some name) :
    e.piece options number =
      match options.enumEncoding with
      | .name => textPiece (options.enumNaming.apply name)
      | .number => .number (toString number) := by
  rw [piece, stored, h]
  cases options.enumEncoding <;> rfl

/-- A number of no variant is stored as it is. -/
theorem piece_of_undeclared (h : (e.name? number).isSome = false) :
    e.piece options number = .number (toString number) := by
  have hnone : e.name? number = none := by simpa using h
  rw [piece, stored, hnone]
  cases options.enumEncoding <;> rfl

/-- What a variant is stored as does not depend on what its enumeration is called. -/
theorem piece_congr {d : EnumType} (h : d.variants = e.variants) (options : CodecOptions)
    (number : Int) : d.piece options number = e.piece options number := by
  cases d
  cases e
  cases h
  rfl

/-- Nor does what a text is read as. -/
theorem read_text_congr {d : EnumType} (h : d.variants = e.variants) :
    d.read options (.text text) = .ok number ↔ e.read options (.text text) = .ok number := by
  rw [read_text_iff_numberOf?, read_text_iff_numberOf?, numberOf?, numberOf?, h]

theorem isSome_name?_of_mem {variant : String × Int} (h : variant ∈ e.variants) :
    (e.name? variant.2).isSome = true := by
  rw [name?, Option.isSome_map, List.find?_isSome]
  exact ⟨variant, h, beq_self_eq_true _⟩

/-- What a text is read as is one of the variants. -/
theorem isSome_name?_of_read (h : e.read options (.text text) = .ok number) :
    (e.name? number).isSome = true := by
  obtain ⟨variant, hvariant, rfl⟩ := mem_of_read_text h
  exact isSome_name?_of_mem hvariant

theorem Denotes.declared (h : e.Denotes options literal number) : (e.name? number).isSome = true := by
  cases h with
  | number declared | variant _ declared => exact declared
  | text read => exact isSome_name?_of_read read

end EnumType

/-- The type of a member is an enumeration with some variants just if it gives the hint for them. -/
theorem Hint.ofType_eq_variant {type : TypeInfo} : Hint.ofType (some type) = .variant e ↔
    type.kind = .enumeration ∧ type.name = e.typeName ∧ type.variants = some e.variants := by
  cases e with
  | mk name variants =>
    rw [ofType]
    split <;> simp_all

theorem Value.encode_enumeration (options : CodecOptions) (value : EnumValue) :
    (Value.enumeration value).encode options .all =
      .ok (some (value.type.piece options value.number)) := by
  have hpiece : (Value.enumeration value).piece options .all false =
      .ok (value.type.piece options value.number) := by
    rw [piece, EnumType.piece]
    cases value.type.stored options value.number with
    | name text =>
      by_cases htext : text = ""
      · subst htext
        rfl
      · have hne : ¬ text.isEmpty = true := fun h => htext (String.isEmpty_iff.mp h)
        simp only [textPiece, if_neg htext, if_neg hne]
    | number value => rfl
  rw [encode_eq_piece, hpiece]
  simp [Except.map, WriteFlags.keeps_all]

theorem Aliases.stored_enumeration (options : CodecOptions) (value : EnumValue) :
    stored options (.enumeration value) = .ok (value.type.piece options value.number) := by
  rw [stored, Value.encode_enumeration]
  rfl

theorem Value.toEnum_int_of_declared (h : (e.name? number).isSome = true) :
    Value.toEnum e (.int number) = .ok (.enumeration ⟨e, number⟩) := by
  simp [toEnum, variantNumber?, Option.filter, h]

theorem Value.toEnum_int_of_undeclared (h : (e.name? number).isSome = false) :
    ∃ error, Value.toEnum e (.int number) = .error error := by
  simp [toEnum, variantNumber?, Option.filter, h]

namespace Expr

/-- **A literal of a variant stands for what the variant is stored as.** -/
theorem shaped_of_denotes (h : e.Denotes options literal number) :
    shaped options literal (.variant e) = .ok (e.piece options number) := by
  cases h with
  | number declared =>
    rw [shaped, shape, Value.toEnum_int_of_declared declared]
    exact Aliases.stored_enumeration options ⟨e, number⟩
  | text read =>
    rw [shaped, shape, read]
    exact Aliases.stored_enumeration options ⟨e, number⟩
  | variant name declared =>
    have hsame : (⟨name, e.variants⟩ : EnumType).piece options number = e.piece options number :=
      EnumType.piece_congr rfl options number
    rw [← hsame]
    exact Aliases.stored_enumeration options ⟨⟨name, e.variants⟩, number⟩

theorem shaped_int_of_undeclared (h : (e.name? number).isSome = false) :
    ∃ error, shaped options (.int number) (.variant e) = .error error := by
  obtain ⟨error, herror⟩ := Value.toEnum_int_of_undeclared h
  rw [shaped, shape, herror]
  exact ⟨error, rfl⟩

theorem shaped_text_of_unread {error : Error} (h : e.read options (.text text) = .error error) :
    shaped options (.text text) (.variant e) = .error error := by
  rw [shaped, shape, h]
  rfl

/-- A literal of a variant is written as the placeholder of what the variant is stored as. -/
theorem operand_of_denotes (scope : Scope) (h : e.Denotes scope.options literal number) :
    operand scope (.variant e) (.constant literal) =
      Aliases.valueAlias (e.piece scope.options number) := by
  rw [operand, constantText, shaped_of_denotes h]
  rfl

end Expr

end ItemMapper
