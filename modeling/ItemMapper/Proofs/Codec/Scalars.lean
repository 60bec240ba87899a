import Mathlib.Data.List.Basic
import ItemMapper.Proofs.Codec.Families
import ItemMapper.Proofs.Computation
import ItemMapper.Proofs.Number.Decimal
import ItemMapper.Proofs.Time.Uuid
import ItemMapper.Proofs.Values.Equality
import ItemMapper.Proofs.Writer.Slots

/-!
# Scalars read back

What a scalar or the variant of an enumeration is stored as, and that it is read back.

## Main definitions

* `Scalar.piece?`, `EnumType.piece`: the stored values.
* `EnumType.ToldApart`: each variant is read back.

## Main statements

* `Codec.readLeaf_piece`: a scalar is read back.
* `Codec.textual_piece_of_readLeaf`: what is read of formatted text is stored as before.
* `EnumType.WellFormed.toldApart`: a variant is read back, by its name or by its number.
-/

namespace ItemMapper

/-! ### Stored scalars -/

/-- What a text is stored as. -/
def textPiece (s : String) : AttributeValue := if s.isEmpty then .null true else .text s

/-- What a byte string is stored as. -/
def bytesPiece (bytes : Bytes) : AttributeValue :=
  if bytes.isEmpty then .null true else .binary bytes

theorem Writer.writeText_eq (s : String) : Writer.writeText s = Writer.write (textPiece s) := by
  rw [Writer.writeText, textPiece]
  split <;> rfl

theorem Writer.writeBinary_eq (bytes : Bytes) :
    Writer.writeBinary bytes = Writer.write (bytesPiece bytes) := by
  rw [Writer.writeBinary, bytesPiece]
  split <;> rfl

/-- What a scalar is stored as. -/
def Scalar.piece? : Scalar → Datum → Option AttributeValue
  | .bool, .bool value => some (.bool value)
  | .int _, .int value => some (.number (toString value))
  | .float type, .float value =>
    if value.isFinite then some (.number (value.print type.format)) else none
  | .char, .char value => some (textPiece (String.singleton value))
  | .text, .text value => some (textPiece value)
  | .binary, .binary bytes => some (bytesPiece bytes)
  | .textual _, .stamp value => some (textPiece value.text)
  | _, _ => none

/-- What the variant with a number is stored as. -/
def EnumType.piece (e : EnumType) (options : CodecOptions) (number : Int) : AttributeValue :=
  match e.stored options number with
  | .name text => textPiece text
  | .number value => .number (toString value)

theorem EnumType.write_eq (e : EnumType) (options : CodecOptions) (number : Int) :
    e.write options number = Writer.write (e.piece options number) := by
  rw [EnumType.write, EnumType.piece]
  cases e.stored options number with
  | name text => exact Writer.writeText_eq text
  | number value => rfl

namespace Codec

variable {c : Codec}

/-- A refusal is as much as having nothing to store. -/
theorem refused_iff {e : Error} {w w' : Writer} {P : AttributeValue → Prop} :
    (.error e w : EStateM.Result Error Writer Unit) = .ok () w' ↔
      ∃ written, (none : Option AttributeValue) = some written ∧ P written :=
  ⟨nofun, nofun⟩

/-- A scalar fills its slot with what it is stored as, or is not written at all. -/
theorem writeLeaf_eq_ok (hc : c.converters = Converter.builtins) {type : Scalar} {value : Datum}
    {w w' : Writer} :
    c.writeLeaf (.scalar type) value w = .ok () w' ↔
      ∃ written, type.piece? value = some written ∧ Writer.write written w = .ok () w' := by
  unfold writeLeaf
  rw [hc]
  cases type with
  | bool =>
    cases value with
    | bool value => simp [Scalar.piece?]; rfl
    | _ => exact refused_iff
  | int type =>
    cases value with
    | int value => simp [Scalar.piece?]; rfl
    | _ => exact refused_iff
  | float type =>
    cases value with
    | float value =>
      change Writer.writeFloat type.format value w = .ok () w' ↔ _
      rw [Writer.writeFloat, Scalar.piece?]
      cases value.isFinite with
      | false => simp
      | true => simp [Writer.writeNumber]
    | _ => exact refused_iff
  | char =>
    cases value with
    | char value =>
      change Writer.writeText (String.singleton value) w = .ok () w' ↔ _
      simp [Scalar.piece?, Writer.writeText_eq]
    | _ => exact refused_iff
  | text =>
    cases value with
    | text value =>
      change Writer.writeText value w = .ok () w' ↔ _
      simp [Scalar.piece?, Writer.writeText_eq]
    | _ => exact refused_iff
  | binary =>
    cases value with
    | binary bytes =>
      change Writer.writeBinary bytes w = .ok () w' ↔ _
      simp [Scalar.piece?, Writer.writeBinary_eq]
    | _ => exact refused_iff
  | textual type =>
    cases value with
    | stamp value =>
      have hfirst : Converter.first? Converter.builtins (.scalar (.textual type)) =
          some Converter.textual := by cases type <;> rfl
      have hwrite : Converter.textual.write ⟨.scalar (.textual type), .stamp value⟩ =
          Writer.writeText value.text := by cases type <;> rfl
      rw [hfirst, Converter.writeBy]
      simp only [hwrite, Writer.writeText_eq, Scalar.piece?, Option.some.injEq, exists_eq_left']
    | _ => cases type <;> exact refused_iff

end Codec

/-- The converters that are always there put what a scalar of their types is stored as into the slot. -/
theorem Converter.writeBy_builtins {type : Scalar} {value : Datum} {written : AttributeValue}
    (h : type.piece? value = some written) (name : String) :
    writeBy (first? builtins (.scalar type)) name ⟨.scalar type, value⟩ = Writer.write written := by
  cases type with
  | float type =>
    cases value with
    | float value =>
      have hfinite : value.isFinite = true := by
        rw [Scalar.piece?] at h
        split at h
        · assumption
        · cases h
      rw [Scalar.piece?, if_pos hfinite] at h
      cases h
      funext w
      change Writer.writeFloat type.format value w = _
      rw [Writer.writeFloat, if_pos hfinite]
      rfl
    | _ => cases h
  | textual type =>
    cases value with
    | stamp value =>
      cases h
      rw [← Writer.writeText_eq]
      cases type <;> rfl
    | _ => cases h
  | char =>
    cases value with
    | char value =>
      cases h
      exact Writer.writeText_eq _
    | _ => cases h
  | text =>
    cases value with
    | text value =>
      cases h
      exact Writer.writeText_eq _
    | _ => cases h
  | binary =>
    cases value with
    | binary bytes =>
      cases h
      exact Writer.writeBinary_eq _
    | _ => cases h
  | bool =>
    cases value with
    | bool value =>
      cases h
      rfl
    | _ => cases h
  | int type =>
    cases value with
    | int value =>
      cases h
      rfl
    | _ => cases h

/-! ### Scalars read back -/

theorem IntType.read?_toString {t : IntType} {value : Int} (hlow : t.low ≤ value)
    (hhigh : value ≤ t.high) : t.read? (toString value) = some value := by
  have hcheck : t.check? value = some value := if_pos ⟨hlow, hhigh⟩
  have hdigits : t.readDigits? (toString value) = some value := by
    unfold readDigits?
    cases hsigned : t.isSigned with
    | true =>
      simp only [if_true, readInt?_toString]
      exact hcheck
    | false =>
      rw [low, hsigned] at hlow
      obtain ⟨n, rfl⟩ := Int.eq_ofNat_of_zero_le hlow
      have hread : readNat? (toString (n : Int)) = some n := readNat?_toString n
      simp only [hread]
      exact hcheck
  rw [read?]
  simp only [trim_toString, hdigits]

theorem singleton_ne_empty (ch : Char) : String.singleton ch ≠ "" := by
  intro h
  rw [← String.toList_inj, String.toList_singleton] at h
  cases h

theorem textPiece_isVoid {s : String} (h : (textPiece s).isVoid = true) : s = "" := by
  rw [textPiece] at h
  split at h
  · rename_i hempty
    exact String.isEmpty_iff.mp hempty
  · cases h

theorem bytesPiece_isVoid {bytes : Bytes} (h : (bytesPiece bytes).isVoid = true) : bytes = [] := by
  rw [bytesPiece] at h
  split at h
  · rename_i hempty
    exact List.isEmpty_iff.mp hempty
  · cases h

theorem Stamp.text_ne_empty (s : Stamp) : s.text ≠ "" := by
  intro h
  have hlength := congrArg String.length h
  cases s with
  | span nanos => simp [text, Span.text, Span.unsignedText] at hlength
  | uuid value => simp [text, Uuid.text] at hlength
  | instant value => simp [text, Instant.text, DateTime.text] at hlength
  | date value => simp [text, Date.text] at hlength
  | dateTime value => simp [text, DateTime.text] at hlength
  | clock value => simp [text, Clock.text] at hlength

/-- What is read of the text of a date, a time or an identifier has the same text. -/
theorem Scalar.Holds.keepsText {type : TextType} {s : Stamp}
    (h : (Scalar.textual type).Holds (.stamp s)) : s.KeepsText type := by
  obtain ⟨hfits, hkeeps⟩ := h
  by_cases huuid : type = .uuid
  · subst huuid
    cases s with
    | uuid value =>
      intro read hread
      rw [TextType.read?, Stamp.text, Uuid.read?_text hfits, Option.map_some,
        Option.some.injEq] at hread
      rw [← hread]
      exact ⟨rfl, rfl⟩
    | _ => exact hfits.elim
  · exact hkeeps huuid

/-- A scalar that is stored as null is the default of its type. -/
theorem Scalar.eq_initial_of_isVoid {type : Scalar} {value : Datum} {written : AttributeValue}
    (h : type.piece? value = some written) (hvoid : written.isVoid = true) : value = type.initial := by
  unfold piece? at h
  split at h
  · cases h
    cases hvoid
  · cases h
    cases hvoid
  · split at h
    · cases h
      cases hvoid
    · cases h
  · cases h
    exact absurd (textPiece_isVoid hvoid) (singleton_ne_empty _)
  · cases h
    rw [textPiece_isVoid hvoid]
    rfl
  · cases h
    rw [bytesPiece_isVoid hvoid]
    rfl
  · cases h
    exact absurd (textPiece_isVoid hvoid) (Stamp.text_ne_empty _)
  · cases h

namespace Codec

variable {c : Codec}

theorem readBy_eq_ok {converter : Converter} {target : Target} {value : AttributeValue}
    {read : Datum} (h : converter.read target value = .ok ⟨target.type, read⟩) :
    Converter.readBy (some converter) target value = .ok read := by
  unfold Converter.readBy
  exact except_bind_eq_ok.mpr ⟨_, h, if_pos rfl⟩

theorem readLeaf_primitive (hc : c.converters = Converter.builtins) {type : Scalar}
    (htype : Converter.isPrimitive (.scalar type) = true) {value : AttributeValue} {read : Datum}
    (h : Converter.readPrimitive (c.target (.scalar type)) value = .ok ⟨.scalar type, read⟩) :
    c.readLeaf (.scalar type) value = .ok read := by
  have hfirst : Converter.first? c.converters (.scalar type) = some Converter.primitive := by
    rw [hc]
    exact List.find?_cons_of_pos htype
  unfold readLeaf
  rw [hfirst]
  exact readBy_eq_ok h

theorem readPrimitive_number {type : Scalar} {digits : String} {read : Datum}
    (h : Converter.readNumber (c.target (.scalar type)) digits = .ok read) :
    Converter.readPrimitive (c.target (.scalar type)) (.number digits) =
      .ok ⟨.scalar type, read⟩ := by
  have hmap : Converter.readPrimitive (c.target (.scalar type)) (.number digits) =
      (Converter.readNumber (c.target (.scalar type)) digits).map fun read => ⟨.scalar type, read⟩ := by
    cases type <;> rfl
  rw [hmap, h]
  rfl

theorem readLeaf_textual_eq_ok (hc : c.converters = Converter.builtins) {type : TextType}
    {s : String} {read : Datum} :
    c.readLeaf (.scalar (.textual type)) (.text s) = .ok read ↔
      ∃ stamp, type.read? s = some stamp ∧ read = .stamp stamp := by
  have hfirst : Converter.first? c.converters (.scalar (.textual type)) = some Converter.textual := by
    rw [hc]
    cases type <;> rfl
  have hlisted : [TextType.instant, .localInstant, .date, .dateTime, .clock, .signedSpan,
      .unsignedSpan, .uuid].contains type = true := by cases type <;> rfl
  unfold readLeaf
  rw [hfirst]
  unfold Converter.readBy Converter.textual Converter.textualOf Converter.readTextual target
  simp only [hlisted, Bool.not_true, Bool.false_eq_true, if_false]
  cases type.read? s with
  | none => simp [bind, Except.bind]
  | some stamp => simp [bind, Except.bind, pure, Except.pure, eq_comm]

/-- A scalar that is not formatted text is read back from what it is stored as, and is stored as
before. -/
theorem readLeaf_piece (hc : c.converters = Converter.builtins) {type : Scalar} {value : Datum}
    (hplain : ∀ text, type ≠ .textual text) (h : type.Holds value) {written : AttributeValue}
    (hpiece : type.piece? value = some written) :
    ∃ read, c.readLeaf (.scalar type) written = .ok read ∧ read.equals value = true ∧
      type.piece? read = some written := by
  cases type with
  | bool =>
    cases value with
    | bool value =>
      cases hpiece
      exact ⟨_, readLeaf_primitive hc rfl rfl, beq_self_eq_true value, rfl⟩
    | _ => cases h
  | int type =>
    cases value with
    | int value =>
      cases hpiece
      have hread : Converter.readNumber (c.target (.scalar (.int type))) (toString value) =
          .ok (.int value) := by
        unfold Converter.readNumber target
        simp only [IntType.read?_toString h.1 h.2]
      exact ⟨_, readLeaf_primitive hc rfl (readPrimitive_number hread), beq_self_eq_true value, rfl⟩
    | _ => cases h
  | float type =>
    cases value with
    | float value =>
      rw [Scalar.piece?] at hpiece
      split at hpiece
      · rename_i hfinite
        cases hpiece
        obtain ⟨back, hback, hequals, hprint⟩ := h hfinite
        have hread : Converter.readNumber (c.target (.scalar (.float type)))
            (value.print type.format) = .ok (.float back) := by
          unfold Converter.readNumber target
          simp only [Floating.trim_print hfinite, hback]
        refine ⟨_, readLeaf_primitive hc rfl (readPrimitive_number hread), hequals, ?_⟩
        rw [Scalar.piece?, if_pos (Floating.isFinite_of_equals hequals hfinite), hprint]
      · cases hpiece
    | _ => cases h
  | char =>
    cases value with
    | char value =>
      cases hpiece
      have hread : Converter.readPrimitive (c.target (.scalar .char))
          (textPiece (String.singleton value)) = .ok ⟨.scalar .char, .char value⟩ := by
        rw [textPiece, if_neg fun h => singleton_ne_empty value (String.isEmpty_iff.mp h)]
        unfold Converter.readPrimitive target
        simp only [String.toList_singleton]
      exact ⟨_, readLeaf_primitive hc rfl hread, beq_self_eq_true value, rfl⟩
    | _ => cases h
  | text =>
    cases value with
    | text value =>
      cases hpiece
      have hread : Converter.readPrimitive (c.target (.scalar .text)) (textPiece value) =
          .ok ⟨.scalar .text, .text value⟩ := by
        rw [textPiece]
        split
        · rename_i hempty
          rw [String.isEmpty_iff.mp hempty]
          rfl
        · rfl
      exact ⟨_, readLeaf_primitive hc rfl hread, beq_self_eq_true value, rfl⟩
    | _ => cases h
  | binary =>
    cases value with
    | binary bytes =>
      cases hpiece
      have hread : Converter.readBytes (c.target (.scalar .binary)) (bytesPiece bytes) =
          .ok ⟨.scalar .binary, .binary bytes⟩ := by
        rw [bytesPiece]
        split
        · rename_i hempty
          rw [List.isEmpty_iff.mp hempty]
          rfl
        · rfl
      refine ⟨.binary bytes, ?_, beq_self_eq_true bytes, rfl⟩
      unfold readLeaf
      rw [hc]
      exact readBy_eq_ok hread
    | _ => cases h
  | textual type => exact absurd rfl (hplain type)

/-- What is read of formatted text is stored as before, and is a default where the text's was. -/
theorem textual_piece_of_readLeaf (hc : c.converters = Converter.builtins) {type : TextType}
    {value : Datum} (h : (Scalar.textual type).Holds value) {written : AttributeValue}
    (hpiece : (Scalar.textual type).piece? value = some written) {read : Datum}
    (hread : c.readLeaf (.scalar (.textual type)) written = .ok read) :
    (Scalar.textual type).piece? read = some written ∧ read.isNull = false ∧
      read.isDefault = value.isDefault := by
  cases value with
  | stamp value =>
    cases hpiece
    have htext : ¬ value.text.isEmpty = true := fun hempty =>
      Stamp.text_ne_empty value (String.isEmpty_iff.mp hempty)
    rw [textPiece, if_neg htext] at hread
    obtain ⟨stamp, hstamp, rfl⟩ := (readLeaf_textual_eq_ok hc).mp hread
    obtain ⟨hsame, hzero⟩ := h.keepsText stamp hstamp
    refine ⟨?_, rfl, hzero⟩
    rw [Scalar.piece?, hsame]
  | _ => exact h.elim

end Codec

/-- A search by a component that no two elements share finds the element that has it. -/
theorem find?_of_nodup {α β : Type} [BEq β] [LawfulBEq β] {f : α → β} {xs : List α} {x : α}
    (hnodup : (xs.map f).Nodup) (hx : x ∈ xs) {p : α → Bool} (hp : ∀ y ∈ xs, p y = (f y == f x)) :
    xs.find? p = some x := by
  induction xs with
  | nil => cases hx
  | cons y ys ih =>
    rw [List.map_cons, List.nodup_cons] at hnodup
    rcases List.mem_cons.mp hx with rfl | hx
    · refine List.find?_cons_of_pos ?_
      rw [hp x List.mem_cons_self, beq_self_eq_true]
    · have hne : f y ≠ f x := fun heq => hnodup.1 (heq ▸ List.mem_map_of_mem hx)
      rw [List.find?_cons_of_neg]
      · exact ih hnodup.2 hx fun z hz => hp z (List.mem_cons_of_mem y hz)
      · rw [hp y List.mem_cons_self, beq_iff_eq]
        exact hne

namespace EnumType

variable {e : EnumType}

theorem mem_of_name? {number : Int} {name : String} (h : e.name? number = some name) :
    (name, number) ∈ e.variants := by
  obtain ⟨⟨name', number'⟩, hfind, rfl⟩ := Option.map_eq_some_iff.mp h
  have hnumber := List.find?_some hfind
  cases eq_of_beq hnumber
  exact List.mem_of_find?_eq_some hfind

theorem run_write (e : EnumType) (options : CodecOptions) (number : Int) :
    Writer.forPart.run (e.write options number) = .ok (some (e.piece options number)) := by
  rw [write_eq]
  exact Writer.Fills.run (.write _)

theorem read_text_iff_numberOf? {options : CodecOptions} {text : String} {number : Int} :
    e.read options (.text text) = .ok number ↔
      e.numberOf? options.enumNaming text = some number := by
  unfold read
  dsimp only
  cases e.numberOf? options.enumNaming text <;> simp

/-- A text is read as the variant that it names. -/
theorem read_text {options : CodecOptions} {text : String} {variant : String × Int}
    (hfind : e.variants.find? (fun v => v.1 == text || options.enumNaming.apply v.1 == text) =
      some variant) : e.read options (.text text) = .ok variant.2 := by
  rw [read_text_iff_numberOf?]
  unfold numberOf?
  simp only [hfind]

/-- What a text is read as is the number of a variant. -/
theorem mem_of_read_text {options : CodecOptions} {text : String} {number : Int}
    (h : e.read options (.text text) = .ok number) : ∃ variant ∈ e.variants, variant.2 = number := by
  rw [read_text_iff_numberOf?] at h
  unfold numberOf? at h
  split at h
  · rename_i hvariant
    cases h
    exact ⟨_, List.mem_of_find?_eq_some hvariant, rfl⟩
  · obtain ⟨variant, hvariant, rfl⟩ := Option.map_eq_some_iff.mp h
    exact ⟨variant, List.mem_of_find?_eq_some hvariant, rfl⟩

/-- The digits of the number of a variant are read as this number. -/
theorem read_number {options : CodecOptions} {number : Int} (hknown : (e.name? number).isSome = true)
    (hbounds : -(2 ^ 63) ≤ number ∧ number < 2 ^ 63) :
    e.read options (.number (toString number)) = .ok number := by
  unfold read
  simp only [trim_toString, readInt64?_toString hbounds, hknown, if_true]

/-- Each variant is read back from what it is stored as. -/
def ToldApart (e : EnumType) (options : CodecOptions) : Prop :=
  ∀ number, (e.name? number).isSome → e.read options (e.piece options number) = .ok number

theorem piece_isVoid (options : CodecOptions) (number : Int) :
    (e.piece options number).isVoid = (e.piece options number).isNull := by
  have hempty : (e.piece options number).isEmptyContainer = false := by
    unfold piece
    split
    · rw [textPiece]
      split <;> rfl
    · rfl
  rw [AttributeValue.isVoid, hempty, Bool.or_false]

/-- No variant is stored as null, and what is read of a stored variant is stored as the same. -/
theorem KeepsStored.piece {options : CodecOptions} (h : e.KeepsStored options) {number : Int}
    (hknown : (e.name? number).isSome = true) :
    (e.piece options number).isVoid = false ∧
      ∀ read, e.read options (e.piece options number) = .ok read →
        e.piece options read = e.piece options number ∧ (read = 0 ↔ number = 0) := by
  obtain ⟨written, hwrite, hnull, hagain⟩ := h number hknown
  rw [run_write] at hwrite
  cases hwrite
  refine ⟨(piece_isVoid options number).trans hnull, fun read hread => ?_⟩
  obtain ⟨hwrite, hzero⟩ := hagain read hread
  rw [run_write] at hwrite
  exact ⟨Option.some.inj (Except.ok.inj hwrite), hzero⟩

/-- Variants that are told apart are stored as before when they have been read. -/
theorem ToldApart.keepsStored {options : CodecOptions} (h : e.ToldApart options) :
    e.KeepsStored options := by
  intro number hknown
  have hback := h number hknown
  refine ⟨_, run_write e options number, ?_, fun read hread => ?_⟩
  · cases hpiece : e.piece options number with
    | null flag =>
      rw [hpiece] at hback
      cases hback
    | _ => rfl
  · cases hback.symm.trans hread
    exact ⟨run_write e options number, Iff.rfl⟩

/-- Variants that are stored under their own names, or as numbers, are told apart. -/
theorem WellFormed.toldApart (he : e.WellFormed) {options : CodecOptions}
    (hnaming : options.enumNaming = .identity) : e.ToldApart options := by
  intro number hknown
  obtain ⟨name, hname⟩ := Option.isSome_iff_exists.mp hknown
  have hmem := mem_of_name? hname
  unfold piece stored
  rw [hname]
  cases options.enumEncoding with
  | name =>
    have hne : ¬ name.isEmpty = true := fun h => he.named _ hmem (String.isEmpty_iff.mp h)
    have hfind : e.variants.find? (fun v => v.1 == name || NamingPolicy.identity.apply v.1 == name) =
        some (name, number) :=
      find?_of_nodup he.names hmem fun v _ => by rw [NamingPolicy.apply, Bool.or_self]
    rw [← hnaming] at hfind
    rw [hnaming]
    change e.read options (textPiece name) = _
    rw [textPiece, if_neg hne]
    exact read_text hfind
  | number => exact read_number hknown (he.bounds _ hmem)

end EnumType

namespace Codec

variable {c : Codec} {family : DocumentId → Prop}

/-- Of types that are built from scalars without formatted text, enumerations and documents of a family,
what is read is stored as before where the names of variants are stored as they are. -/
theorem keepsStored_of_builtFrom {type : Ty} (h : type.BuiltFrom family)
    (hnaming : c.options.enumNaming = .identity) : c.KeepsStored family type := by
  induction type with
  | scalar type => trivial
  | enumeration type => exact (EnumType.WellFormed.toldApart h hnaming).keepsStored
  | option inner ih => exact ih h
  | boxed inner ih => exact ih h
  | list inner ih => exact ih h
  | set hashed inner ih => exact ih h
  | map hashed inner ih => exact ih h
  | document id => exact h
  | oneOf name variants => exact h.elim
  | dynamic => exact h.elim
  | stored => exact h.elim
  | foreign name => exact h.elim

theorem Plain.restorable (h : c.Plain family) : c.Restorable family :=
  ⟨h.toRegular, fun id hid f hf => keepsStored_of_builtFrom (h.types id hid f hf) h.enumNaming⟩

end Codec

end ItemMapper
