import ItemMapper.Proofs.Table.Claims
import ItemMapper.Proofs.Values.Literals
import ItemMapper.Proofs.Writer.Calls
import ItemMapper.Sample.Catalogue

/-!
# Keys from documents and keys from parts

The key of a document is made of its members as the codec writes them, after the hooks of the members. A
key can also be made of dynamic values, which are cast to the types of the key's members and see no
hooks. If the parts are the dynamic values of the members themselves, the second key is the first one
before the hooks, and the same key where there are none.

A member that may be part of a key is a scalar or a variant, perhaps optional or behind a pointer, so
that writing it is a single leaf; what this leaf is, and that the cast leaves it as it is, is all that
there is to say about it.

## Main definitions

* `Writer.WritesKey`: a call that writes a value of a key of some type, writes null, or fails.
* `Datum.FitsKey`: the values that a member of a key may hold.
* `PrimaryKey.TurnsInto`: what the hooks make of a key.

## Main statements

* `Codec.writesKey_write`: what a member of a key writes.
* `PrimaryKey.castComponent_of_encode`: the dynamic value of a member is cast to what the member is
  stored as.
* `PrimaryKey.ofParts_of_ofDocument`: the key of the parts of a document.
-/

namespace ItemMapper

/-! ### What members of keys write -/

/-- A call that writes a value of a key of the given type, writes null, or fails. -/
inductive Writer.WritesKey (type : Option ScalarType) : WriterM Unit → Prop
  | refusal (e : Error) : WritesKey type fun w => .error e w
  | null : WritesKey type writeNull
  | value (component : KeyValue) (fits : type = some component.scalarType) :
      WritesKey type (write component.toAttribute)

theorem Writer.writesKey_text (s : String) : WritesKey (some .text) (writeText s) := by
  rw [writeText]
  split
  · exact .null
  · exact .value (.text s) rfl

theorem Writer.writesKey_binary (bytes : Bytes) : WritesKey (some .binary) (writeBinary bytes) := by
  rw [writeBinary]
  split
  · exact .null
  · exact .value (.binary bytes) rfl

/-- Whether the variant that a value holds, if it holds one, is one of its enumeration's. -/
def Ty.Lists : Ty → Datum → Prop
  | .enumeration type, .enumeration number => (type.name? number).isSome = true
  | .option inner, .present value | .boxed inner, .boxed value => inner.Lists value
  | _, _ => True

theorem EnumType.writesKey (e : EnumType) (options : CodecOptions) {number : Int}
    (h : (e.name? number).isSome = true) :
    Writer.WritesKey (Kind.enumeration.scalarType? options.enumEncoding) (e.write options number) := by
  obtain ⟨name, hname⟩ := Option.isSome_iff_exists.mp h
  unfold write stored
  rw [hname]
  cases options.enumEncoding with
  | name => exact Writer.writesKey_text _
  | number => exact .value (.number _) rfl

/-- What a scalar of a kind that keys can hold is stored as is a value of a key or null. -/
theorem Scalar.writesKey_piece {type : Scalar} {value : Datum} {written : AttributeValue}
    (h : type.piece? value = some written) (options : CodecOptions)
    (hkind : ((Ty.scalar type).kind.scalarType? .name).isSome = true) :
    Writer.WritesKey ((Ty.scalar type).kind.scalarType? options.enumEncoding)
      (Writer.write written) := by
  cases type with
  | bool => cases hkind
  | int type =>
    cases value with
    | int value =>
      cases h
      exact .value (.number _) rfl
    | _ => cases h
  | float type =>
    cases value with
    | float value =>
      rw [piece?] at h
      split at h
      · cases h
        exact .value (.number _) rfl
      · cases h
    | _ => cases h
  | char =>
    cases value with
    | char value =>
      cases h
      rw [← Writer.writeText_eq]
      exact Writer.writesKey_text _
    | _ => cases h
  | text =>
    cases value with
    | text value =>
      cases h
      rw [← Writer.writeText_eq]
      exact Writer.writesKey_text _
    | _ => cases h
  | binary =>
    cases value with
    | binary bytes =>
      cases h
      rw [← Writer.writeBinary_eq]
      exact Writer.writesKey_binary bytes
    | _ => cases h
  | textual type =>
    cases value with
    | stamp value =>
      cases h
      rw [← Writer.writeText_eq]
      exact Writer.writesKey_text _
    | _ => cases h

namespace Codec

variable {c : Codec}

/-- The converters that are always there write a scalar in one call. -/
theorem writesLeaf_writeLeaf (hc : c.converters = Converter.builtins) (type : Scalar)
    (value : Datum) : Writer.WritesLeaf (c.writeLeaf (.scalar type) value) := by
  unfold writeLeaf Converter.writeBy
  cases hfirst : Converter.first? c.converters (.scalar type) with
  | none => exact .refusal _
  | some converter =>
    have hmem := List.mem_of_find?_eq_some hfirst
    rw [hc] at hmem
    exact Writer.writesLeaf_of_mem_builtins hmem _

/-- A value of a kind that keys can hold is written as a value of a key. -/
theorem writesKey_write (hc : c.converters = Converter.builtins) {type : Ty} {value : Datum}
    (hlists : type.Lists value) (hkind : (type.kind.scalarType? .name).isSome = true) :
    Writer.WritesKey (type.kind.scalarType? c.options.enumEncoding) (c.write type value) := by
  induction type generalizing value with
  | scalar type =>
    cases hpiece : type.piece? value with
    | some written =>
      rw [write_scalar hc hpiece]
      exact Scalar.writesKey_piece hpiece c.options hkind
    | none =>
      -- A scalar is refused that is stored as nothing, as what is written would have to be that.
      have hleaf := writesLeaf_writeLeaf hc type value
      have hrefused : ∀ w w', c.writeLeaf (.scalar type) value w ≠ .ok () w' := by
        intro w w' hwrite
        obtain ⟨written, hwritten, -⟩ := (writeLeaf_eq_ok hc).mp hwrite
        cases hpiece.symm.trans hwritten
      rw [write]
      generalize c.writeLeaf (.scalar type) value = call at hleaf hrefused
      cases hleaf with
      | leaf _ => exact absurd (Writer.write_of_free rfl _) (hrefused Writer.forPart _)
      | refusal e => exact .refusal e
  | enumeration type =>
    cases value with
    | enumeration number =>
      rw [write]
      exact type.writesKey c.options hlists
    | _ => exact .refusal _
  | option inner ih =>
    cases value with
    | absent => exact .null
    | present value =>
      rw [write]
      exact ih hlists hkind
    | _ => exact .refusal _
  | boxed inner ih =>
    cases value with
    | boxed value =>
      rw [write]
      exact ih hlists hkind
    | _ => exact .refusal _
  | _ => cases hkind

end Codec

namespace Datum.Convertible

variable {c : Codec} {type : Ty} {value : Datum}

/-- The literal of a variant is a variant or null, and no literal of another kind is taken for one. -/
theorem enumConstant_eq (h : Convertible type value) {member : Member}
    (hkind : member.type.kind = type.kind) (options : CodecOptions) :
    PrimaryKey.enumConstant options member (toValue type value) = .ok (toValue type value) := by
  have hother : member.type.kind ≠ .enumeration → ∀ v : Value,
      PrimaryKey.enumConstant options member v = .ok v := by
    intro hne v
    rw [PrimaryKey.enumConstant]
    split
    · exact (hne ‹_›).elim
    · rfl
  induction h with
  | enumeration | absent =>
    rw [PrimaryKey.enumConstant]
    split <;> rfl
  | present _ ih | boxed _ ih =>
    rw [toValue]
    exact ih hkind
  | _ =>
    refine hother (fun heq => ?_) _
    cases hkind.symm.trans heq

end Datum.Convertible

/-- The values that a member of a key may hold: values of its type, each variant a listed one, with
numbers that print alike as literals. -/
structure Datum.FitsKey (type : Ty) (value : Datum) : Prop where
  convertible : Convertible type value
  lists : type.Lists value
  printsAlike : type.PrintsAlike value

namespace Codec

variable {c : Codec}

/-- What is written of a member of a key, if nothing but its value decides whether it is kept. -/
theorem encodeWith_of_writesKey {key : Option ScalarType} {type : Ty} {value : Datum}
    (h : Writer.WritesKey key (c.write type value)) {written : AttributeValue}
    (hencode : c.encodeWith .none type value = .ok (some written)) :
    ∃ component : KeyValue, component.toAttribute = written ∧ key = some component.scalarType ∧
      c.encodeWith .all type value = .ok (some written) := by
  rw [encodeWith] at hencode ⊢
  generalize c.write type value = call at h hencode ⊢
  cases h with
  | refusal e => cases hencode
  | null => cases hencode
  | value component fits =>
    have hrun : ∀ flags : WriteFlags, (Writer.new flags).run (Writer.write component.toAttribute) =
        .ok (some component.toAttribute) := by
      intro flags
      cases component <;> rfl
    rw [hrun] at hencode ⊢
    cases hencode
    exact ⟨component, rfl, fits, rfl⟩

end Codec

namespace PrimaryKey

variable {c : Codec}

/-- A value of a key is cast to itself. -/
theorem cast_toAttribute (typeName : String) (component : KeyValue) :
    cast typeName component.scalarType component.toAttribute = .ok component := by
  cases component <;> rfl

/-- The literal of a member is cast to what the member is stored as. -/
theorem castComponent_of_encode (hc : c.converters = Converter.builtins) {f : Field}
    (hkind : Claims.canBeKey (f.member c.typeName) = true) {value : Datum}
    (hvalue : Datum.FitsKey f.type value) {written : AttributeValue}
    (hencode : c.encodeWith .none f.type value = .ok (some written)) :
    ∃ component : KeyValue, component.toAttribute = written ∧
      castComponent c.options (f.member c.typeName) (value.toValue f.type) = .ok component := by
  have hwrites := Codec.writesKey_write hc hvalue.lists hkind
  obtain ⟨component, rfl, htype, hall⟩ := Codec.encodeWith_of_writesKey hwrites hencode
  have hliteral : (value.toValue f.type).encode c.options .all =
      .ok (some component.toAttribute) := by
    change c.encodeWith .all .dynamic (.dynamic (value.toValue f.type)) = _
    have hagree := Codec.agree_encodeWith hc hvalue.convertible .all
    rw [hall] at hagree
    generalize c.encodeWith .all .dynamic (.dynamic (value.toValue f.type)) = literal at hagree ⊢
    cases hagree with
    | ok hsame => rw [hsame.mpr hvalue.printsAlike]
  have hdeclared : declaredType c.options (f.member c.typeName) = .ok component.scalarType := by
    have hscalar : (f.member c.typeName).type.kind.scalarType? c.options.enumEncoding =
        some component.scalarType := htype
    rw [declaredType, hscalar]
  have hconstant : enumConstant c.options (f.member c.typeName) (value.toValue f.type) =
      .ok (value.toValue f.type) := hvalue.convertible.enumConstant_eq rfl c.options
  refine ⟨component, rfl, ?_⟩
  refine except_bind_eq_ok.mpr ⟨_, hdeclared, except_bind_eq_ok.mpr ⟨_, hconstant, ?_⟩⟩
  refine except_bind_eq_ok.mpr ⟨_, hliteral, ?_⟩
  have hnull : component.toAttribute.isNull = false := by cases component <;> rfl
  dsimp only
  rw [hnull, if_neg Bool.false_ne_true]
  exact cast_toAttribute _ component

/-! ### Keys of documents -/

/-- The member at a position of a declared document. -/
def fieldAt (c : Codec) (id : DocumentId) (position : Nat) : Field :=
  (c.documents id).fields.getD position default

theorem ofAttribute_eq_ok {written : AttributeValue} {component : KeyValue} :
    KeyValue.ofAttribute written = .ok component ↔ written = component.toAttribute := by
  constructor
  · intro h
    cases written <;> cases h <;> rfl
  · rintro rfl
    cases component <;> rfl

/-- A component of the key of a document is what the hooks make of the stored member. -/
theorem componentOf_eq_ok {id : DocumentId} {members : List Datum} {position : Nat}
    {component : KeyValue} :
    componentOf c (c.documents id) members position = .ok component ↔
      ∃ written,
        c.encodeWith .none (fieldAt c id position).type (members.getD position default) =
          .ok (some written) ∧
        runWriteHooks (fieldAt c id position).onWrite written = .ok component.toAttribute := by
  rw [componentOf, except_bind_eq_ok]
  change (∃ encoded, c.encodeMember (fieldAt c id position) _ = .ok encoded ∧ _) ↔ _
  constructor
  · rintro ⟨encoded, hencoded, hcomponent⟩
    cases encoded with
    | none => cases hcomponent
    | some final =>
      obtain ⟨stored, hstored, hhooks⟩ := except_bind_eq_ok.mp hencoded
      cases stored with
      | none => cases hhooks
      | some written =>
        obtain ⟨final', hfinal, heq⟩ := except_map_eq_ok.mp hhooks
        cases heq
        exact ⟨written, hstored, ofAttribute_eq_ok.mp hcomponent ▸ hfinal⟩
  · rintro ⟨written, hwritten, hhooks⟩
    refine ⟨some component.toAttribute, ?_, ofAttribute_eq_ok.mpr rfl⟩
    refine except_bind_eq_ok.mpr ⟨some written, hwritten, ?_⟩
    exact except_map_eq_ok.mpr ⟨_, hhooks, rfl⟩

/-- The key of a document consists of its components. -/
theorem ofDocument_eq_ok {id : DocumentId} {members : List Datum} {d : TableDescriptor}
    (hd : c.descriptor id = .ok d) {key : PrimaryKey} :
    ofDocument c id members = .ok key ↔
      componentOf c (c.documents id) members d.partition = .ok key.partition ∧
        match d.sort with
        | none => key.sort = none
        | some position =>
          ∃ sort, key.sort = some sort ∧
            componentOf c (c.documents id) members position = .ok sort := by
  obtain ⟨partition, sort⟩ := key
  rw [ofDocument, hd]
  change (componentOf c (c.documents id) members d.partition >>= _) = _ ↔ _
  rw [except_bind_eq_ok]
  cases hsort : d.sort with
  | none =>
    constructor
    · rintro ⟨partition', hpartition, heq⟩
      cases heq
      exact ⟨hpartition, rfl⟩
    · rintro ⟨hpartition, rfl⟩
      exact ⟨partition, hpartition, rfl⟩
  | some position =>
    constructor
    · rintro ⟨partition', hpartition, h⟩
      obtain ⟨sort', hsort', heq⟩ := except_bind_eq_ok.mp h
      cases heq
      exact ⟨hpartition, sort', rfl, hsort'⟩
    · rintro ⟨hpartition, sort', rfl, hsort'⟩
      exact ⟨partition, hpartition, except_bind_eq_ok.mpr ⟨sort', hsort', rfl⟩⟩

/-! ### Keys of parts -/

/-- The literal of the member at a position. -/
def literalAt (c : Codec) (id : DocumentId) (members : List Datum) (position : Nat) : Value :=
  (members.getD position default).toValue (fieldAt c id position).type

/-- What the hooks of a document's members make of a key. -/
structure TurnsInto (c : Codec) (id : DocumentId) (d : TableDescriptor) (raw key : PrimaryKey) :
    Prop where
  partition : runWriteHooks (fieldAt c id d.partition).onWrite raw.partition.toAttribute =
    .ok key.partition.toAttribute
  sort : match d.sort with
    | none => raw.sort = none ∧ key.sort = none
    | some position => ∃ before after, raw.sort = some before ∧ key.sort = some after ∧
        runWriteHooks (fieldAt c id position).onWrite before.toAttribute = .ok after.toAttribute

theorem toAttribute_injective {component other : KeyValue}
    (h : component.toAttribute = other.toAttribute) : component = other := by
  cases component <;> cases other <;> cases h <;> rfl

/-- Without hooks a key stays as it is. -/
theorem TurnsInto.eq_of_no_hooks {id : DocumentId} {d : TableDescriptor} {raw key : PrimaryKey}
    (h : TurnsInto c id d raw key)
    (hnone : ∀ position ∈ d.keyPositions, (fieldAt c id position).onWrite = []) : raw = key := by
  obtain ⟨hpartition, hsort⟩ := h
  obtain ⟨rawPartition, rawSort⟩ := raw
  obtain ⟨partition, sort⟩ := key
  rw [hnone _ (TableDescriptor.mem_keyPositions.mpr (.inl rfl))] at hpartition
  cases toAttribute_injective (Except.ok.inj hpartition)
  cases hposition : d.sort with
  | none =>
    rw [hposition] at hsort
    obtain ⟨rfl, rfl⟩ := hsort
    rfl
  | some position =>
    rw [hposition] at hsort
    obtain ⟨before, after, rfl, rfl, hhooks⟩ := hsort
    have hmem : position ∈ d.keyPositions := TableDescriptor.mem_keyPositions.mpr (.inr hposition)
    rw [hnone position hmem] at hhooks
    cases toAttribute_injective (Except.ok.inj hhooks)
    rfl

/-- The part of a key that a member of a document gives: it is what the member is stored as, before the
hooks that the key of the document shows. -/
theorem castComponent_of_componentOf (hc : c.converters = Converter.builtins) {id : DocumentId}
    {d : TableDescriptor} (hd : c.descriptor id = .ok d) {position : Nat}
    (hposition : position ∈ d.keyPositions) {members : List Datum}
    (hvalue : Datum.FitsKey (fieldAt c id position).type (members.getD position default))
    {component : KeyValue}
    (hcomponent : componentOf c (c.documents id) members position = .ok component) :
    ∃ raw, castComponent c.options (d.memberAt position) (literalAt c id members position) = .ok raw ∧
      runWriteHooks (fieldAt c id position).onWrite raw.toAttribute = .ok component.toAttribute := by
  obtain ⟨f, hf, hmember, -, hkind⟩ := Codec.exists_field_of_descriptor hd hposition
  have hfield : fieldAt c id position = f := by
    rw [fieldAt, List.getD_eq_getElem?_getD, hf, Option.getD_some]
  obtain ⟨written, hwritten, hhooks⟩ := componentOf_eq_ok.mp hcomponent
  rw [literalAt, hmember]
  rw [hfield] at hvalue hwritten hhooks ⊢
  obtain ⟨raw, rfl, hcast⟩ := castComponent_of_encode hc hkind hvalue hwritten
  exact ⟨raw, hcast, hhooks⟩

/-- A key that a document has can be made of the literals of the members, up to what their hooks make of
it; without hooks it is the same key. -/
theorem ofParts_of_ofDocument (hc : c.converters = Converter.builtins) {id : DocumentId}
    {d : TableDescriptor} (hd : c.descriptor id = .ok d) {members : List Datum}
    (hmembers : ∀ position ∈ d.keyPositions,
      Datum.FitsKey (fieldAt c id position).type (members.getD position default))
    {key : PrimaryKey} (hkey : ofDocument c id members = .ok key) :
    ∃ raw, ofParts c.options d (literalAt c id members d.partition)
        (d.sort.map (literalAt c id members)) = .ok raw ∧
      TurnsInto c id d raw key ∧
      ((∀ position ∈ d.keyPositions, (fieldAt c id position).onWrite = []) → raw = key) := by
  obtain ⟨hpartition, hsort⟩ := (ofDocument_eq_ok hd).mp hkey
  have hfirst : d.partition ∈ d.keyPositions := TableDescriptor.mem_keyPositions.mpr (.inl rfl)
  obtain ⟨partition, hcast, hturned⟩ :=
    castComponent_of_componentOf hc hd hfirst (hmembers _ hfirst) hpartition
  cases hposition : d.sort with
  | none =>
    rw [hposition] at hsort
    have hturns : TurnsInto c id d ⟨partition, none⟩ key :=
      ⟨hturned, by simpa only [hposition, true_and] using hsort⟩
    refine ⟨⟨partition, none⟩, ?_, hturns, hturns.eq_of_no_hooks⟩
    refine except_bind_eq_ok.mpr ⟨partition, hcast, ?_⟩
    rw [TableDescriptor.sortMember?, hposition]
    rfl
  | some position =>
    rw [hposition] at hsort
    obtain ⟨after, hafter, hcomponent⟩ := hsort
    have hmem : position ∈ d.keyPositions := TableDescriptor.mem_keyPositions.mpr (.inr hposition)
    obtain ⟨before, hbefore, hhooks⟩ :=
      castComponent_of_componentOf hc hd hmem (hmembers _ hmem) hcomponent
    have hturns : TurnsInto c id d ⟨partition, some before⟩ key :=
      ⟨hturned, by simpa only [hposition] using ⟨before, after, rfl, hafter, hhooks⟩⟩
    refine ⟨⟨partition, some before⟩, ?_, hturns, hturns.eq_of_no_hooks⟩
    refine except_bind_eq_ok.mpr ⟨partition, hcast, ?_⟩
    rw [TableDescriptor.sortMember?, hposition]
    exact except_bind_eq_ok.mpr ⟨before, hbefore, rfl⟩

/-- A codec of the sample documents. -/
def sampleCodec : Codec := { Codec.bare with documents := Sample.documents "" }

/-- A document with a hook on its partition member, which appends a mark to texts. -/
def sampleCoded : List Datum := [.text "c", .present (.float (.finite false (3 * 2 ^ 1073)))]

/-- Its descriptor. -/
def codedDescriptor : TableDescriptor := (sampleCodec.descriptor 16).toOption.getD default

theorem descriptor_coded : sampleCodec.descriptor 16 = .ok codedDescriptor :=
  except_toOption_eq_some.mp (by decide)

theorem ofDocument_coded :
    ofDocument sampleCodec 16 sampleCoded = .ok ⟨.text "c!", some (.number "1.5")⟩ :=
  except_toOption_eq_some.mp (by decide +kernel)

theorem keyPositions_coded : codedDescriptor.keyPositions = [0, 1] := by decide

theorem coded_fitsKey : ∀ position ∈ codedDescriptor.keyPositions,
    Datum.FitsKey (fieldAt sampleCodec 16 position).type (sampleCoded.getD position default) := by
  rw [keyPositions_coded]
  refine List.forall_mem_cons.mpr ⟨⟨.text "c", trivial, trivial⟩, List.forall_mem_singleton.mpr ?_⟩
  exact ⟨.present (.float .double _), trivial, trivial⟩

theorem ofParts_of_ofDocument_sampleCoded :
    sampleCodec.converters = Converter.builtins ∧
      sampleCodec.descriptor 16 = .ok codedDescriptor ∧
      ofDocument sampleCodec 16 sampleCoded = .ok ⟨.text "c!", some (.number "1.5")⟩ ∧
      ∃ raw, ofParts sampleCodec.options codedDescriptor
          (literalAt sampleCodec 16 sampleCoded codedDescriptor.partition)
          (codedDescriptor.sort.map (literalAt sampleCodec 16 sampleCoded)) = .ok raw ∧
        TurnsInto sampleCodec 16 codedDescriptor raw ⟨.text "c!", some (.number "1.5")⟩ := by
  obtain ⟨raw, hraw, hturns, -⟩ :=
    ofParts_of_ofDocument rfl descriptor_coded coded_fitsKey ofDocument_coded
  exact ⟨rfl, descriptor_coded, ofDocument_coded, raw, hraw, hturns⟩

/-- A hook on a member of the key keeps the two keys apart. -/
theorem ofParts_sampleCoded_ne :
    sampleCodec.converters = Converter.builtins ∧
      sampleCodec.descriptor 16 = .ok codedDescriptor ∧
      ofDocument sampleCodec 16 sampleCoded = .ok ⟨.text "c!", some (.number "1.5")⟩ ∧
      ofParts sampleCodec.options codedDescriptor
          (literalAt sampleCodec 16 sampleCoded codedDescriptor.partition)
          (codedDescriptor.sort.map (literalAt sampleCodec 16 sampleCoded)) =
        .ok ⟨.text "c", some (.number "1.5")⟩ ∧
      (⟨.text "c", some (.number "1.5")⟩ : PrimaryKey) ≠ ⟨.text "c!", some (.number "1.5")⟩ :=
  ⟨rfl, descriptor_coded, ofDocument_coded, except_toOption_eq_some.mp (by decide +kernel),
    by decide⟩

end PrimaryKey

end ItemMapper
