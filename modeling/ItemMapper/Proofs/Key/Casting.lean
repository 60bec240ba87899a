import ItemMapper.Proofs.Key.Integers
import ItemMapper.Proofs.Key.Parts
import ItemMapper.Proofs.Number.Printing

/-!
# Keys made of parts

A key that is made of values has the types that its members are declared with. Texts, byte strings,
integers, finite floats and variants give values that a text can stand for, because what is empty is
written as null, a null is refused, and a text is read before it becomes a number. A number that is kept
as text and an attribute value are taken as they stand where their kind is that of the key, so that the
key is no better than they are.

## Main definitions

* `Value.IsMachine`: the numbers that a value can hold.
* `AttributeValue.Sound`, `Value.Sound`: what is cast to a value that a text can stand for.

## Main statements

* `PrimaryKey.fits_cast_iff`: what an attribute value is cast to.
* `PrimaryKey.ofParts_fits_iff`: when a text can stand for a key that is made of parts.
-/

namespace ItemMapper

/-! ### What is cast -/

/-- The attribute values that are cast to values of a key that a text can stand for. -/
def AttributeValue.Sound (type : ScalarType) : AttributeValue → Prop
  | .number digits => if type = .number then KeyValue.Fits .number (.number digits) else digits ≠ ""
  | .text s => type = .number ∨ s ≠ ""
  | .binary bytes => bytes ≠ []
  | _ => True

/-- The values that are cast to such values: all but numbers kept as text and attribute values that are
not. -/
def Value.Sound (type : ScalarType) : Value → Prop
  | .number digits => (AttributeValue.number digits).Sound type
  | .stored value => value.Sound type
  | _ => True

/-- The values whose numbers are integers of 64 bits and doubles. -/
def Value.IsMachine : Value → Prop
  | .int i => IntType.int64.Holds i
  | .float x => Floating.double.Has x
  | .enumeration e => IntType.int64.Holds e.number
  | _ => True

/-- The members whose variants have numbers of 64 bits. -/
def Member.IsMachine (member : Member) : Prop :=
  ∀ variants, member.type.variants = some variants → ∀ variant ∈ variants,
    IntType.int64.Holds variant.2

namespace PrimaryKey

/-- What an attribute value is cast to has the type that is asked for, and a text can stand for it if the
attribute value is sound. -/
theorem fits_cast_iff {typeName : String} {type : ScalarType} {value : AttributeValue}
    {component : KeyValue} (h : cast typeName type value = .ok component) :
    component.scalarType = type ∧ (component.Fits type ↔ value.Sound type) := by
  unfold cast at h
  split at h
  · rename_i s
    cases h
    refine ⟨rfl, fun hfits => ?_, fun hsound => ?_⟩
    · cases hfits with
      | text nonempty => exact .inr nonempty
    · exact .text (hsound.resolve_left (by decide))
  · rename_i s
    cases h
    refine ⟨rfl, fun hfits => ?_, fun hsound => ?_⟩
    · cases hfits with
      | text nonempty => exact nonempty
    · exact .text hsound
  · cases h
    exact ⟨rfl, Iff.rfl⟩
  · rename_i s
    split at h
    · rename_i key hread
      cases h
      have hne : s ≠ "" := by
        rintro rfl
        cases hread
      have hfits : component.Fits .number := KeyValue.fits_of_ofText hne hread
      refine ⟨?_, fun _ => .inl rfl, fun _ => hfits⟩
      cases hfits
      rfl
    · cases h
  · cases h
    refine ⟨rfl, fun hfits => ?_, fun hsound => .binary hsound⟩
    cases hfits with
    | binary nonempty => exact nonempty
  · rename_i s
    split at h
    · rename_i key hread
      cases h
      refine ⟨?_, fun hfits => .inr ?_, fun hsound => ?_⟩
      · simp only [KeyValue.ofText] at hread
        split at hread
        · cases hread
          rfl
        · cases hread
      · rintro rfl
        have hempty : Base64.decode "" = .ok [] := Base64.decode_encode []
        simp only [KeyValue.ofText, hempty] at hread
        cases hread
        cases hfits with
        | binary nonempty => exact nonempty rfl
      · exact KeyValue.fits_of_ofText (hsound.resolve_left (by decide)) hread
    · cases h
  · cases h

end PrimaryKey

/-! ### What is written -/

theorem KeyValue.fits_toString {i : Int} (h : IntType.int64.Holds i) :
    Fits .number (number (toString i)) := by
  have hbound := h.natAbs_le
  refine .number (trim_toString i) (Floating.readDouble?_toString i) ?_
  rw [Floating.ofInt_eq hbound]
  rfl

theorem KeyValue.fits_print {x : Floating} (h : Floating.double.Has x) (hfinite : x.isFinite = true) :
    Fits .number (number (x.print Floating.double)) := by
  obtain ⟨y, hread, hy⟩ := Floating.readDouble?_print h hfinite
  exact .number (Floating.trim_print hfinite) hread hy

namespace AttributeValue

theorem Sound.of_fits {type : ScalarType} {digits : String}
    (h : KeyValue.Fits .number (.number digits)) : (number digits).Sound type := by
  change if type = .number then _ else _
  split
  · exact h
  · exact KeyValue.display_ne_empty h

theorem sound_of_setFrom {type : ScalarType} {elements : List AttributeValue} {value : AttributeValue}
    (h : setFrom elements = .ok value) : value.Sound type := by
  unfold setFrom at h
  repeat' split at h
  all_goals first | cases h; exact trivial | cases h

end AttributeValue

theorem EnumType.eq_of_stored {e : EnumType} {options : CodecOptions} {number ordinal : Int}
    (h : e.stored options number = .number ordinal) : ordinal = number := by
  unfold stored at h
  split at h
  · cases h
  · cases h
    rfl

namespace Value

/-- What a value is written as is sound if the value is. -/
theorem sound_of_piece {options : CodecOptions} {flags : WriteFlags} {value : Value}
    {written : AttributeValue} (hmachine : value.IsMachine)
    (h : value.piece options flags false = .ok written) (hnull : written.isNull = false)
    (type : ScalarType) : written.Sound type ↔ value.Sound type := by
  have htext : ∀ {s : String}, (if s = "" then AttributeValue.null true else .text s).isNull = false →
      (if s = "" then AttributeValue.null true else .text s).Sound type := by
    intro s hs
    split at hs
    · cases hs
    · rename_i hne
      rw [if_neg hne]
      exact .inr hne
  cases value with
  | null =>
    cases h
    cases hnull
  | bool b =>
    cases h
    exact Iff.rfl
  | int i =>
    cases h
    exact iff_of_true (.of_fits (KeyValue.fits_toString hmachine)) trivial
  | float x =>
    rw [piece] at h
    split at h
    · rename_i hfinite
      cases h
      exact iff_of_true (.of_fits (KeyValue.fits_print hmachine hfinite)) trivial
    · cases h
  | number digits =>
    cases h
    exact Iff.rfl
  | text s =>
    cases h
    exact iff_of_true (htext hnull) trivial
  | binary bytes =>
    rw [piece] at h
    cases h
    split at hnull
    · cases hnull
    · rename_i hne
      rw [if_neg hne]
      exact iff_of_true hne trivial
  | list items =>
    rw [piece] at h
    obtain ⟨pieces, -, h⟩ := except_bind_eq_ok.mp h
    cases h
    exact Iff.rfl
  | set members =>
    rw [piece] at h
    obtain ⟨pieces, -, h⟩ := except_bind_eq_ok.mp h
    rw [if_neg Bool.false_ne_true] at h
    split at h
    · cases h
    · exact iff_of_true (AttributeValue.sound_of_setFrom h) trivial
  | map fields =>
    rw [piece] at h
    obtain ⟨pieces, -, h⟩ := except_bind_eq_ok.mp h
    cases h
    exact Iff.rfl
  | enumeration e =>
    rw [piece] at h
    split at h
    · cases h
      exact iff_of_true (htext hnull) trivial
    · rename_i ordinal hstored
      cases h
      cases EnumType.eq_of_stored hstored
      exact iff_of_true (.of_fits (KeyValue.fits_toString hmachine)) trivial
  | stored value =>
    cases h
    exact Iff.rfl

end Value

/-! ### Keys -/

namespace PrimaryKey

variable {options : CodecOptions} {member : Member} {value : Value} {component : KeyValue}

theorem sound_enumConstant {constant : Value} (hmember : member.IsMachine) (hvalue : value.IsMachine)
    (h : enumConstant options member value = .ok constant) :
    constant.IsMachine ∧ ∀ type, constant.Sound type ↔ value.Sound type := by
  unfold enumConstant at h
  split at h
  · rename_i variants _ hvariants
    dsimp only at h
    split at h
    · cases h
      exact ⟨hvalue, fun _ => Iff.rfl⟩
    · obtain ⟨number, hread, rfl⟩ := except_map_eq_ok.mp h
      obtain ⟨variant, hmem, rfl⟩ := EnumType.mem_of_read_text hread
      exact ⟨hmember variants hvariants variant hmem, fun _ => Iff.rfl⟩
    · cases h
      exact ⟨hvalue, fun _ => Iff.rfl⟩
  · cases h
    exact ⟨hvalue, fun _ => Iff.rfl⟩

/-- A value is cast to a value of the type that the member is declared with, and a text can stand for this
if the value is sound. -/
theorem fits_castComponent_iff (hmember : member.IsMachine) (hvalue : value.IsMachine)
    (h : castComponent options member value = .ok component) :
    declaredType options member = .ok component.scalarType ∧
      (MemberFits options member component ↔ value.Sound component.scalarType) := by
  obtain ⟨type, htype, h⟩ := except_bind_eq_ok.mp h
  obtain ⟨constant, hconstant, h⟩ := except_bind_eq_ok.mp h
  obtain ⟨encoded, hencoded, h⟩ := except_bind_eq_ok.mp h
  obtain ⟨hmachine, hsame⟩ := sound_enumConstant hmember hvalue hconstant
  rw [Value.encode_eq_piece] at hencoded
  obtain ⟨written, hwritten, hkept⟩ := except_map_eq_ok.mp hencoded
  rw [WriteFlags.keeps_all, if_pos rfl] at hkept
  cases hkept
  dsimp only at h
  split at h
  · cases h
  · rename_i hnull
    obtain ⟨rfl, hfits⟩ := fits_cast_iff h
    refine ⟨htype, ?_⟩
    calc MemberFits options member component
      _ ↔ component.Fits component.scalarType := by
          constructor
          · rintro ⟨type, htype', hfits⟩
            cases htype.symm.trans htype'
            exact hfits
          · exact fun hfits => ⟨_, htype, hfits⟩
      _ ↔ written.Sound component.scalarType := hfits
      _ ↔ constant.Sound component.scalarType :=
          Value.sound_of_piece hmachine hwritten (Bool.eq_false_iff.mpr hnull) _
      _ ↔ value.Sound component.scalarType := hsame _

/-- The values of a key that is made of parts have the types of its members, and a text can stand for the
key just if the parts are sound. -/
theorem ofParts_fits_iff {d : TableDescriptor} {partition : Value} {sort : Option Value}
    {key : PrimaryKey} (hmembers : ∀ position ∈ d.keyPositions, (d.memberAt position).IsMachine)
    (hpartition : partition.IsMachine) (hsort : ∀ value ∈ sort, value.IsMachine)
    (h : ofParts options d partition sort = .ok key) :
    declaredType options d.partitionMember = .ok key.partition.scalarType ∧
      Option.Rel (fun member value => declaredType options member = .ok value.scalarType)
        d.sortMember? key.sort ∧
      (Fits options d key ↔ partition.Sound key.partition.scalarType ∧
        Option.Rel (fun value component => value.Sound component.scalarType) sort key.sort) := by
  have hfirst : (d.memberAt d.partition).IsMachine :=
    hmembers _ (TableDescriptor.mem_keyPositions.mpr (.inl rfl))
  obtain ⟨component, hcast, h⟩ := except_bind_eq_ok.mp h
  obtain ⟨htype, hfits⟩ := fits_castComponent_iff hfirst hpartition hcast
  cases hposition : d.sort with
  | none =>
    have hmember : d.sortMember? = none := by rw [TableDescriptor.sortMember?, hposition]; rfl
    rw [hmember] at h
    cases sort with
    | some value => cases h
    | none =>
      cases h
      refine ⟨htype, hmember ▸ .none, fun hkey => ?_, fun hsound => ?_⟩
      · exact ⟨hfits.mp hkey.partition, .none⟩
      · exact ⟨hfits.mpr hsound.1, hmember ▸ .none⟩
  | some position =>
    have hmember : d.sortMember? = some (d.memberAt position) := by
      rw [TableDescriptor.sortMember?, hposition]
      rfl
    have hsecond : (d.memberAt position).IsMachine :=
      hmembers _ (TableDescriptor.mem_keyPositions.mpr (.inr hposition))
    rw [hmember] at h
    cases sort with
    | none => cases h
    | some value =>
      obtain ⟨second, hcast', heq⟩ := except_bind_eq_ok.mp h
      cases heq
      obtain ⟨htype', hfits'⟩ := fits_castComponent_iff hsecond (hsort value rfl) hcast'
      refine ⟨htype, hmember ▸ .some htype', fun hkey => ?_, fun hsound => ?_⟩
      · have hrel := hkey.sort
        rw [hmember] at hrel
        cases hrel with
        | some hsortFits => exact ⟨hfits.mp hkey.partition, .some (hfits'.mp hsortFits)⟩
      · obtain ⟨hpartitionSound, hrel⟩ := hsound
        cases hrel with
        | some hsortSound =>
          exact ⟨hfits.mpr hpartitionSound, hmember ▸ .some (hfits'.mpr hsortSound)⟩

theorem coded_isMachine :
    ∀ position ∈ codedDescriptor.keyPositions, (codedDescriptor.memberAt position).IsMachine := by
  have hnone : ∀ position ∈ [0, 1], (codedDescriptor.memberAt position).type.variants = none := by
    decide
  intro position hposition variants hvariants
  rw [keyPositions_coded] at hposition
  rw [hnone position hposition] at hvariants
  cases hvariants

/-- A number that is kept as text becomes a value of a key though it is none, and no text can stand for
the key; a float becomes one that a text can stand for. -/
theorem ofParts_fits_iff_wordAndFloat :
    ofParts sampleCodec.options codedDescriptor (.text "c") (some (.number "abc")) =
        .ok ⟨.text "c", some (.number "abc")⟩ ∧
      ¬ Fits sampleCodec.options codedDescriptor ⟨.text "c", some (.number "abc")⟩ ∧
      ofParts sampleCodec.options codedDescriptor (.text "c")
          (some (.float (.finite false (3 * 2 ^ 1073)))) = .ok ⟨.text "c", some (.number "1.5")⟩ ∧
      Fits sampleCodec.options codedDescriptor ⟨.text "c", some (.number "1.5")⟩ := by
  have hword : ofParts sampleCodec.options codedDescriptor (.text "c") (some (.number "abc")) =
      .ok ⟨.text "c", some (.number "abc")⟩ := except_toOption_eq_some.mp (by decide)
  have hfloat : ofParts sampleCodec.options codedDescriptor (.text "c")
      (some (.float (.finite false (3 * 2 ^ 1073)))) = .ok ⟨.text "c", some (.number "1.5")⟩ :=
    except_toOption_eq_some.mp (by decide +kernel)
  have hpartition : (Value.text "c").IsMachine := trivial
  refine ⟨hword, fun hfits => ?_, hfloat, ?_⟩
  · have hmachine : ∀ value ∈ some (Value.number "abc"), value.IsMachine := by
      rintro value ⟨⟩
      exact trivial
    obtain ⟨-, hsound⟩ :=
      (ofParts_fits_iff coded_isMachine hpartition hmachine hword).2.2.mp hfits
    cases hsound with
    | some hsort =>
      have hnone : Floating.readDouble? "abc" = none := by decide
      cases hsort with
      | number trimmed read finite =>
        rw [hnone] at read
        cases read
  · have hmachine : ∀ value ∈ some (Value.float (.finite false (3 * 2 ^ 1073))),
        value.IsMachine := by
      rintro value ⟨⟩
      change Floating.double.roundUnits? (3 * 2 ^ 1073) 1 = some (3 * 2 ^ 1073)
      decide +kernel
    exact (ofParts_fits_iff coded_isMachine hpartition hmachine hfloat).2.2.mpr ⟨trivial, .some trivial⟩

end PrimaryKey

end ItemMapper
