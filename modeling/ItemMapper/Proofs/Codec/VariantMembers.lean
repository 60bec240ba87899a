import ItemMapper.Proofs.Expression.VariantLiterals
import ItemMapper.Proofs.Key.Items

/-!
# Variants in documents

A member that is an enumeration, also an optional or a boxed one, is written as what its variant is stored
as, and what a document stores under the name of a member is what is written for it, after the hooks of the
member. This holds wherever the document is written: alone, as an item, or as a part of another value.

## Main definitions

* `Ty.HoldsVariant`: a value of a type that is a variant, there or behind a pointer.
* `Codec.StoresUnder`: a document that is stored with a value under a name.

## Main statements

* `Codec.write_of_holdsVariant`: how a variant is written.
* `Codec.storesUnder_of_written`: what a document stores for a member.
* `Codec.storesUnder_of_holdsVariant`: what it stores for a variant.
-/

namespace ItemMapper

/-- A value that is the variant with a number, there or behind a pointer. -/
inductive Ty.HoldsVariant (number : Int) : Ty → Datum → Prop
  | enumeration (type : EnumType) : HoldsVariant number (.enumeration type) (.enumeration number)
  | present {inner : Ty} {value : Datum} (h : HoldsVariant number inner value) :
      HoldsVariant number (.option inner) (.present value)
  | boxed {inner : Ty} {value : Datum} (h : HoldsVariant number inner value) :
      HoldsVariant number (.boxed inner) (.boxed value)

/-- A variant whose name is not empty under the policy is neither null nor empty. -/
theorem EnumType.isVoid_piece {options : CodecOptions} {e : EnumType} {number : Int} {name : String}
    (hname : e.name? number = some name) (hkept : options.enumNaming.apply name ≠ "") :
    (e.piece options number).isVoid = false := by
  rw [piece_of_declared hname]
  cases options.enumEncoding with
  | name =>
    dsimp only
    rw [textPiece, if_neg fun hempty => hkept (String.isEmpty_iff.mp hempty)]
    rfl
  | number => rfl

namespace Codec

variable {c : Codec} {type : Ty} {value : Datum} {e : EnumType} {number : Int}

/-- A variant is written as what it is stored as. -/
theorem write_of_holdsVariant (h : type.HoldsVariant number value) (htype : type.enumType? = some e) :
    c.write type value = Writer.write (e.piece c.options number) := by
  induction h with
  | enumeration type =>
    cases htype
    rw [write, EnumType.write_eq]
  | present _ ih | boxed _ ih =>
    rw [write]
    exact ih htype

/-! ### Documents -/

/-- The only member of a document that is stored under its name. -/
def StandsAlone (c : Codec) (f : Field) (value : Datum) (fields : List Field) (members : List Datum) :
    Prop :=
  ∀ other ∈ fields.zip members, c.keepsMember other.1 other.2 = true →
    c.storedName other.1 = c.storedName f → other = (f, value)

/-- A document that is stored with a value under a name, as an item or as a part of another value. -/
def StoresUnder (c : Codec) (id : DocumentId) (members : List Datum) (name : String)
    (value : AttributeValue) : Prop :=
  (∀ item, c.toItem (.document id) (.document members) = .ok item → item.get? name = some value) ∧
    Writer.Places (c.write (.document id) (.document members)) fun stored =>
      ∃ fields : Item, stored = .map fields ∧ fields.get? name = some value

section
variable {f : Field} {fields : List Field} {members : List Datum} {final : AttributeValue}
  (hplaces : c.ConvertersPlace) (hmember : (f, value) ∈ fields.zip members)
  (hkeeps : c.keepsMember f value = true) (halone : c.StandsAlone f value fields members)
  (hfinal : ∀ w outermost stored, c.WritesMember w outermost f value stored → stored = final)
include hplaces hmember hkeeps halone hfinal

/-- The members of a document leave in an open object what is written for one of them, where no other
member has its name. -/
theorem get?_of_standsAlone {w : Writer} {outermost : Bool} {before written : Item}
    {pinned pinned' : List String} (hascending : before.Ascending)
    (hwrite : c.writeMembers fields members (w.withObject outermost before pinned) =
      .ok () (w.withObject outermost written pinned')) :
    written.get? (c.storedName f) = some final := by
  obtain ⟨stored, hget, hlast⟩ := exists_writesLast (places_writeMember hplaces fields members)
    hascending hwrite fun hnothing => hnothing _ hmember hkeeps rfl
  obtain ⟨other, hother, hkept, hname, hstored⟩ := hlast.exists_member
  cases halone other hother hkept hname
  rw [hget, hfinal w outermost stored hstored]

end

/-- A value that is neither null nor empty stays when an object is closed. -/
theorem get?_compactMembers_of_not_isVoid {flags : WriteFlags} {pinned : List String}
    {outermost : Bool} {written : Item} {name : String} {final : AttributeValue}
    (hascending : written.Ascending) (hget : written.get? name = some final)
    (hvoid : final.isVoid = false) :
    (Writer.compactMembers flags pinned outermost written).get? name = some final := by
  rw [Writer.compactMembers, Fields.get?_filter hascending, hget]
  refine Option.filter_some_pos ?_
  rw [Bool.or_eq_true]
  exact .inr (WriteFlags.keeps_of_not_isVoid _ hvoid)

/-- A document is stored with what is written for a member, where no other member has its name. -/
theorem storesUnder_of_written {f : Field} {id : DocumentId} {members : List Datum}
    {final : AttributeValue} (hplaces : c.ConvertersPlace)
    (hmember : (f, value) ∈ (c.documents id).fields.zip members)
    (hkeeps : c.keepsMember f value = true)
    (halone : c.StandsAlone f value (c.documents id).fields members)
    (hfinal : ∀ w outermost stored, c.WritesMember w outermost f value stored → stored = final)
    (hvoid : final.isVoid = false) : c.StoresUnder id members (c.storedName f) final := by
  constructor
  · intro item hitem
    obtain ⟨-, written, pinned, hwrite, hascending, rfl⟩ := exists_written_of_toItem hplaces hitem
    exact get?_compactMembers_of_not_isVoid hascending
      (get?_of_standsAlone hplaces hmember hkeeps halone hfinal .nil hwrite) hvoid
  · rw [write]
    cases hcheck : (c.documents id).check with
    | error e =>
      intro w w' hfree hcall
      simp [unit_bind_eq_ok, beginDocument, hcheck] at hcall
    | ok u =>
      rw [beginDocument_of_check hcheck, bind_assoc]
      simp only [writeTag, pure_bind]
      refine Writer.Places.object (R := fun written : Item => written.Ascending ∧
        written.get? (c.storedName f) = some final) (fun w w' outermost hwrite => ?_)
        fun flags pinned outermost written hwritten => ?_
      · obtain ⟨written, pinned, rfl, hascending, -⟩ :=
          writeMembers_adds (places_writeMember hplaces _ _) .nil hwrite
        exact ⟨written, pinned, ⟨hascending,
          get?_of_standsAlone hplaces hmember hkeeps halone hfinal .nil hwrite⟩, rfl⟩
      · exact ⟨_, rfl, get?_compactMembers_of_not_isVoid hwritten.1 hwritten.2 hvoid⟩

/-- A document is stored with what a variant is stored as, after the hooks of the member that holds it. -/
theorem storesUnder_of_holdsVariant {f : Field} {id : DocumentId} {members : List Datum}
    {final : AttributeValue} (hplaces : c.ConvertersPlace)
    (hvariant : f.type.HoldsVariant number value) (htype : f.type.enumType? = some e)
    (hkept : (e.piece c.options number).isVoid = false)
    (hmember : (f, value) ∈ (c.documents id).fields.zip members)
    (hkeeps : c.keepsMember f value = true)
    (halone : c.StandsAlone f value (c.documents id).fields members)
    (hhooks : runWriteHooks f.onWrite (e.piece c.options number) = .ok final)
    (hvoid : final.isVoid = false) : c.StoresUnder id members (c.storedName f) final := by
  have hwrite := write_of_holdsVariant (c := c) hvariant htype
  refine storesUnder_of_written hplaces hmember hkeeps halone (fun w outermost stored hstored => ?_) hvoid
  have hencode : c.encodeWith .none f.type value = .ok (some (e.piece c.options number)) := by
    rw [encodeWith, hwrite]
    exact Writer.run_eq_ok.mpr ⟨_, Writer.write_of_free (by rfl) _, congrArg Except.ok
      (Option.filter_some_pos (WriteFlags.keeps_of_not_isVoid _ hkept))⟩
  exact PrimaryKey.eq_of_writeHooked (hwrite ▸ Writer.uniform_write _) hencode hhooks hstored

end Codec

end ItemMapper
