import ItemMapper.Mapper
import ItemMapper.Proofs.Codec.Members

/-!
# Items

The item of a document is its outermost object: the members that are written, without those nulls
and empty containers that neither the options nor the members themselves ask for.

## Main definitions

* `Codec.outermost`: the outermost object of written members.
* `Codec.kept?`: what an item holds of a member.

## Main statements

* `Codec.toItem_document_eq_ok`: when a document has an item, and which.
* `Codec.stores_outermost`: it stores the members.
* `Codec.get?_outermost`: what it holds under the names of members.
-/

namespace ItemMapper

namespace Writer

theorem run_eq_ok {w : Writer} {call : WriterM Unit} {written? : Option AttributeValue} :
    run w call = .ok written? ↔ ∃ w', call w = .ok () w' ∧ w'.finish = .ok written? := by
  rw [run]
  cases call w with
  | ok u t => simp
  | error e t => simp

/-- Of an object only an empty one may not be kept at the root. -/
theorem finish_fill_map (flags : WriteFlags) (item : Item) :
    ((new flags).fill (.map item)).finish = .ok (some (.map item)) ∨
      item = [] ∧ ((new flags).fill (.map item)).finish = .ok none := by
  change Except.ok ((some (AttributeValue.map item)).filter flags.keeps) = _ ∨
    _ ∧ Except.ok ((some (AttributeValue.map item)).filter flags.keeps) = _
  cases hkeeps : flags.keeps (.map item) with
  | true => exact .inl (congrArg _ (Option.filter_some_pos hkeeps))
  | false =>
    cases item with
    | nil => exact .inr ⟨rfl, congrArg _ (Option.filter_some_neg (by rw [hkeeps]))⟩
    | cons field rest => cases hkeeps

end Writer

namespace Codec

variable {c : Codec} {family : DocumentId → Prop} {id : DocumentId} {members : List Datum}
  {item : Item}

/-- The outermost object of written members. -/
def outermost (c : Codec) (pieces : List (Field × AttributeValue)) : Item :=
  Writer.compactMembers c.writeFlags (c.pinnedBy [] pieces) true (Fields.ofList (c.named pieces))

theorem write_document_eq_ok (h : c.Restorable family) (hid : family id) {flags : WriteFlags}
    {w' : Writer} :
    c.write (.document id) (.document members) (Writer.new flags) = .ok () w' ↔
      (c.documents id).check = .ok () ∧
        ∃ pieces, c.memberPieces? (c.documents id).fields members = some pieces ∧
          w' = (Writer.new flags).fill (.map (Writer.compactMembers flags (c.pinnedBy [] pieces) true
            (Fields.ofList (c.named pieces)))) := by
  rw [write]
  cases hcheck : (c.documents id).check with
  | error e => simp [unit_bind_eq_ok, beginDocument, hcheck]
  | ok u =>
    have hbegin : Writer.beginObject (Writer.new flags) =
        .ok () ((Writer.new flags).withObject true [] []) := Writer.beginObject_of_free rfl
    have hmembers := fun t => @writeTag_writeMembers_eq_ok c _ members (h.onWrite id hid)
      (fills_writeMember h (c.documents id).fields members (h.types id hid)) none true
      (Writer.new flags) t
    rw [beginDocument_of_check hcheck, bind_assoc, unit_bind_eq_ok]
    simp only [hbegin, EStateM.Result.ok.injEq, true_and, exists_eq_left']
    rw [← bind_assoc, unit_bind_eq_ok]
    constructor
    · rintro ⟨t, hwrite, hend⟩
      obtain ⟨pieces, hpieces, rfl⟩ := (hmembers t).mp hwrite
      rw [Writer.endObject_withObject rfl] at hend
      cases hend
      exact ⟨pieces, hpieces, rfl⟩
    · rintro ⟨pieces, hpieces, rfl⟩
      exact ⟨_, (hmembers _).mpr ⟨pieces, hpieces, rfl⟩, Writer.endObject_withObject rfl ..⟩

/-- The item of a value that is written as a map is the map. If it is empty, the root may not be kept,
and the item is empty all the same. -/
theorem toItem_of_write {type : Ty} {value : Datum}
    (h : c.write type value (Writer.new c.writeFlags) =
      .ok () ((Writer.new c.writeFlags).fill (.map item))) :
    c.toItem type value = .ok item := by
  refine except_bind_eq_ok.mpr ?_
  rcases Writer.finish_fill_map c.writeFlags item with hkept | ⟨rfl, hnone⟩
  · exact ⟨_, Writer.run_eq_ok.mpr ⟨_, h, hkept⟩, rfl⟩
  · exact ⟨_, Writer.run_eq_ok.mpr ⟨_, h, hnone⟩, rfl⟩

/-- A value that has an item is written. -/
theorem exists_write_of_toItem {type : Ty} {value : Datum} (h : c.toItem type value = .ok item) :
    ∃ w', c.write type value (Writer.new c.writeFlags) = .ok () w' := by
  obtain ⟨written?, hencode, -⟩ := except_bind_eq_ok.mp h
  obtain ⟨w', hwrite, -⟩ := Writer.run_eq_ok.mp hencode
  exact ⟨w', hwrite⟩

/-- A document has an item when its declaration has no faults and all its written members have
pieces. -/
theorem toItem_document_eq_ok (h : c.Restorable family) (hid : family id) :
    c.toItem (.document id) (.document members) = .ok item ↔
      (c.documents id).check = .ok () ∧
        ∃ pieces, c.memberPieces? (c.documents id).fields members = some pieces ∧
          item = c.outermost pieces := by
  constructor
  · intro hitem
    obtain ⟨w', hwrite⟩ := exists_write_of_toItem hitem
    obtain ⟨hcheck, pieces, hpieces, rfl⟩ := (write_document_eq_ok h hid).mp hwrite
    exact ⟨hcheck, pieces, hpieces, Except.ok.inj (hitem.symm.trans (toItem_of_write hwrite))⟩
  · rintro ⟨hcheck, pieces, hpieces, rfl⟩
    exact toItem_of_write ((write_document_eq_ok h hid).mpr ⟨hcheck, pieces, hpieces, rfl⟩)

/-- The item of a document stores its members. -/
theorem stores_outermost (h : c.Restorable family) (hid : family id)
    {pieces : List (Field × AttributeValue)}
    (hpieces : c.memberPieces? (c.documents id).fields members = some pieces)
    {member : Field × Datum} (hmember : member ∈ (c.documents id).fields.zip members) :
    c.Stores (c.outermost pieces) member.1 member.2 :=
  stores_compactMembers (h.names id hid) leavesFree_none hpieces hmember c.writeFlags
    (c.pinnedBy [] pieces) true

/-! ### What is found in an item -/

variable {fields : List Field} {pieces : List (Field × AttributeValue)}

theorem mem_pinnedBy {name : String} {pinned : List String} :
    name ∈ c.pinnedBy pinned pieces ↔
      name ∈ pinned ∨ ∃ piece ∈ pieces, isPinned piece.1 = true ∧ c.storedName piece.1 = name := by
  induction pieces generalizing pinned with
  | nil => simp [pinnedBy]
  | cons piece pieces ih =>
    rw [pinnedBy, List.foldl_cons]
    change name ∈ c.pinnedBy (if isPinned piece.1 then _ else pinned) pieces ↔ _
    simp only [ih, List.mem_cons, exists_eq_or_imp]
    by_cases hpinned : isPinned piece.1 = true
    · rw [if_pos hpinned, List.mem_cons, eq_comm (a := name), or_comm (a := _ = name), or_assoc]
      simp only [hpinned, true_and]
    · rw [if_neg hpinned]
      simp only [hpinned, Bool.false_eq_true, false_and, false_or]

/-- A member that is written is pinned if it is declared to be. -/
theorem contains_pinnedBy (hnames : (fields.map c.storedName).Nodup)
    (hpieces : c.memberPieces? fields members = some pieces) {member : Field × Datum}
    (hmember : member ∈ fields.zip members) {piece : AttributeValue}
    (hstored : c.stored? member.1 member.2 = some piece) :
    (c.pinnedBy [] pieces).contains (c.storedName member.1) = isPinned member.1 := by
  have hof : ∀ written ∈ pieces, c.storedName written.1 = c.storedName member.1 →
      written.1 = member.1 := fun written hwritten =>
    List.inj_on_of_nodup_map hnames
      ((fields_sublist hpieces).subset (List.mem_map_of_mem (f := (·.1)) hwritten))
      (List.of_mem_zip hmember).1
  obtain ⟨written, hwritten, heq⟩ : ∃ written ∈ pieces, written.1 = member.1 := by
    rw [← lookup_named hnames hpieces hmember] at hstored
    obtain ⟨written, hwritten, hname⟩ := List.mem_map.mp (mem_of_lookup hstored)
    exact ⟨written, hwritten, hof written hwritten (congrArg Prod.fst hname)⟩
  rw [Bool.eq_iff_iff, List.contains_iff_mem, mem_pinnedBy]
  constructor
  · rintro (hnil | ⟨written', hwritten', hpinned, hname⟩)
    · cases hnil
    · rw [← hof written' hwritten' hname]
      exact hpinned
  · intro hpinned
    exact .inr ⟨written, hwritten, heq ▸ hpinned, congrArg c.storedName heq⟩

/-- What an item holds of a member. -/
def kept? (c : Codec) (f : Field) (value : Datum) : Option AttributeValue :=
  (c.stored? f value).filter fun piece => isPinned f || c.writeFlags.keeps piece

/-- It is found under the name of the member. -/
theorem get?_outermost (hnames : (fields.map c.storedName).Nodup)
    (hpieces : c.memberPieces? fields members = some pieces) {member : Field × Datum}
    (hmember : member ∈ fields.zip members) :
    Fields.get? (c.outermost pieces) (c.storedName member.1) = c.kept? member.1 member.2 := by
  have hget := get?_compactMembers_member hnames (leavesFree_none (c := c)) hpieces hmember
    c.writeFlags (c.pinnedBy [] pieces) true
  refine hget.trans ?_
  rw [kept?]
  cases hstored : c.stored? member.1 member.2 with
  | none => rfl
  | some piece =>
    rw [Option.filter_some, Option.filter_some, contains_pinnedBy hnames hpieces hmember hstored]
    rfl

/-- Under other names than those of members an item holds nothing. -/
theorem get?_outermost_other (hnames : (fields.map c.storedName).Nodup)
    (hpieces : c.memberPieces? fields members = some pieces) {name : String}
    (hname : name ∉ fields.map c.storedName) : Fields.get? (c.outermost pieces) name = none :=
  get?_compactMembers_other hnames (leavesFree_none (c := c)) hpieces c.writeFlags
    (c.pinnedBy [] pieces) true hname

theorem ascending_outermost (c : Codec) (pieces : List (Field × AttributeValue)) :
    Fields.Ascending (c.outermost pieces) :=
  (Fields.ascending_ofList _).filter _

end Codec

end ItemMapper
