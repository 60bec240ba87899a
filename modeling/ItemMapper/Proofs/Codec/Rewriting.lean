import ItemMapper.Proofs.Codec.Stability

/-!
# Items that are read and written back

An item that is read and written back is the same item, but for members whose values are written as
null or as an empty container without being a null, a default or a document: in their place another
value is read, which may be left out or stored where they were not. Either way, nothing but a null or
an empty container comes or goes.

## Main definitions

* `Codec.MayChange`: the members of which a null or an empty container may come or go.
* `Codec.AlikeAt`: what two items hold under a name is the same, but for such members.

## Main statements

* `Codec.toItem_fromItem`: what becomes of an item that is read and written back.
-/

namespace ItemMapper

/-- Null and empty containers are kept only where the flags say so. -/
theorem WriteFlags.keeps_of_isVoid {flags : WriteFlags} {value : AttributeValue}
    (hvoid : value.isVoid = true) (h : flags.keeps value = true) :
    flags.persistNullValues = true ∨ flags.persistEmptyObjects = true := by
  rw [keeps] at h
  split at h
  · exact .inl h
  · rename_i hnull
    split at h
    · exact .inr h
    · rename_i hempty
      rw [AttributeValue.isVoid, Bool.or_eq_true] at hvoid
      exact absurd hvoid (not_or.mpr ⟨hnull, hempty⟩)

namespace Codec

variable {c : Codec} {family : DocumentId → Prop}

/-- Nulls or empty containers that are written for the member may stay in an item, as the options or the
member itself ask for them. -/
def KeepsNothings (c : Codec) (f : Field) : Prop :=
  isPinned f = true ∨ c.options.serializeNullValues = true ∨
    c.options.serializeDefaultValues = true

/-- The member wavers, and its null or empty container may stay in an item. -/
def MayChange (c : Codec) (f : Field) (value : Datum) : Prop :=
  c.Wavers f value ∧ c.KeepsNothings f

/-- Under the name, the item holds no more than a null or an empty container. -/
def HoldsNothing (item : Item) (name : String) : Prop :=
  ∀ found, item.get? name = some found → found.isVoid = true

/-- Under the name, the items hold the same, or both hold no more than the null or the empty container
that a member which may change is written as. -/
def AlikeAt (c : Codec) (id : DocumentId) (members : List Datum) (item item' : Item)
    (name : String) : Prop :=
  item'.get? name = item.get? name ∨
    HoldsNothing item name ∧ HoldsNothing item' name ∧
      ∃ member ∈ (c.documents id).fields.zip members,
        c.storedName member.1 = name ∧ c.MayChange member.1 member.2

variable {f : Field} {value : Datum} {item : Item}

theorem LeavesNothing.kept?_eq_none (h : c.LeavesNothing f value) (hkeeps : ¬ c.KeepsNothings f) :
    c.kept? f value = none := by
  refine h.filter_eq_none fun piece hvoid => Bool.eq_false_iff.mpr fun hkept => hkeeps ?_
  rcases Bool.or_eq_true_iff.mp hkept with hpinned | hflags
  · exact .inl hpinned
  · exact .inr (WriteFlags.keeps_of_isVoid hvoid hflags)

theorem LeavesNothing.holdsNothing (h : c.LeavesNothing f value)
    (hget : item.get? (c.storedName f) = c.kept? f value) : HoldsNothing item (c.storedName f) := by
  intro found hfound
  rw [hget, kept?, Option.filter_eq_some_iff] at hfound
  exact h found hfound.1

/-- What is read of a member from an item is written, if it is not left out, and the same is kept of it
as before, or else the member may change and nothing is stored of it either time. -/
theorem kept?_of_decodeMember (h : c.Restorable family) {id : DocumentId} (hid : family id)
    (hf : f ∈ (c.documents id).fields) (hvalue : c.HasType f.type value)
    (hsets : c.SetsInOrder f.type value)
    (hwritten : c.keepsMember f value = true → ∃ piece, c.piece? false f.type value = some piece)
    (hget : item.get? (c.storedName f) = c.kept? f value) {read : Datum}
    (hread : c.decodeMember item f = .ok read) :
    (c.keepsMember f read = true → ∃ piece, c.piece? false f.type read = some piece) ∧
      (c.kept? f read = c.kept? f value ∨
        c.MayChange f value ∧ c.LeavesNothing f value ∧ c.LeavesNothing f read) := by
  have hkeep : ∀ piece : AttributeValue, piece.isVoid = false →
      (isPinned f || c.writeFlags.keeps piece) = true := fun piece hvoid => by
    rw [WriteFlags.keeps_of_not_isVoid _ hvoid, Bool.or_true]
  obtain ⟨hagain, hsame⟩ := stored?_of_decodeMember h hid hf hvalue hwritten hkeep hget hread
    fun piece read hpiece hread =>
      settles_of_decode h (h.types id hid f hf) hvalue hsets hpiece hread
  refine ⟨hagain, ?_⟩
  rcases hsame with hsame | ⟨hwavers, hnothing, hnothing'⟩
  · exact .inl hsame
  · by_cases hkeeps : c.KeepsNothings f
    · exact .inr ⟨⟨hwavers, hkeeps⟩, hnothing, hnothing'⟩
    · exact .inl ((hnothing'.kept?_eq_none hkeeps).trans (hnothing.kept?_eq_none hkeeps).symm)

/-- An item that is read is written back, and is the same but for the nulls and empty containers of
members that may change. -/
theorem toItem_fromItem (h : c.Restorable family) {id : DocumentId} (hid : family id)
    {members : List Datum} (hvalue : c.HasType (.document id) (.document members))
    (hsets : c.SetsInOrder (.document id) (.document members))
    (hitem : c.toItem (.document id) (.document members) = .ok item) {read : Datum}
    (hread : c.fromItem (.document id) item = .ok read) :
    ∃ item', c.toItem (.document id) read = .ok item' ∧
      (∀ name, c.AlikeAt id members item item' name) ∧
      ((∀ member ∈ (c.documents id).fields.zip members, ¬ c.MayChange member.1 member.2) →
        item' = item) := by
  cases hvalue with
  | document length held =>
    cases hsets with
    | document hsets =>
      obtain ⟨hcheck, pieces, hpieces, rfl⟩ := (toItem_document_eq_ok h hid).mp hitem
      obtain ⟨-, values, hvalues, rfl⟩ := decode_document_eq_ok.mp hread
      have hnames := h.names id hid
      have hkept : ∀ f value read, (f, value) ∈ (c.documents id).fields.zip members →
          (f, read) ∈ (c.documents id).fields.zip values → _ :=
        fun f value read hmember hmember' =>
          kept?_of_decodeMember h hid (List.of_mem_zip hmember).1 (held _ hmember) (hsets _ hmember)
            (exists_piece_of_kept hpieces hmember) (get?_outermost hnames hpieces hmember)
            (List.forall₂_zip hvalues hmember')
      obtain ⟨pieces', hpieces'⟩ := exists_memberPieces fun member hmember' hkeeps => by
        obtain ⟨value, hmember⟩ := exists_mem_zip length (List.of_mem_zip hmember').1
        exact (hkept member.1 value member.2 hmember hmember').1 hkeeps
      have halike : ∀ name,
          c.AlikeAt id members (c.outermost pieces) (c.outermost pieces') name := by
        intro name
        by_cases hname : name ∈ (c.documents id).fields.map c.storedName
        · obtain ⟨f, hf, rfl⟩ := List.mem_map.mp hname
          obtain ⟨value, hmember⟩ := exists_mem_zip length hf
          obtain ⟨read, hmember'⟩ := exists_mem_zip hvalues.length_eq hf
          have hget := get?_outermost hnames hpieces hmember
          have hget' := get?_outermost hnames hpieces' hmember'
          rcases (hkept f value read hmember hmember').2 with hsame | ⟨hmay, hnothing, hnothing'⟩
          · exact .inl (hget'.trans (hsame.trans hget.symm))
          · exact .inr ⟨hnothing.holdsNothing hget, hnothing'.holdsNothing hget', (f, value), hmember,
              rfl, hmay⟩
        · refine .inl ?_
          rw [get?_outermost_other hnames hpieces hname, get?_outermost_other hnames hpieces' hname]
      refine ⟨c.outermost pieces', (toItem_document_eq_ok h hid).mpr ⟨hcheck, pieces', hpieces', rfl⟩,
        halike, fun hnone => ?_⟩
      refine Fields.ext_get? (ascending_outermost c pieces') (ascending_outermost c pieces)
        fun name => (halike name).resolve_right ?_
      rintro ⟨-, -, member, hmember, -, hmay⟩
      exact hnone member hmember hmay

/-- A record with a set, whose notes are there but empty. -/
def sampleRecord : List Datum :=
  [.text "n", .list [.text "a", .text "b"], .present (.text "")]

/-- Its item: the empty text is stored as null. -/
def sampleRecordItem : Item :=
  [("Name", .text "n"), ("Notes", .null true), ("Tags", .textSet ["a", "b"])]

theorem record_restorable : storingNulls.Restorable (· = 0) where
  converters := rfl
  onWrite := by
    rintro id rfl f hf
    fin_cases hf <;> rfl
  onRead := by
    rintro id rfl f hf
    fin_cases hf <;> rfl
  names := by
    rintro id rfl
    decide
  initial := by
    rintro id rfl f hf
    fin_cases hf <;> rfl
  types := by
    rintro id rfl f hf
    fin_cases hf <;> exact trivial

theorem sampleRecord_hasType : storingNulls.HasType (.document 0) (.document sampleRecord) := by
  refine .document rfl fun member hmember => ?_
  fin_cases hmember
  · exact .scalar trivial
  · refine .set false (fun item hitem => ?_) (by decide)
    fin_cases hitem <;> exact .scalar trivial
  · exact .present (.scalar trivial)

theorem sampleRecord_setsInOrder :
    storingNulls.SetsInOrder (.document 0) (.document sampleRecord) := by
  refine .document fun member hmember => ?_
  fin_cases hmember
  · exact .scalar _ _
  · refine .set (fun written reads hrun hread => ?_) fun item hitem => ?_
    · cases hrun
      have hback : storingNulls.decode (.list Sample.text) (.list [.text "a", .text "b"]) =
          .ok (.list [.text "a", .text "b"]) := by cbv
      cases hback.symm.trans hread
      decide
    · fin_cases hitem <;> exact .scalar _ _
  · exact .present (.scalar _ _)

theorem toItem_fromItem_sampleRecord :
    storingNulls.Restorable (· = 0) ∧
      storingNulls.HasType (.document 0) (.document sampleRecord) ∧
      storingNulls.SetsInOrder (.document 0) (.document sampleRecord) ∧
      storingNulls.toItem (.document 0) (.document sampleRecord) = .ok sampleRecordItem ∧
      ∃ read, storingNulls.fromItem (.document 0) sampleRecordItem = .ok read ∧
        ∃ item', storingNulls.toItem (.document 0) read = .ok item' ∧
          (∀ name, storingNulls.AlikeAt 0 sampleRecord sampleRecordItem item' name) ∧
          ((∀ member ∈ (storingNulls.documents 0).fields.zip sampleRecord,
            ¬ storingNulls.MayChange member.1 member.2) → item' = sampleRecordItem) := by
  have hitem : storingNulls.toItem (.document 0) (.document sampleRecord) =
      .ok sampleRecordItem := by cbv
  have hread : storingNulls.fromItem (.document 0) sampleRecordItem =
      .ok (.document [.text "n", .list [.text "a", .text "b"], .absent]) := by cbv
  exact ⟨record_restorable, sampleRecord_hasType, sampleRecord_setsInOrder, hitem, _, hread,
    toItem_fromItem record_restorable rfl sampleRecord_hasType sampleRecord_setsInOrder hitem hread⟩

/-- An order that is shipped to an address of which nothing is known. -/
def sampleOrder : List Datum :=
  [.text "c", .text "p", .int 0, .text "", .text "", .int 0,
    .present (.document [.text "", .list [], .map []])]

/-- The same order without an address. -/
def unaddressedOrder : List Datum :=
  [.text "c", .text "p", .int 0, .text "", .text "", .int 0, .absent]

/-- The item of the first of them. -/
def sampleOrderItem : Item := [("customer", .text "c"), ("placed_at", .text "p")]

theorem order_restorable : storingNulls.Restorable fun id => id = 25 ∨ id = 2 where
  converters := rfl
  onWrite := by
    rintro id (rfl | rfl) f hf <;> fin_cases hf <;> rfl
  onRead := by
    rintro id (rfl | rfl) f hf <;> fin_cases hf <;> rfl
  names := by
    rintro id (rfl | rfl) <;> decide
  initial := by
    rintro id (rfl | rfl) f hf <;> fin_cases hf <;> rfl
  types := by
    rintro id (rfl | rfl) f hf <;> fin_cases hf
    all_goals first | exact trivial | exact .inr rfl

/-- Reading an item and writing it back may change it: an empty document is left out of the item of a
document, but the null that is read in its place is stored where nulls are. -/
theorem toItem_fromItem_sampleOrder_ne :
    storingNulls.Restorable (fun id => id = 25 ∨ id = 2) ∧
      storingNulls.toItem (.document 25) (.document sampleOrder) = .ok sampleOrderItem ∧
      storingNulls.fromItem (.document 25) sampleOrderItem = .ok (.document unaddressedOrder) ∧
      storingNulls.toItem (.document 25) (.document unaddressedOrder) =
        .ok (sampleOrderItem ++ [("shipTo", .null true)]) ∧
      storingNulls.toItem (.document 25) (.document unaddressedOrder) ≠ .ok sampleOrderItem := by
  have hagain : storingNulls.toItem (.document 25) (.document unaddressedOrder) =
      .ok (sampleOrderItem ++ [("shipTo", .null true)]) := by cbv
  refine ⟨order_restorable, by cbv, by cbv, hagain, ?_⟩
  rw [hagain]
  decide

end Codec

end ItemMapper
