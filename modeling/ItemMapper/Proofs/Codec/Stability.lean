import ItemMapper.Proofs.Codec.Defaults
import ItemMapper.Proofs.Codec.RoundTrip

/-!
# What is read is stored as before

Many values are stored alike: nulls, empty containers and defaults are dropped, and the value that is
read in their place is another one. But it is stored as what it was read from, at any depth, and,
unless that is null or an empty container, counts as a null or a default where the value did that was
written first.

Sets are the exception: what vanishes in their members may be what told these apart, or put them in
their order.

## Main definitions

* `Codec.SetsInOrder`: the members of sets stay apart and in order when they are read back.
* `Codec.Settles`: what is read is stored as what it was read from.
* `Codec.Wavers`: a member that is stored as nothing, though it is no null, default or document.

## Main statements

* `Codec.settles_of_decode`: reading what a value is stored as inside another one.
* `Codec.stored?_of_decodeMember`: reading a member from an item in which it is found.
-/

namespace ItemMapper

/-! ### Lists in step -/

theorem forall₂_filter_right {α β : Type} {R : α → β → Prop} {xs : List α} {ys : List β}
    (h : List.Forall₂ R xs ys) (p : β → Bool) :
    ∃ xs', xs'.Sublist xs ∧ List.Forall₂ R xs' (ys.filter p) := by
  induction h with
  | nil => exact ⟨[], .slnil, .nil⟩
  | @cons x y xs ys hxy _ ih =>
    obtain ⟨xs', hsub, hforall⟩ := ih
    rw [List.filter_cons]
    split
    · exact ⟨x :: xs', hsub.cons_cons x, .cons hxy hforall⟩
    · exact ⟨xs', hsub.cons x, hforall⟩

theorem forall₂_chain {α β γ : Type} {R : α → β → Prop} {S : β → γ → Prop} {T : γ → β → Prop}
    {xs : List α} {ys : List β} {zs : List γ} (h : List.Forall₂ R xs ys) (hr : List.Forall₂ S ys zs)
    (himp : ∀ x ∈ xs, ∀ y z, R x y → S y z → T z y) : List.Forall₂ T zs ys := by
  induction h generalizing zs with
  | nil =>
    cases hr
    exact .nil
  | @cons x y xs ys hxy _ ih =>
    obtain ⟨z, zs, hyz, hrest, rfl⟩ := List.forall₂_cons_left_iff.mp hr
    exact .cons (himp x List.mem_cons_self y z hxy hyz)
      (ih hrest fun x' hx' => himp x' (List.mem_cons_of_mem _ hx'))

theorem isEmpty_eq_of_filter {α β γ : Type} {xs : List α} {ys : List β} {zs : List γ} {p : β → Bool}
    (hxs : xs.length = ys.length) (hzs : zs.length = (ys.filter p).length)
    (h : ys.filter p ≠ [] ∨ xs = []) : zs.isEmpty = xs.isEmpty := by
  have hle := List.length_filter_le p ys
  rw [Bool.eq_iff_iff, List.isEmpty_iff_length_eq_zero, List.isEmpty_iff_length_eq_zero]
  rcases h with hkept | rfl
  · have hpos := List.length_pos_of_ne_nil hkept
    omega
  · rw [List.length_nil] at hxs ⊢
    omega

namespace Writer

/-- A list is closed as what stays of its elements. -/
theorem closeArray_list (inArray : Bool) (elements : List AttributeValue) :
    closeArray false inArray elements = .ok (.list (elements.filter (!·.isVoid))) := by
  rw [← filter_keeps]
  rfl

/-- An array is closed as what stays of its elements is. -/
theorem closeArray_filter {asSet inArray : Bool} {elements : List AttributeValue}
    {value : AttributeValue} (h : closeArray asSet inArray elements = .ok value) :
    closeArray asSet inArray (elements.filter (!·.isVoid)) = .ok value := by
  rw [closeArray_of_stays fun e he => by simpa using (List.mem_filter.mp he).2]
  unfold closeArray at h
  simp only [filter_keeps] at h
  split at h
  · rename_i hinfer
    rw [if_pos hinfer]
    split at h
    · cases h
    · exact h
  · rename_i hinfer
    rw [if_neg hinfer]
    exact h

/-- Something stays of an array that is not closed as an empty one. -/
theorem filter_ne_nil_of_closeArray {asSet inArray : Bool} {elements : List AttributeValue}
    {value : AttributeValue} (h : closeArray asSet inArray elements = .ok value)
    (hvoid : value.isVoid = false) : elements.filter (!·.isVoid) ≠ [] := by
  intro hnil
  have hclosed := closeArray_filter h
  rw [hnil] at hclosed
  have hempty : closeArray asSet inArray [] = .ok (.list []) := by
    cases asSet <;> cases inArray <;> rfl
  cases hempty.symm.trans hclosed
  cases hvoid

end Writer

/-- A scalar counts as an equal one. -/
theorem Scalar.Holds.countsAs {type : Scalar} {value read : Datum} (h : type.Holds value)
    (hplain : ∀ text, type ≠ .textual text) (heq : read.equals value = true) :
    read.CountsAs value := by
  have hnull : read.isNull = false := by
    cases type <;> cases value <;> first | exact h.elim | (cases read <;> first | rfl | cases heq)
  refine ⟨hnull.trans h.isNull_eq_false.symm, fun _ => ?_⟩
  cases type with
  | bool =>
    cases value with
    | bool value =>
      cases read with
      | bool read => rw [eq_of_beq heq]
      | _ => cases heq
    | _ => exact h.elim
  | int type =>
    cases value with
    | int value =>
      cases read with
      | int read => rw [eq_of_beq heq]
      | _ => cases heq
    | _ => exact h.elim
  | float type =>
    cases value with
    | float value =>
      cases read with
      | float read => exact congrArg (· == some .eq) (Floating.compare?_of_equals heq _)
      | _ => cases heq
    | _ => exact h.elim
  | char =>
    cases value with
    | char value =>
      cases read with
      | char read => rw [eq_of_beq heq]
      | _ => cases heq
    | _ => exact h.elim
  | text =>
    cases value with
    | text value =>
      cases read with
      | text read => rw [eq_of_beq heq]
      | _ => cases heq
    | _ => exact h.elim
  | binary =>
    cases value with
    | binary value =>
      cases read with
      | binary read => rw [eq_of_beq heq]
      | _ => cases heq
    | _ => exact h.elim
  | textual type => exact absurd rfl (hplain type)

namespace Codec

variable {c : Codec} {family : DocumentId → Prop} {type : Ty} {value : Datum}
  {piece : AttributeValue}

/-- The members of each set in the value, stored in a list and read back, are in ascending order, no
two of them the same. -/
inductive SetsInOrder (c : Codec) : Ty → Datum → Prop
  | scalar (type : Scalar) (value : Datum) : SetsInOrder c (.scalar type) value
  | enumeration (type : EnumType) (value : Datum) : SetsInOrder c (.enumeration type) value
  | absent (inner : Ty) : SetsInOrder c (.option inner) .absent
  | present {inner : Ty} {value : Datum} (held : SetsInOrder c inner value) :
      SetsInOrder c (.option inner) (.present value)
  | boxed {inner : Ty} {value : Datum} (held : SetsInOrder c inner value) :
      SetsInOrder c (.boxed inner) (.boxed value)
  | list {inner : Ty} {items : List Datum} (held : ∀ item ∈ items, SetsInOrder c inner item) :
      SetsInOrder c (.list inner) (.list items)
  | set {hashed : Bool} {inner : Ty} {items : List Datum}
      (ascends : ∀ written reads,
        Writer.forPart.run (c.write (.list inner) (.list items)) = .ok (some written) →
        c.decode (.list inner) written = .ok (.list reads) →
          reads.Pairwise fun x y => x.compare y = .lt)
      (held : ∀ item ∈ items, SetsInOrder c inner item) :
      SetsInOrder c (.set hashed inner) (.list items)
  | map {hashed : Bool} {inner : Ty} {entries : List (String × Datum)}
      (held : ∀ entry ∈ entries, SetsInOrder c inner entry.2) :
      SetsInOrder c (.map hashed inner) (.map entries)
  | document {id : DocumentId} {members : List Datum}
      (held : ∀ member ∈ (c.documents id).fields.zip members,
        SetsInOrder c member.1.type member.2) :
      SetsInOrder c (.document id) (.document members)
  | oneOf {name variant : String} {variants : List (String × DocumentId)} {id : DocumentId}
      {members : List Datum} (known : variants.lookup variant = some id)
      (held : ∀ member ∈ (c.documents id).fields.zip members,
        SetsInOrder c member.1.type member.2) :
      SetsInOrder c (.oneOf name variants) (.variant variant members)

/-- What is read is stored as what it was read from, and counts as a null or a default where the
value did that was written, if it is no null or empty container that another value may be read
as. -/
def Settles (c : Codec) (inArray : Bool) (type : Ty) (value : Datum) (piece : AttributeValue)
    (read : Datum) : Prop :=
  c.piece? inArray type read = some piece ∧
    (piece.isVoid = false ∨ LeftOutAlike type value → read.CountsAs value)

/-- What is read of a scalar is stored as before, and counts as the scalar does. -/
theorem scalar_settles (hc : c.converters = Converter.builtins) {type : Scalar}
    (holds : type.Holds value) (hpiece : type.piece? value = some piece) {read : Datum}
    (hread : c.readLeaf (.scalar type) piece = .ok read) :
    type.piece? read = some piece ∧ read.CountsAs value := by
  by_cases htextual : ∃ text, type = .textual text
  · obtain ⟨text, rfl⟩ := htextual
    obtain ⟨hagain, hnull, hdefault⟩ := textual_piece_of_readLeaf hc holds hpiece hread
    exact ⟨hagain, hnull.trans holds.isNull_eq_false.symm, fun _ => hdefault⟩
  · have hplain := fun text htext => htextual ⟨text, htext⟩
    obtain ⟨read', hread', hequals, hagain⟩ := readLeaf_piece hc hplain holds hpiece
    cases hread'.symm.trans hread
    exact ⟨hagain, holds.countsAs hplain hequals⟩

/-! ### Containers -/

/-- What is read of the pieces that stay of an array has these pieces. -/
theorem itemPieces?_of_reads {inner : Ty} {items reads : List Datum} {pieces : List AttributeValue}
    (hpieces : c.itemPieces? inner items = some pieces)
    (hreads : List.Forall₂ (fun piece read => c.decode inner piece = .ok read)
      (pieces.filter (!·.isVoid)) reads)
    (ih : ∀ item ∈ items, ∀ piece read, c.piece? true inner item = some piece →
      c.decode inner piece = .ok read → c.Settles true inner item piece read) :
    c.itemPieces? inner reads = some (pieces.filter (!·.isVoid)) := by
  obtain ⟨kept, hsub, hkept⟩ := forall₂_filter_right (itemPieces?_eq_some.mp hpieces) (!·.isVoid)
  exact itemPieces?_eq_some.mpr (forall₂_chain hkept hreads fun item hitem piece read hpiece hread =>
    (ih item (hsub.subset hitem) piece read hpiece hread).1)

/-- What is read of the pieces that stay of a map has these pieces. -/
theorem entryPieces?_of_reads {inner : Ty} {entries reads : List (String × Datum)}
    {pieces : List (String × AttributeValue)} (hpieces : c.entryPieces? inner entries = some pieces)
    (hreads : List.Forall₂ (fun piece read => read.1 = piece.1 ∧ c.decode inner piece.2 = .ok read.2)
      (pieces.filter fun entry => !entry.2.isVoid) reads)
    (ih : ∀ entry ∈ entries, ∀ piece read, c.piece? false inner entry.2 = some piece →
      c.decode inner piece = .ok read → c.Settles false inner entry.2 piece read) :
    c.entryPieces? inner reads = some (pieces.filter fun entry => !entry.2.isVoid) := by
  obtain ⟨kept, hsub, hkept⟩ := forall₂_filter_right (entryPieces?_eq_some.mp hpieces)
    fun entry => !entry.2.isVoid
  refine entryPieces?_eq_some.mpr (forall₂_chain hkept hreads ?_)
  intro entry hentry piece read hpiece hread
  exact ⟨hread.1.symm, (ih entry (hsub.subset hentry) piece.2 read.2 hpiece.2 hread.2).1⟩

/-- An array that is read counts as the one that was written: empty ones as defaults. -/
theorem countsAs_of_closeArray {asSet inArray : Bool} {items values : List Datum} {inner : Ty}
    {pieces : List AttributeValue} (hpieces : c.itemPieces? inner items = some pieces)
    (hclose : Writer.closeArray asSet inArray pieces = .ok piece)
    (hlength : values.length = (pieces.filter (!·.isVoid)).length)
    (hnot : type.isDocument = false)
    (h : piece.isVoid = false ∨ LeftOutAlike type (.list items)) :
    (Datum.list values).CountsAs (.list items) := by
  refine ⟨rfl, fun _ => isEmpty_eq_of_filter (itemPieces?_eq_some.mp hpieces).length_eq hlength ?_⟩
  rcases h with hvoid | hnull | hdefault | hdocument
  · exact .inl (Writer.filter_ne_nil_of_closeArray hclose hvoid)
  · cases hnull
  · exact .inr (List.isEmpty_iff.mp hdefault)
  · rw [hnot] at hdocument
    cases hdocument

/-- The members of a set are read wherever the set is. -/
theorem exists_reads_of_decode_set {hashed : Bool} {inner : Ty} {pieces : List AttributeValue}
    (hkept : ∀ piece ∈ pieces, piece.isVoid = false) {inArray : Bool}
    (hclose : Writer.closeArray true inArray pieces = .ok piece) {read : Datum}
    (hread : c.decode (.set hashed inner) piece = .ok read) :
    ∃ reads, List.Forall₂ (fun piece read => c.decode inner piece = .ok read) pieces reads := by
  obtain ⟨elements, helements, hsame, -⟩ := closeArray_elements hkept hclose
  obtain ⟨values, hvalues, -⟩ := (decode_set_eq_ok helements).mp hread
  have hreads : ∀ piece ∈ pieces, ∃ read, c.decode inner piece = .ok read := by
    intro piece hpiece
    obtain ⟨read, -, hread⟩ := exists_of_mem_right hvalues.flip ((hsame piece).mpr hpiece)
    exact ⟨read, hread⟩
  exact exists_forall₂_of_forall_exists hreads

theorem run_write_list (h : c.Restorable family) {inner : Ty} (htype : c.KeepsStored family inner)
    {items : List Datum} {pieces : List AttributeValue}
    (hpieces : c.itemPieces? inner items = some pieces) :
    Writer.forPart.run (c.write (.list inner) (.list items)) =
      .ok (some (.list (pieces.filter (!·.isVoid)))) := by
  have hfills := fills_write h (.list inner) (.list items) htype false
  rw [piece?, hpieces, Option.bind_some, Writer.closeArray_list] at hfills
  exact hfills.run

/-- A map whose keys ascend is stored as those of its entries that stay. -/
theorem compactMembers_of_ascending {pieces : Fields AttributeValue} (hascending : pieces.Ascending) :
    Writer.compactMembers .none [] false (Fields.ofList pieces) =
      pieces.filter fun entry => !entry.2.isVoid := by
  rw [Fields.ofList_eq_self hascending]
  exact List.filter_congr fun entry _ => WriteFlags.keeps_none entry.2

/-! ### Members -/

/-- Outside the key, the value of the member is no null, no default and no document, but is written
as null or as an empty container. -/
def Wavers (c : Codec) (f : Field) (value : Datum) : Prop :=
  isKey f = false ∧ ¬ LeftOutAlike f.type value ∧ c.Vanishes f.type value

/-- A member that was written is written when it has been read, unless it wavers. -/
theorem keepsMember_of_settles (h : c.Restorable family) {f : Field}
    (htype : c.KeepsStored family f.type) (hkept : c.keepsMember f value = true)
    (hpiece : c.piece? false f.type value = some piece) {read : Datum}
    (hsettles : c.Settles false f.type value piece read) :
    c.keepsMember f read = true ∨ c.Wavers f value ∧ piece.isVoid = true := by
  by_cases hcount : piece.isVoid = false ∨ LeftOutAlike f.type value
  · exact .inl ((keepsMember_of_countsAs (hsettles.2 hcount) f).trans hkept)
  · rw [not_or, Bool.not_eq_false] at hcount
    obtain ⟨hvoid, hnot⟩ := hcount
    cases hkey : isKey f with
    | true => exact .inl (keepsMember_of_isKey hkey read)
    | false => exact .inr ⟨⟨hkey, hnot, vanishes_of_piece h htype hpiece hvoid⟩, hvoid⟩

/-- The default of a member of which nothing is stored is stored as nothing, and as the same unless
the member wavers. -/
theorem stored?_initial (h : c.Restorable family) {id : DocumentId} (hid : family id) {f : Field}
    (hf : f ∈ (c.documents id).fields) (hvalue : c.HasType f.type value)
    (hwritten : c.keepsMember f value = true → ∃ piece, c.piece? false f.type value = some piece)
    (hnothing : c.LeavesNothing f value) (hkey : isKey f = false) :
    c.stored? f f.initial = c.stored? f value ∨ c.Wavers f value := by
  have htype := h.types id hid f hf
  have hinitial := h.initial id hid f hf
  by_cases hleft : LeftOutAlike f.type value
  · refine .inl ?_
    rw [stored?, stored?, keepsMember_of_countsAs (initial_countsAs hvalue hinitial hleft)]
    cases hkept : c.keepsMember f value with
    | false => rfl
    | true =>
      obtain ⟨piece, hpiece⟩ := hwritten hkept
      obtain ⟨piece', hpiece', -, hsame⟩ := exists_initial_piece h htype hvalue hinitial hpiece
        (hnothing piece (stored?_eq_some.mpr ⟨hkept, hpiece⟩))
      rw [if_pos rfl, if_pos rfl, hpiece', hpiece, hsame hleft]
  · have hkept : c.keepsMember f value = true := by
      by_contra hdropped
      exact hleft (leftOutAlike_of_not_kept (Bool.eq_false_iff.mpr hdropped))
    obtain ⟨piece, hpiece⟩ := hwritten hkept
    exact .inr ⟨hkey, hleft, vanishes_of_piece h htype hpiece
      (hnothing piece (stored?_eq_some.mpr ⟨hkept, hpiece⟩))⟩

/-- What is read of a member is written, if it is not left out, and the same is found of it as before,
or else the member wavers and nothing is stored of it either time. -/
theorem stored?_of_decodeMember (h : c.Restorable family) {id : DocumentId} (hid : family id)
    {f : Field} (hf : f ∈ (c.documents id).fields) (hvalue : c.HasType f.type value)
    (hwritten : c.keepsMember f value = true → ∃ piece, c.piece? false f.type value = some piece)
    {keep : AttributeValue → Bool} (hkeep : ∀ piece, piece.isVoid = false → keep piece = true)
    {item : Item} (hget : item.get? (c.storedName f) = (c.stored? f value).filter keep)
    {read : Datum} (hread : c.decodeMember item f = .ok read)
    (ih : ∀ piece read, c.piece? false f.type value = some piece →
      c.decode f.type piece = .ok read → c.Settles false f.type value piece read) :
    (c.keepsMember f read = true → ∃ piece, c.piece? false f.type read = some piece) ∧
      ((c.stored? f read).filter keep = (c.stored? f value).filter keep ∨
        c.Wavers f value ∧ c.LeavesNothing f value ∧ c.LeavesNothing f read) := by
  rcases (decodeMember_eq_ok (h.onRead id hid f hf)).mp hread with
    ⟨written, hfound, hdecode⟩ | ⟨hfound, hkey, rfl⟩
  · rw [hfound, eq_comm, Option.filter_eq_some_iff] at hget
    obtain ⟨hkept, hpiece⟩ := stored?_eq_some.mp hget.1
    have hsettles := ih written read hpiece hdecode
    refine ⟨fun _ => ⟨written, hsettles.1⟩, ?_⟩
    rcases keepsMember_of_settles h (h.types id hid f hf) hkept hpiece hsettles with
      hagain | ⟨hwavers, hvoid⟩
    · rw [hget.1, stored?_eq_some.mpr ⟨hagain, hsettles.1⟩]
      exact .inl rfl
    · exact .inr ⟨hwavers, .of_piece hpiece hvoid, .of_piece hsettles.1 hvoid⟩
  · have hnothing : c.LeavesNothing f value := Stores.leavesNothing ⟨keep, hkeep, hget⟩ hfound
    obtain ⟨hagain, hnothing'⟩ := leavesNothing_initial hvalue (h.initial id hid f hf) hwritten
      hnothing fun piece hpiece hvoid => by
        obtain ⟨piece', hpiece', hvoid', -⟩ := exists_initial_piece h (h.types id hid f hf) hvalue
          (h.initial id hid f hf) hpiece hvoid
        exact ⟨piece', hpiece', hvoid'⟩
    refine ⟨hagain, ?_⟩
    rcases stored?_initial h hid hf hvalue hwritten hnothing hkey with hsame | hwavers
    · rw [hsame]
      exact .inl rfl
    · exact .inr ⟨hwavers, hnothing, hnothing'⟩

/-- The members that are read from a document are stored as the document was. -/
theorem objectPiece_of_decodeMembers (h : c.Restorable family) {id : DocumentId} (hid : family id)
    {members values : List Datum} (hlength : (c.documents id).fields.length = members.length)
    (held : ∀ member ∈ (c.documents id).fields.zip members, c.HasType member.1.type member.2)
    {discriminator : Option String} (hfree : c.LeavesFree discriminator (c.documents id).fields)
    {pieces : List (Field × AttributeValue)}
    (hpieces : c.memberPieces? (c.documents id).fields members = some pieces) {item : Item}
    (hitem : c.objectPiece discriminator pieces = .map item)
    (hvalues : List.Forall₂ (fun f read => c.decodeMember item f = .ok read)
      (c.documents id).fields values)
    (ih : ∀ member ∈ (c.documents id).fields.zip members, ∀ piece read,
      c.piece? false member.1.type member.2 = some piece → c.decode member.1.type piece = .ok read →
        c.Settles false member.1.type member.2 piece read) :
    ∃ pieces', c.memberPieces? (c.documents id).fields values = some pieces' ∧
      c.objectPiece discriminator pieces' = .map item := by
  have hstays : ∀ f value, (f, value) ∈ (c.documents id).fields.zip members → ∀ read,
      c.decodeMember item f = .ok read →
      (c.keepsMember f read = true → ∃ piece, c.piece? false f.type read = some piece) ∧
        (c.stored? f value).filter (!·.isVoid) = (c.stored? f read).filter (!·.isVoid) := by
    intro f value hmember read hread
    have hget := get?_inner (h.names id hid) hfree hpieces hmember
    rw [AttributeValue.map.inj hitem] at hget
    obtain ⟨hagain, hsame⟩ := stored?_of_decodeMember h hid (List.of_mem_zip hmember).1
      (held _ hmember) (exists_piece_of_kept hpieces hmember) (fun piece hvoid => by rw [hvoid]; rfl)
      hget hread (ih _ hmember)
    refine ⟨hagain, ?_⟩
    rcases hsame with hsame | ⟨-, hnothing, hnothing'⟩
    · exact hsame.symm
    · rw [hnothing.filter_inner, hnothing'.filter_inner]
  obtain ⟨pieces', hpieces'⟩ : ∃ pieces',
      c.memberPieces? (c.documents id).fields values = some pieces' := by
    refine exists_memberPieces fun member hmember hkept => ?_
    obtain ⟨value, hvalue⟩ := exists_mem_zip hlength (List.of_mem_zip hmember).1
    exact (hstays member.1 value hvalue member.2 (List.forall₂_zip hvalues hmember)).1 hkept
  refine ⟨pieces', hpieces', ?_⟩
  rw [← hitem]
  refine (objectPiece_congr (h.names id hid) hfree hpieces hpieces' fun f hf => ?_).symm
  obtain ⟨value, hvalue⟩ := exists_mem_zip hlength hf
  obtain ⟨read, hread⟩ := exists_mem_zip hvalues.length_eq hf
  exact ⟨value, read, hvalue, hread,
    (hstays f value hvalue read (List.forall₂_zip hvalues hread)).2⟩

/-! ### Values -/

/-- The variant of a polymorphic type is found by its discriminator. -/
theorem VariantsToldApart.variantOf? {variants : List (String × DocumentId)}
    (h : c.VariantsToldApart variants) {variant : String × DocumentId} (hmem : variant ∈ variants)
    {text : String} (htext : c.discriminatorFor (c.info (.document variant.2)) = some text) :
    c.variantOf? variants text = some variant :=
  find?_of_nodup h.texts hmem fun _ _ => by rw [htext]

theorem eq_null_of_isAnyNull {inArray : Bool} (hpiece : c.piece? inArray type value = some piece)
    (hnull : piece.isAnyNull = true) : piece = .null true := by
  rw [isAnyNull_piece hpiece] at hnull
  cases piece with
  | null flag =>
    cases flag with
    | false => cases hnull
    | true => rfl
  | _ => cases hnull

/-- What is read in the place of an optional value, if what is read in the place of its value is stored
as before. -/
theorem settles_present {inner : Ty} (held : c.HasType inner value) {inArray : Bool}
    (hpiece : c.piece? inArray inner value = some piece) {read : Datum}
    (hread : c.decode (.option inner) piece = .ok read)
    (ih : ∀ read, c.decode inner piece = .ok read → c.Settles inArray inner value piece read) :
    c.Settles inArray (.option inner) (.present value) piece read := by
  cases hnull : piece.isAnyNull with
  | true =>
    obtain rfl := eq_null_of_isAnyNull hpiece hnull
    rw [decode, if_pos hnull] at hread
    cases hread
    refine ⟨rfl, ?_⟩
    rintro (hvoid | hnull | hdefault | hdocument)
    · cases hvoid
    · exact ⟨hnull.symm, fun hsome => absurd hnull (Bool.eq_false_iff.mp hsome)⟩
    · cases hdefault
    · cases hdocument
  | false =>
    obtain ⟨read', hread', rfl⟩ := (decode_option_eq_ok hnull).mp hread
    obtain ⟨hagain, hcounts⟩ := ih read' hread'
    refine ⟨by rw [piece?, hagain], ?_⟩
    rintro (hvoid | hvalue | hdefault | hdocument)
    · exact ⟨(hcounts (.inl hvoid)).1, fun _ => rfl⟩
    · cases hpiece.symm.trans (piece?_of_isNull held hvalue inArray)
      cases hnull
    · cases hdefault
    · cases hdocument

/-- What is read in the place of a map, if what is read in the places of its values is stored as
before. -/
theorem settles_map {hashed : Bool} {inner : Ty} {entries : List (String × Datum)}
    (ascending : Fields.Ascending entries) {inArray : Bool}
    (hpiece : c.piece? inArray (.map hashed inner) (.map entries) = some piece) {read : Datum}
    (hread : c.decode (.map hashed inner) piece = .ok read)
    (ih : ∀ entry ∈ entries, ∀ piece read, c.piece? false inner entry.2 = some piece →
      c.decode inner piece = .ok read → c.Settles false inner entry.2 piece read) :
    c.Settles inArray (.map hashed inner) (.map entries) piece read := by
  rw [piece?] at hpiece
  obtain ⟨pieces, hpieces, rfl⟩ := Option.map_eq_some_iff.mp hpiece
  have hpieces_ascend := ascending_of_entryPieces? ascending hpieces
  have hstays : ∀ entry ∈ pieces.filter (fun entry => !entry.2.isVoid), entry.2.isVoid = false :=
    fun entry hentry => by simpa using (List.mem_filter.mp hentry).2
  rw [compactMembers_of_ascending hpieces_ascend] at hread ⊢
  obtain ⟨values, hvalues, rfl⟩ := decode_map_eq_ok.mp hread
  constructor
  · rw [piece?, entryPieces?_of_reads hpieces hvalues ih, Option.map_some,
      compactMembers_of_stays (hpieces_ascend.filter _) hstays]
  · intro hout
    refine ⟨rfl, fun _ => isEmpty_eq_of_filter (entryPieces?_eq_some.mp hpieces).length_eq
      hvalues.length_eq.symm ?_⟩
    rcases hout with hvoid | hnull | hdefault | hdocument
    · refine .inl fun hnil => ?_
      rw [hnil] at hvoid
      cases hvoid
    · cases hnull
    · exact .inr (List.isEmpty_iff.mp hdefault)
    · cases hdocument

/-- What a value is stored as inside another one is read as a value that is stored as the same. -/
theorem settles_of_decode (h : c.Restorable family) (htype : c.KeepsStored family type)
    (hvalue : c.HasType type value) (hsets : c.SetsInOrder type value) {inArray : Bool}
    (hpiece : c.piece? inArray type value = some piece) {read : Datum}
    (hread : c.decode type piece = .ok read) : c.Settles inArray type value piece read := by
  induction hvalue generalizing inArray piece read with
  | scalar holds =>
    rw [piece?] at hpiece
    rw [decode] at hread
    obtain ⟨hagain, hcounts⟩ := scalar_settles h.converters holds hpiece hread
    exact ⟨by rw [piece?, hagain], fun _ => hcounts⟩
  | @enumeration type number known =>
    cases hpiece
    rw [decode, except_map_eq_ok] at hread
    obtain ⟨read', hread', rfl⟩ := hread
    obtain ⟨hagain, hzero⟩ := (EnumType.KeepsStored.piece htype known).2 read' hread'
    refine ⟨congrArg some hagain, fun _ => ⟨rfl, fun _ => ?_⟩⟩
    change (read' == 0) = (number == 0)
    rw [Bool.eq_iff_iff, beq_iff_eq, beq_iff_eq]
    exact hzero
  | absent inner =>
    cases hpiece
    rw [decode] at hread
    cases hread
    exact ⟨rfl, fun _ => ⟨rfl, fun _ => rfl⟩⟩
  | @present inner value held ih =>
    cases hsets with
    | present hsets =>
      rw [piece?] at hpiece
      exact settles_present held hpiece hread fun read hread => ih htype hsets hpiece hread
  | boxed held ih =>
    cases hsets with
    | boxed hsets =>
      obtain ⟨read', hread', rfl⟩ := decode_boxed_eq_ok.mp hread
      have hsettles := ih htype hsets hpiece hread'
      exact hsettles
  | @list inner items held ih =>
    cases hsets with
    | list hsets =>
      rw [piece?] at hpiece
      obtain ⟨pieces, hpieces, hclose⟩ := Option.bind_eq_some_iff.mp hpiece
      rw [except_toOption_eq_some] at hclose
      have hkept := Writer.closeArray_filter hclose
      rw [Writer.closeArray_list] at hclose
      cases hclose
      obtain ⟨reads, hreads, rfl⟩ := (decode_list_eq_ok rfl).mp hread
      have hagain := itemPieces?_of_reads hpieces hreads fun item hitem piece read hpiece hread =>
        ih item hitem htype (hsets item hitem) hpiece hread
      refine ⟨?_, countsAs_of_closeArray hpieces (Writer.closeArray_list inArray pieces)
        hreads.length_eq.symm rfl⟩
      rw [piece?, hagain, Option.bind_some, hkept]
      rfl
  | @set hashed inner items held ascending ih =>
    cases hsets with
    | set ascends hsets =>
      have hinner : c.KeepsStored family inner := htype
      rw [piece?] at hpiece
      obtain ⟨pieces, hpieces, hclose⟩ := Option.bind_eq_some_iff.mp hpiece
      rw [except_toOption_eq_some] at hclose
      have hkept := Writer.closeArray_filter hclose
      have hstays : ∀ piece ∈ pieces.filter (!·.isVoid), piece.isVoid = false :=
        fun piece hpiece => by simpa using (List.mem_filter.mp hpiece).2
      obtain ⟨reads, hreads⟩ := exists_reads_of_decode_set hstays hkept hread
      -- Only in their order are the members read back in the places they are read from.
      have hascending := ascends _ reads (run_write_list h hinner hpieces)
        ((decode_list_eq_ok rfl).mpr ⟨reads, hreads, rfl⟩)
      cases hread.symm.trans (decode_set_of_reads hstays hkept hreads (.refl _) hascending)
      have hagain := itemPieces?_of_reads hpieces hreads fun item hitem piece read hpiece hread =>
        ih item hitem htype (hsets item hitem) hpiece hread
      refine ⟨?_, countsAs_of_closeArray hpieces hclose hreads.length_eq.symm rfl⟩
      rw [piece?, hagain, Option.bind_some, hkept]
      rfl
  | @map hashed inner entries held ascending ih =>
    cases hsets with
    | map hsets =>
      exact settles_map ascending hpiece hread fun entry hentry piece read hpiece hread =>
        ih entry hentry htype (hsets entry hentry) hpiece hread
  | @document id members length held ih =>
    cases hsets with
    | document hsets =>
      rw [piece?] at hpiece
      obtain ⟨u, hcheck, hpiece⟩ := Option.bind_eq_some_iff.mp hpiece
      obtain ⟨pieces, hpieces, rfl⟩ := Option.map_eq_some_iff.mp hpiece
      obtain ⟨-, values, hvalues, rfl⟩ := decode_document_eq_ok.mp hread
      obtain ⟨pieces', hpieces', hagain⟩ := objectPiece_of_decodeMembers h htype length held
        leavesFree_none hpieces rfl hvalues fun member hmember piece read hpiece hread =>
          ih member hmember (h.types id htype _ (List.of_mem_zip hmember).1) (hsets member hmember)
            hpiece hread
      refine ⟨?_, fun _ => ⟨rfl, fun _ => rfl⟩⟩
      rw [piece?, hcheck, hpieces']
      exact congrArg some hagain
  | @oneOf name variant variants id members known length held ih =>
    cases hsets with
    | oneOf known' hsets =>
      rw [known] at known'
      cases known'
      have hvariant := mem_of_lookup known
      have hid := htype.2 _ hvariant
      obtain ⟨text, htext, hne⟩ := htype.1.discriminated _ hvariant
      have hfree : c.LeavesFree (some text) (c.documents id).fields :=
        fun _ => htype.1.free _ hvariant
      rw [piece?, known, Option.bind_some] at hpiece
      obtain ⟨u, hcheck, hpiece⟩ := Option.bind_eq_some_iff.mp hpiece
      obtain ⟨pieces, hpieces, rfl⟩ := Option.map_eq_some_iff.mp hpiece
      rw [htext] at hread ⊢
      obtain ⟨text', variant', id', htext', hvariant', -, values, hvalues, rfl⟩ :=
        decode_oneOf_eq_ok.mp hread
      cases htext'.symm.trans
        (get?_typeDiscriminator hne (h.names id hid) hfree hpieces .none [] false)
      cases hvariant'.symm.trans (htype.1.variantOf? hvariant htext)
      obtain ⟨pieces', hpieces', hagain⟩ := objectPiece_of_decodeMembers h hid length held
        hfree hpieces rfl hvalues fun member hmember piece read hpiece hread =>
          ih member hmember (h.types id hid _ (List.of_mem_zip hmember).1) (hsets member hmember)
            hpiece hread
      refine ⟨?_, fun _ => ⟨rfl, fun _ => rfl⟩⟩
      rw [piece?, known, Option.bind_some, hcheck, hpieces', htext]
      exact congrArg some hagain

end Codec

end ItemMapper
