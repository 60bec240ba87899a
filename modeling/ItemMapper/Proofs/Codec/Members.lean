import ItemMapper.Proofs.Codec.Pieces

/-!
# What is stored of members

In an item the members of a document stand under their stored names. As the names are distinct, what
is found under one of them is what its member is written as, or nothing where the member is left out
or what is written is null or an empty container that the item does not keep.

## Main definitions

* `Codec.stored?`: what a member is written as, if it is written.
* `Codec.LeavesNothing`: a member that is left out or written as null or as an empty container.
* `Codec.Stores`: an item in which this is found, unless it is null or an empty container.

## Main statements

* `Codec.get?_compactMembers_member`: what is found under the name of a member in a closed object.
* `Codec.stores_compactMembers`: a closed object stores its members.
-/

namespace ItemMapper

theorem WriteFlags.keeps_of_not_isVoid (flags : WriteFlags) {value : AttributeValue}
    (h : value.isVoid = false) : flags.keeps value = true := by
  rw [AttributeValue.isVoid, Bool.or_eq_false_iff] at h
  rw [keeps, h.1, h.2]
  rfl

theorem WriteFlags.keeps_none (value : AttributeValue) :
    WriteFlags.none.keeps value = !value.isVoid := by
  rw [keeps, AttributeValue.isVoid]
  cases value.isNull <;> cases value.isEmptyContainer <;> rfl

/-- What is found in an object when it is closed. -/
theorem Writer.get?_compactMembers {pairs : List (String × AttributeValue)}
    (hnodup : (pairs.map (·.1)).Nodup) (flags : WriteFlags) (pinned : List String)
    (outermost : Bool) (name : String) :
    Fields.get? (compactMembers flags pinned outermost (Fields.ofList pairs)) name =
      (pairs.lookup name).filter fun value =>
        (outermost && pinned.contains name) ||
          (if outermost then flags else WriteFlags.none).keeps value := by
  rw [← Fields.get?_ofList hnodup]
  exact Fields.get?_filter (Fields.ascending_ofList pairs) _ name

namespace Codec

variable {c : Codec} {fields : List Field} {members : List Datum}
  {pieces : List (Field × AttributeValue)}

/-- What a member is written as, if it is written. -/
def stored? (c : Codec) (f : Field) (value : Datum) : Option AttributeValue :=
  if c.keepsMember f value then c.piece? false f.type value else none

theorem stored?_eq_some {f : Field} {value : Datum} {piece : AttributeValue} :
    c.stored? f value = some piece ↔
      c.keepsMember f value = true ∧ c.piece? false f.type value = some piece := by
  rw [stored?]
  cases c.keepsMember f value <;> simp

/-- The member is left out, or is written as null or as an empty container. -/
def LeavesNothing (c : Codec) (f : Field) (value : Datum) : Prop :=
  ∀ piece, c.stored? f value = some piece → piece.isVoid = true

theorem LeavesNothing.of_not_kept {f : Field} {value : Datum} (h : c.keepsMember f value = false) :
    c.LeavesNothing f value := by
  intro piece hpiece
  rw [(stored?_eq_some.mp hpiece).1] at h
  cases h

theorem LeavesNothing.of_piece {f : Field} {value : Datum} {piece : AttributeValue}
    (hpiece : c.piece? false f.type value = some piece) (hvoid : piece.isVoid = true) :
    c.LeavesNothing f value := by
  intro piece' hpiece'
  cases hpiece.symm.trans (stored?_eq_some.mp hpiece').2
  exact hvoid

/-- Nothing of the member is found where neither nulls nor empty containers are kept. -/
theorem LeavesNothing.filter_eq_none {f : Field} {value : Datum} (h : c.LeavesNothing f value)
    {keep : AttributeValue → Bool} (hkeep : ∀ piece, piece.isVoid = true → keep piece = false) :
    (c.stored? f value).filter keep = none := by
  rw [Option.filter_eq_none_iff]
  intro piece hpiece
  rw [hkeep piece (h piece hpiece)]
  exact Bool.false_ne_true

theorem LeavesNothing.filter_inner {f : Field} {value : Datum} (h : c.LeavesNothing f value) :
    (c.stored? f value).filter (!·.isVoid) = none :=
  h.filter_eq_none fun piece hvoid => by
    rw [hvoid]
    rfl

/-- The members that are written are members, in the same order. -/
theorem fields_sublist (h : c.memberPieces? fields members = some pieces) :
    (pieces.map (·.1)).Sublist fields := by
  induction fields generalizing members pieces with
  | nil =>
    have hnone : c.memberPieces? [] members = some [] := by cases members <;> rfl
    rw [hnone] at h
    cases h
    exact .slnil
  | cons f fields ih =>
    cases members with
    | nil =>
      cases h
      exact List.nil_sublist _
    | cons value values =>
      rw [memberPieces?] at h
      split at h
      · simp only [Option.bind_eq_bind, Option.bind_eq_some_iff, Option.pure_def,
          Option.some.injEq] at h
        obtain ⟨piece, -, rest, hrest, rfl⟩ := h
        exact (ih hrest).cons_cons f
      · exact (ih h).cons f

theorem named_sublist (h : c.memberPieces? fields members = some pieces) :
    ((c.named pieces).map (·.1)).Sublist (fields.map c.storedName) := by
  have hsub := (fields_sublist h).map c.storedName
  rw [List.map_map] at hsub
  rw [named, List.map_map]
  exact hsub

/-- A member of the key is always written. -/
theorem keepsMember_of_isKey {f : Field} (h : isKey f = true) (value : Datum) :
    c.keepsMember f value = true := by
  rw [keepsMember, h, Bool.true_or, Bool.true_or]
  split <;> [rfl; split <;> rfl]

/-- A member that is written has a piece. -/
theorem exists_piece_of_kept (h : c.memberPieces? fields members = some pieces)
    {member : Field × Datum} (hmember : member ∈ fields.zip members)
    (hkept : c.keepsMember member.1 member.2 = true) :
    ∃ piece, c.piece? false member.1.type member.2 = some piece := by
  induction fields generalizing members pieces with
  | nil => cases hmember
  | cons f fields ih =>
    cases members with
    | nil => cases hmember
    | cons value values =>
      rw [memberPieces?] at h
      rcases List.mem_cons.mp hmember with rfl | hmember
      · rw [if_pos hkept] at h
        obtain ⟨piece, hpiece, -⟩ := Option.bind_eq_some_iff.mp h
        exact ⟨piece, hpiece⟩
      · split at h
        · obtain ⟨piece, -, hrest⟩ := Option.bind_eq_some_iff.mp h
          obtain ⟨rest, hrest, -⟩ := Option.bind_eq_some_iff.mp hrest
          exact ih hrest hmember
        · exact ih h hmember

/-- A document is written if all its members are that are not left out. -/
theorem exists_memberPieces (h : ∀ member ∈ fields.zip members,
    c.keepsMember member.1 member.2 = true →
      ∃ piece, c.piece? false member.1.type member.2 = some piece) :
    ∃ pieces, c.memberPieces? fields members = some pieces := by
  induction fields generalizing members with
  | nil => exact ⟨[], by cases members <;> rfl⟩
  | cons f fields ih =>
    cases members with
    | nil => exact ⟨[], rfl⟩
    | cons value values =>
      obtain ⟨rest, hrest⟩ := @ih values fun member hmember =>
        h member (List.mem_cons_of_mem _ hmember)
      rw [memberPieces?]
      split
      · rename_i hkept
        obtain ⟨piece, hpiece⟩ := h (f, value) List.mem_cons_self hkept
        exact ⟨(f, piece) :: rest, by rw [hpiece, hrest]; rfl⟩
      · exact ⟨rest, hrest⟩

/-- What stands under the name of a member is what the member is written as. -/
theorem lookup_named (hnames : (fields.map c.storedName).Nodup)
    (h : c.memberPieces? fields members = some pieces) {member : Field × Datum}
    (hmember : member ∈ fields.zip members) :
    (c.named pieces).lookup (c.storedName member.1) = c.stored? member.1 member.2 := by
  induction fields generalizing members pieces with
  | nil => cases hmember
  | cons f fields ih =>
    cases members with
    | nil => cases hmember
    | cons value values =>
      rw [List.map_cons, List.nodup_cons] at hnames
      rw [memberPieces?] at h
      split at h
      · rename_i hkept
        simp only [Option.bind_eq_bind, Option.bind_eq_some_iff, Option.pure_def,
          Option.some.injEq] at h
        obtain ⟨piece, hpiece, rest, hrest, rfl⟩ := h
        rw [named, List.map_cons, List.lookup_cons]
        rcases List.mem_cons.mp hmember with rfl | hmember
        · rw [beq_self_eq_true, stored?, if_pos hkept, hpiece]
        · have hne : c.storedName member.1 ≠ c.storedName f := fun heq =>
            hnames.1 (heq ▸ List.mem_map_of_mem (List.of_mem_zip hmember).1)
          rw [beq_false_of_ne hne]
          exact ih hnames.2 hrest hmember
      · rename_i hdropped
        rcases List.mem_cons.mp hmember with rfl | hmember
        · rw [stored?, if_neg hdropped, List.lookup_eq_none_iff]
          intro pair hpair
          refine bne_iff_ne.mpr fun heq => hnames.1 ?_
          have hkey := (named_sublist h).subset (List.mem_map_of_mem (f := (·.1)) hpair)
          exact heq ▸ hkey
        · exact ih hnames.2 h hmember

/-! ### Documents with a discriminator -/

variable {discriminator : Option String}

/-- No member of a document with a discriminator is stored where the discriminator is. -/
def LeavesFree (c : Codec) (discriminator : Option String) (fields : List Field) : Prop :=
  discriminator.isSome → ∀ f ∈ fields, c.storedName f ≠ c.options.typeDiscriminator

theorem leavesFree_none : c.LeavesFree none fields := by
  intro h
  cases h

theorem nodup_tagged (hnames : (fields.map c.storedName).Nodup)
    (hfree : c.LeavesFree discriminator fields)
    (h : c.memberPieces? fields members = some pieces) :
    ((c.tag discriminator ++ c.named pieces).map (·.1)).Nodup := by
  have hnamed := hnames.sublist (named_sublist h)
  cases discriminator with
  | none => exact hnamed
  | some text =>
    refine List.nodup_cons.mpr ⟨fun hmem => ?_, hnamed⟩
    obtain ⟨f, hf, heq⟩ := List.mem_map.mp ((named_sublist h).subset hmem)
    exact hfree rfl f hf heq

theorem lookup_tagged (hnames : (fields.map c.storedName).Nodup)
    (hfree : c.LeavesFree discriminator fields)
    (h : c.memberPieces? fields members = some pieces) {member : Field × Datum}
    (hmember : member ∈ fields.zip members) :
    (c.tag discriminator ++ c.named pieces).lookup (c.storedName member.1) =
      c.stored? member.1 member.2 := by
  rw [← lookup_named hnames h hmember]
  cases discriminator with
  | none => rfl
  | some text =>
    change List.lookup _ (_ :: _) = _
    rw [List.lookup_cons, beq_false_of_ne (hfree rfl _ (List.of_mem_zip hmember).1)]
    rfl

/-- What is found under the name of a member in a closed object. -/
theorem get?_compactMembers_member (hnames : (fields.map c.storedName).Nodup)
    (hfree : c.LeavesFree discriminator fields)
    (h : c.memberPieces? fields members = some pieces) {member : Field × Datum}
    (hmember : member ∈ fields.zip members) (flags : WriteFlags) (pinned : List String)
    (outermost : Bool) :
    Fields.get? (Writer.compactMembers flags pinned outermost
        (Fields.ofList (c.tag discriminator ++ c.named pieces))) (c.storedName member.1) =
      (c.stored? member.1 member.2).filter fun value =>
        (outermost && pinned.contains (c.storedName member.1)) ||
          (if outermost then flags else WriteFlags.none).keeps value := by
  rw [Writer.get?_compactMembers (nodup_tagged hnames hfree h), lookup_tagged hnames hfree h hmember]

/-- Inside another value, neither nulls nor empty containers are found. -/
theorem get?_inner (hnames : (fields.map c.storedName).Nodup)
    (hfree : c.LeavesFree discriminator fields)
    (h : c.memberPieces? fields members = some pieces) {member : Field × Datum}
    (hmember : member ∈ fields.zip members) :
    Fields.get? (Writer.compactMembers .none [] false
        (Fields.ofList (c.tag discriminator ++ c.named pieces))) (c.storedName member.1) =
      (c.stored? member.1 member.2).filter (!·.isVoid) := by
  rw [get?_compactMembers_member hnames hfree h hmember]
  simp only [Bool.false_and, Bool.false_or, Bool.false_eq_true, if_false, WriteFlags.keeps_none]

/-- Under any other name, only the discriminator is found. -/
theorem get?_compactMembers_other (hnames : (fields.map c.storedName).Nodup)
    (hfree : c.LeavesFree discriminator fields)
    (h : c.memberPieces? fields members = some pieces) (flags : WriteFlags) (pinned : List String)
    (outermost : Bool) {name : String} (hname : name ∉ fields.map c.storedName) :
    Fields.get? (Writer.compactMembers flags pinned outermost
        (Fields.ofList (c.tag discriminator ++ c.named pieces))) name =
      ((c.tag discriminator).lookup name).filter fun value =>
        (outermost && pinned.contains name) ||
          (if outermost then flags else WriteFlags.none).keeps value := by
  have hnone : (c.named pieces).lookup name = none := by
    rw [List.lookup_eq_none_iff]
    intro pair hpair
    refine bne_iff_ne.mpr fun heq => hname ?_
    exact heq ▸ (named_sublist h).subset (List.mem_map_of_mem (f := (·.1)) hpair)
  rw [Writer.get?_compactMembers (nodup_tagged hnames hfree h), List.lookup_append, hnone,
    Option.or_none]

/-- Two documents with the same fields and the same discriminator are stored alike if the same stays
of each of their members. -/
theorem objectPiece_congr (hnames : (fields.map c.storedName).Nodup)
    (hfree : c.LeavesFree discriminator fields) {members' : List Datum}
    {pieces' : List (Field × AttributeValue)}
    (h : c.memberPieces? fields members = some pieces)
    (h' : c.memberPieces? fields members' = some pieces')
    (hmembers : ∀ f ∈ fields, ∃ value value', (f, value) ∈ fields.zip members ∧
      (f, value') ∈ fields.zip members' ∧
      (c.stored? f value).filter (!·.isVoid) = (c.stored? f value').filter (!·.isVoid)) :
    c.objectPiece discriminator pieces = c.objectPiece discriminator pieces' := by
  refine congrArg AttributeValue.map (Fields.ext_get? ?_ ?_ fun name => ?_)
  · exact (Fields.ascending_ofList _).filter _
  · exact (Fields.ascending_ofList _).filter _
  by_cases hname : name ∈ fields.map c.storedName
  · obtain ⟨f, hf, rfl⟩ := List.mem_map.mp hname
    obtain ⟨value, value', hvalue, hvalue', heq⟩ := hmembers f hf
    rw [get?_inner hnames hfree h hvalue, get?_inner hnames hfree h' hvalue', heq]
  · rw [get?_compactMembers_other hnames hfree h _ _ _ hname,
      get?_compactMembers_other hnames hfree h' _ _ _ hname]

/-- The discriminator of a document stays in what the document is stored as. -/
theorem get?_typeDiscriminator {text : String} (htext : text ≠ "")
    (hnames : (fields.map c.storedName).Nodup) (hfree : c.LeavesFree (some text) fields)
    (h : c.memberPieces? fields members = some pieces) (flags : WriteFlags) (pinned : List String)
    (outermost : Bool) :
    Fields.get? (Writer.compactMembers flags pinned outermost
        (Fields.ofList (c.tag (some text) ++ c.named pieces))) c.options.typeDiscriminator =
      some (.text text) := by
  have htagged : (c.tag (some text) ++ c.named pieces).lookup c.options.typeDiscriminator =
      some (.text text) := by
    change List.lookup _ (_ :: _) = _
    rw [List.lookup_cons, beq_self_eq_true, textPiece,
      if_neg fun hempty => htext (String.isEmpty_iff.mp hempty)]
  rw [Writer.get?_compactMembers (nodup_tagged hnames hfree h), htagged]
  refine Option.filter_some_pos ?_
  rw [WriteFlags.keeps_of_not_isVoid _ rfl, Bool.or_true]

/-! ### Items that store members -/

/-- What is found under the name of a member is what the member is written as, if it is written,
unless this is null or an empty container. -/
def Stores (c : Codec) (item : Item) (f : Field) (value : Datum) : Prop :=
  ∃ keep : AttributeValue → Bool, (∀ written, written.isVoid = false → keep written = true) ∧
    item.get? (c.storedName f) = (c.stored? f value).filter keep

/-- A closed object stores its members. -/
theorem stores_compactMembers (hnames : (fields.map c.storedName).Nodup)
    (hfree : c.LeavesFree discriminator fields)
    (h : c.memberPieces? fields members = some pieces) {member : Field × Datum}
    (hmember : member ∈ fields.zip members) (flags : WriteFlags) (pinned : List String)
    (outermost : Bool) :
    c.Stores (Writer.compactMembers flags pinned outermost
      (Fields.ofList (c.tag discriminator ++ c.named pieces))) member.1 member.2 := by
  refine ⟨_, fun written hwritten => ?_,
    get?_compactMembers_member hnames hfree h hmember flags pinned outermost⟩
  rw [WriteFlags.keeps_of_not_isVoid _ hwritten, Bool.or_true]

/-- A member that is not found in an item that stores it is left out or is written as null or as an
empty container. -/
theorem Stores.leavesNothing {item : Item} {f : Field} {value : Datum} (h : c.Stores item f value)
    (hnone : item.get? (c.storedName f) = none) : c.LeavesNothing f value := by
  obtain ⟨keep, hkeep, hget⟩ := h
  intro piece hpiece
  rw [hnone, hpiece] at hget
  by_contra hvoid
  rw [Option.filter_some_pos (hkeep piece (Bool.eq_false_iff.mpr hvoid))] at hget
  cases hget

end Codec

end ItemMapper
