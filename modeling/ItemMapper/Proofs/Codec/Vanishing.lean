import ItemMapper.Proofs.Codec.Members

/-!
# What vanishes

Null and empty containers are dropped from containers, and a member for which nothing is stored
keeps what it holds at first. This loses nothing where it is the default of a type that is dropped:
a value in which nothing vanishes, and which is itself stored as null or as an empty container, or is
left out of its document, equals the default of its type.

## Main statements

* `Codec.vanishes_of_isVoid`: what is stored as nothing in an array vanishes elsewhere, too.
* `Codec.initial_equals_of_isVoid`: what vanishes is the default of its type.
* `Codec.initial_equals_of_left_out`: what is left out of its document is the default of its type.
-/

namespace ItemMapper

/-! ### Scalars that count as defaults -/

theorem Ty.BuiltFrom.ne_textual {family : DocumentId → Prop} {type : Scalar}
    (h : (Ty.scalar type).BuiltFrom family) (text : TextType) : type ≠ .textual text := by
  rintro rfl
  exact h

theorem Scalar.Holds.isNull_eq_false {type : Scalar} {value : Datum} (h : type.Holds value) :
    value.isNull = false := by
  cases type <;> cases value <;> first | rfl | exact h.elim

theorem Scalar.initial_equals_of_isDefault {type : Scalar} {value : Datum}
    (hplain : ∀ text, type ≠ .textual text) (h : type.Holds value)
    (hdefault : value.isDefault = true) : type.initial.equals value = true := by
  cases type with
  | bool =>
    cases value with
    | bool value =>
      cases value with
      | false => rfl
      | true => cases hdefault
    | _ => exact h.elim
  | int type =>
    cases value with
    | int value =>
      rw [eq_of_beq hdefault]
      rfl
    | _ => exact h.elim
  | float type =>
    cases value with
    | float value => exact Floating.equals_comm.mp hdefault
    | _ => exact h.elim
  | char =>
    cases value with
    | char value =>
      rw [eq_of_beq hdefault]
      rfl
    | _ => exact h.elim
  | text =>
    cases value with
    | text value =>
      rw [String.isEmpty_iff.mp hdefault]
      rfl
    | _ => exact h.elim
  | binary =>
    cases value with
    | binary bytes =>
      rw [List.isEmpty_iff.mp hdefault]
      rfl
    | _ => exact h.elim
  | textual type => exact absurd rfl (hplain type)

theorem Scalar.initial_equals_self (type : Scalar) : type.initial.equals type.initial = true := by
  cases type with
  | textual type => cases type <;> rfl
  | _ => rfl

/-! ### Closed arrays -/

namespace Writer

theorem inferSet_isVoid {elements : List AttributeValue} {value : AttributeValue}
    (h : inferSet elements = .ok value) (hvoid : value.isVoid = true) : elements = [] := by
  cases elements with
  | nil => rfl
  | cons first rest =>
    rw [inferSet] at h
    split at h
    · cases h
    · cases h
      cases first <;> cases hvoid

theorem filter_keeps (elements : List AttributeValue) :
    elements.filter (fun e => !e.isNull && !e.isEmptyContainer) =
      elements.filter fun e => !e.isVoid :=
  List.filter_congr fun e _ => by rw [AttributeValue.isVoid, Bool.not_or]

/-- An array is closed as an empty one only where nothing stays of its elements. -/
theorem isVoid_of_closeArray {asSet inArray : Bool} {elements : List AttributeValue}
    {value : AttributeValue} (h : closeArray asSet inArray elements = .ok value)
    (hvoid : value.isVoid = true) {e : AttributeValue} (he : e ∈ elements) : e.isVoid = true := by
  have hnone : elements.filter (fun e => !e.isVoid) = [] := by
    unfold closeArray at h
    simp only [filter_keeps] at h
    split at h
    · split at h
      · cases h
      · exact inferSet_isVoid h hvoid
    · cases h
      exact List.isEmpty_iff.mp (by
        cases hkept : elements.filter fun e => !e.isVoid with
        | nil => rfl
        | cons x xs =>
          rw [hkept] at hvoid
          cases hvoid)
  simpa using List.filter_eq_nil_iff.mp hnone e he

theorem isAnyNull_of_closeArray {asSet inArray : Bool} {elements : List AttributeValue}
    {value : AttributeValue} (h : closeArray asSet inArray elements = .ok value) :
    value.isAnyNull = false := by
  unfold closeArray at h
  simp only at h
  split at h
  · split at h
    · cases h
    · unfold inferSet at h
      split at h
      · cases h
        rfl
      · split at h
        · cases h
        · cases h
          split <;> rfl
  · cases h
    rfl

/-- An array all elements of which stay is closed as the list or the set of these. -/
theorem closeArray_of_stays {elements : List AttributeValue}
    (h : ∀ e ∈ elements, e.isVoid = false) (asSet inArray : Bool) :
    closeArray asSet inArray elements =
      if asSet && !inArray then inferSet elements else .ok (.list elements) := by
  have hkept : elements.filter (fun e => !e.isNull && !e.isEmptyContainer) = elements := by
    rw [filter_keeps]
    exact List.filter_eq_self.mpr fun e he => by rw [h e he]; rfl
  have hnull : elements.any (·.isNull) = false := by
    refine List.any_eq_false.mpr fun e he => ?_
    have hvoid := h e he
    rw [AttributeValue.isVoid, Bool.or_eq_false_iff] at hvoid
    rw [hvoid.1]
    exact Bool.false_ne_true
  unfold closeArray
  simp only [hkept, hnull, Bool.false_eq_true, if_false]

end Writer

namespace Codec

variable {c : Codec} {family : DocumentId → Prop} {type : Ty} {value : Datum}
  {piece : AttributeValue}

/-! ### Void pieces -/

theorem textPiece_isAnyNull (s : String) : (textPiece s).isAnyNull = (textPiece s).isNull := by
  rw [textPiece]
  split <;> rfl

theorem bytesPiece_isAnyNull (bytes : Bytes) :
    (bytesPiece bytes).isAnyNull = (bytesPiece bytes).isNull := by
  rw [bytesPiece]
  split <;> rfl

theorem Scalar.piece?_isAnyNull {type : Scalar} (hpiece : type.piece? value = some piece) :
    piece.isAnyNull = piece.isNull := by
  unfold Scalar.piece? at hpiece
  split at hpiece
  · cases hpiece
    rfl
  · cases hpiece
    rfl
  · split at hpiece
    · cases hpiece
      rfl
    · cases hpiece
  · cases hpiece
    exact textPiece_isAnyNull _
  · cases hpiece
    exact textPiece_isAnyNull _
  · cases hpiece
    exact bytesPiece_isAnyNull _
  · cases hpiece
    exact textPiece_isAnyNull _
  · cases hpiece

/-- What is stored is null only as the ordinary null. -/
theorem isAnyNull_piece {inArray : Bool} (hpiece : c.piece? inArray type value = some piece) :
    piece.isAnyNull = piece.isNull := by
  have hclosed : ∀ {asSet inArray : Bool} {elements : List AttributeValue},
      Writer.closeArray asSet inArray elements = .ok piece → piece.isAnyNull = piece.isNull := by
    intro asSet inArray elements hclose
    have hsome := Writer.isAnyNull_of_closeArray hclose
    cases piece <;> first | rfl | cases hsome
  induction type generalizing value with
  | scalar type =>
    rw [piece?] at hpiece
    exact Scalar.piece?_isAnyNull hpiece
  | enumeration type =>
    cases value with
    | enumeration number =>
      cases hpiece
      rw [EnumType.piece]
      split
      · exact textPiece_isAnyNull _
      · rfl
    | _ => cases hpiece
  | option inner ih =>
    cases value with
    | absent =>
      cases hpiece
      rfl
    | present value => exact ih hpiece
    | _ => cases hpiece
  | boxed inner ih =>
    cases value with
    | boxed value => exact ih hpiece
    | _ => cases hpiece
  | list inner ih | set hashed inner ih =>
    cases value with
    | list items =>
      obtain ⟨pieces, -, hclose⟩ := Option.bind_eq_some_iff.mp hpiece
      exact hclosed (except_toOption_eq_some.mp hclose)
    | _ => cases hpiece
  | map hashed inner ih =>
    cases value with
    | map entries =>
      obtain ⟨pieces, -, rfl⟩ := Option.map_eq_some_iff.mp hpiece
      rfl
    | _ => cases hpiece
  | document id =>
    cases value with
    | document members =>
      obtain ⟨u, -, hpiece⟩ := Option.bind_eq_some_iff.mp hpiece
      obtain ⟨pieces, -, rfl⟩ := Option.map_eq_some_iff.mp hpiece
      rfl
    | _ => cases hpiece
  | oneOf name variants =>
    cases value with
    | variant variant members =>
      obtain ⟨id, -, hpiece⟩ := Option.bind_eq_some_iff.mp hpiece
      obtain ⟨u, -, hpiece⟩ := Option.bind_eq_some_iff.mp hpiece
      obtain ⟨pieces, -, rfl⟩ := Option.map_eq_some_iff.mp hpiece
      rfl
    | _ => cases hpiece
  | dynamic | stored | foreign => cases value <;> cases hpiece

theorem vanishes_of_piece (h : c.Restorable family) (htype : c.KeepsStored family type)
    (hpiece : c.piece? false type value = some piece) (hvoid : piece.isVoid = true) :
    c.Vanishes type value := by
  have hfills := fills_write h type value htype false
  rw [hpiece] at hfills
  exact ⟨piece, hfills.run, hvoid⟩

/-- An array is stored as nothing only where it has no items, if its items stay. -/
theorem eq_nil_of_isVoid {inner : Ty} {items : List Datum} {pieces : List AttributeValue}
    (hpieces : c.itemPieces? inner items = some pieces) {asSet inArray : Bool}
    (hclose : Writer.closeArray asSet inArray pieces = .ok piece) (hvoid : piece.isVoid = true)
    (hstays : ∀ item ∈ items, ∀ piece, c.piece? true inner item = some piece →
      piece.isVoid = false) : items = [] := by
  cases itemPieces?_eq_some.mp hpieces with
  | nil => rfl
  | cons hitem hrest =>
    have hdropped := Writer.isVoid_of_closeArray hclose hvoid List.mem_cons_self
    rw [hstays _ List.mem_cons_self _ hitem] at hdropped
    cases hdropped

/-- A map all entries of which stay is stored as the map of their pieces. -/
theorem compactMembers_of_stays {pieces : Fields AttributeValue} (hascending : pieces.Ascending)
    (hstays : ∀ entry ∈ pieces, entry.2.isVoid = false) :
    Writer.compactMembers .none [] false (Fields.ofList pieces) = pieces := by
  rw [Fields.ofList_eq_self hascending]
  refine List.filter_eq_self.mpr fun entry hentry => ?_
  exact WriteFlags.keeps_of_not_isVoid .none (hstays entry hentry)

theorem ascending_of_entryPieces? {inner : Ty} {entries : List (String × Datum)}
    (hascending : Fields.Ascending entries) {pieces : List (String × AttributeValue)}
    (hpieces : c.entryPieces? inner entries = some pieces) : Fields.Ascending pieces := by
  have hkeys : pieces.map (·.1) = entries.map (·.1) := by
    have hforall := entryPieces?_eq_some.mp hpieces
    rw [← List.forall₂_eq_eq_eq, List.forall₂_map_left_iff, List.forall₂_map_right_iff]
    exact (hforall.imp fun _ _ h => h.1).flip
  exact hascending.of_keys hkeys

/-- A value in which nothing vanishes, and which is dropped from arrays, vanishes elsewhere, too. -/
theorem vanishes_of_isVoid (h : c.Restorable family) (htype : c.KeepsStored family type)
    (hstays : c.NothingVanishes type value) {inArray : Bool}
    (hpiece : c.piece? inArray type value = some piece) (hvoid : piece.isVoid = true) :
    c.Vanishes type value := by
  induction hstays generalizing inArray piece with
  | scalar type value =>
    refine vanishes_of_piece h htype ?_ hvoid
    rw [piece?] at hpiece ⊢
    exact hpiece
  | enumeration type value =>
    refine vanishes_of_piece h htype ?_ hvoid
    cases value with
    | enumeration number => exact hpiece
    | _ => cases hpiece
  | absent inner => exact vanishes_of_piece h htype hpiece hvoid
  | present stays held ih => exact absurd (ih htype hpiece hvoid) stays
  | boxed held ih =>
    rw [Vanishes, write]
    exact ih htype hpiece hvoid
  | list stays held ih => exact vanishes_of_piece h htype hpiece hvoid
  | set stays held ih =>
    rw [piece?] at hpiece
    obtain ⟨pieces, hpieces, hclose⟩ := Option.bind_eq_some_iff.mp hpiece
    obtain rfl := eq_nil_of_isVoid hpieces (except_toOption_eq_some.mp hclose) hvoid
      fun item hitem piece hpiece => Bool.eq_false_iff.mpr fun hvoid =>
        stays item hitem (ih item hitem htype hpiece hvoid)
    exact vanishes_of_piece h htype rfl rfl
  | map stays held ih => exact vanishes_of_piece h htype hpiece hvoid
  | document stays held ih => exact vanishes_of_piece h htype hpiece hvoid
  | oneOf known stays held ih => exact vanishes_of_piece h htype hpiece hvoid

/-! ### Defaults -/

theorem piece?_of_isNull (hvalue : c.HasType type value) (hnull : value.isNull = true)
    (inArray : Bool) : c.piece? inArray type value = some (.null true) := by
  induction hvalue with
  | scalar holds =>
    rw [holds.isNull_eq_false] at hnull
    cases hnull
  | absent inner => rfl
  | present held ih => exact ih hnull
  | boxed held ih => exact ih hnull
  | enumeration known => cases hnull
  | list held ih => cases hnull
  | set hashed held ascending ih => cases hnull
  | map hashed held ascending ih => cases hnull
  | document length held ih => cases hnull
  | oneOf known length held ih => cases hnull

/-- A member that counts as holding the default of its type equals it. -/
theorem initial_equals_of_isDefault (htype : type.BuiltFrom family) (hvalue : c.HasType type value)
    {initial : Datum} (hinitial : c.IsInitial type initial) (hnull : value.isNull = false)
    (hdefault : value.isDefault = true) : initial.equals value = true := by
  induction hvalue generalizing initial with
  | scalar holds =>
    cases hinitial
    exact Scalar.initial_equals_of_isDefault htype.ne_textual holds hdefault
  | enumeration known =>
    obtain ⟨number, rfl, hzero⟩ := hinitial
    cases eq_of_beq hdefault
    exact beq_iff_eq.mpr (hzero known)
  | absent inner => cases hnull
  | present held ih => cases hdefault
  | boxed held ih =>
    obtain ⟨pointee, rfl, hpointee⟩ := hinitial
    exact ih htype hpointee hnull hdefault
  | list held ih =>
    cases hinitial
    rw [List.isEmpty_iff.mp hdefault]
    rfl
  | set hashed held ascending ih =>
    cases hinitial
    rw [List.isEmpty_iff.mp hdefault]
    rfl
  | map hashed held ascending ih =>
    cases hinitial
    rw [List.isEmpty_iff.mp hdefault]
    rfl
  | document length held ih => cases hdefault
  | oneOf known length held ih => cases hdefault

/-! ### What is left out -/

/-- Where nothing stays of a member, it is null or a default, or what it is written as is null or an empty
container. -/
theorem LeavesNothing.isNull_or_isDefault_or_isVoid {f : Field} (h : c.LeavesNothing f value)
    (hwritten : c.keepsMember f value = true → ∃ piece, c.piece? false f.type value = some piece) :
    value.isNull = true ∨ value.isNull = false ∧ value.isDefault = true ∨
      ∃ piece, c.piece? false f.type value = some piece ∧ piece.isVoid = true := by
  cases hkept : c.keepsMember f value with
  | true =>
    obtain ⟨piece, hpiece⟩ := hwritten hkept
    exact .inr (.inr ⟨piece, hpiece, h piece (stored?_eq_some.mpr ⟨hkept, hpiece⟩)⟩)
  | false =>
    cases hnull : value.isNull with
    | true => exact .inl rfl
    | false =>
      refine .inr (.inl ⟨rfl, ?_⟩)
      by_contra hdefault
      rw [keepsMember, hnull, if_neg Bool.false_ne_true, if_neg hdefault] at hkept
      cases hkept

/-- A member that is left out of its document, or is written as null or as an empty container,
equals the default of its type, if it does in the second case. -/
theorem initial_equals_of_left_out {f : Field} (htype : f.type.BuiltFrom family)
    (hvalue : c.HasType f.type value)
    (hinitial : c.IsInitial f.type f.initial)
    (hwritten : c.keepsMember f value = true → ∃ piece, c.piece? false f.type value = some piece)
    (hnothing : c.LeavesNothing f value)
    (ih : ∀ piece, c.piece? false f.type value = some piece → piece.isVoid = true →
      f.initial.equals value = true) : f.initial.equals value = true := by
  rcases hnothing.isNull_or_isDefault_or_isVoid hwritten with
    hnull | ⟨hnull, hdefault⟩ | ⟨piece, hpiece, hvoid⟩
  · exact ih _ (piece?_of_isNull hvalue hnull false) rfl
  · exact initial_equals_of_isDefault htype hvalue hinitial hnull hdefault
  · exact ih piece hpiece hvoid

/-- The members of a document nothing of which stays equal those that it has at first. -/
theorem initialMembers_equal {fields : List Field} {members : List Datum}
    (hlength : fields.length = members.length)
    (h : ∀ member ∈ fields.zip members, member.1.initial.equals member.2 = true) :
    Datum.equalItems (fields.map (·.initial)) members = true := by
  rw [Datum.equalItems_iff, List.forall₂_map_left_iff]
  exact List.forall₂_iff_zip.mpr ⟨hlength, fun hmem => h _ hmem⟩

theorem item_stays (h : c.Restorable family) {inner : Ty} (htype : c.KeepsStored family inner)
    {items : List Datum} (hstays : ∀ item ∈ items, ¬ c.Vanishes inner item)
    (hinside : ∀ item ∈ items, c.NothingVanishes inner item) (item : Datum) (hitem : item ∈ items)
    (piece : AttributeValue) (hpiece : c.piece? true inner item = some piece) :
    piece.isVoid = false :=
  Bool.eq_false_iff.mpr fun hvoid =>
    hstays item hitem (vanishes_of_isVoid h htype (hinside item hitem) hpiece hvoid)

/-- A list or a set is stored as nothing only where it is empty, if its items stay. -/
theorem items_eq_nil_of_isVoid (h : c.Restorable family) {inner : Ty}
    (htype : c.KeepsStored family inner) {items : List Datum}
    (hstays : ∀ item ∈ items, ¬ c.Vanishes inner item)
    (hinside : ∀ item ∈ items, c.NothingVanishes inner item) {asSet inArray : Bool}
    (hpiece : ((c.itemPieces? inner items).bind fun pieces =>
      (Writer.closeArray asSet inArray pieces).toOption) = some piece)
    (hvoid : piece.isVoid = true) : items = [] := by
  obtain ⟨pieces, hpieces, hclose⟩ := Option.bind_eq_some_iff.mp hpiece
  exact eq_nil_of_isVoid hpieces (except_toOption_eq_some.mp hclose) hvoid
    (item_stays h htype hstays hinside)

theorem entry_stays (h : c.Restorable family) {inner : Ty} (htype : c.KeepsStored family inner)
    {entries : List (String × Datum)} (hstays : ∀ entry ∈ entries, ¬ c.Vanishes inner entry.2)
    {pieces : List (String × AttributeValue)} (hpieces : c.entryPieces? inner entries = some pieces)
    (entry : String × AttributeValue) (hentry : entry ∈ pieces) : entry.2.isVoid = false := by
  obtain ⟨value, hvalue, -, hpiece⟩ :=
    exists_of_mem_right (entryPieces?_eq_some.mp hpieces) hentry
  exact Bool.eq_false_iff.mpr fun hvoid =>
    hstays value hvalue (vanishes_of_piece h htype hpiece hvoid)

theorem eq_nil_of_isVoid_map {fields : Item} (h : (AttributeValue.map fields).isVoid = true) :
    fields = [] := by
  cases fields with
  | nil => rfl
  | cons field rest => cases h

/-- Nothing is stored of the members of a document that is stored as nothing. -/
theorem leavesNothing_of_isVoid {fields : List Field} {members : List Datum}
    (hnames : (fields.map c.storedName).Nodup) {pieces : List (Field × AttributeValue)}
    (hpieces : c.memberPieces? fields members = some pieces)
    (hvoid : (c.objectPiece none pieces).isVoid = true) {member : Field × Datum}
    (hmember : member ∈ fields.zip members) : c.LeavesNothing member.1 member.2 := by
  refine (stores_compactMembers hnames leavesFree_none hpieces hmember .none [] false).leavesNothing ?_
  rw [eq_nil_of_isVoid_map hvoid]
  rfl

/-- A polymorphic value is never stored as nothing, as its discriminator is there. -/
theorem oneOf_isVoid (h : c.Restorable family) {name variant : String}
    {variants : List (String × DocumentId)} (htype : c.KeepsStored family (.oneOf name variants))
    {id : DocumentId} (known : variants.lookup variant = some id) {members : List Datum}
    {inArray : Bool}
    (hpiece : c.piece? inArray (.oneOf name variants) (.variant variant members) = some piece) :
    piece.isVoid = false := by
  rw [piece?, known, Option.bind_some] at hpiece
  obtain ⟨u, hcheck, hpiece⟩ := Option.bind_eq_some_iff.mp hpiece
  obtain ⟨pieces, hpieces, rfl⟩ := Option.map_eq_some_iff.mp hpiece
  have hvariant := mem_of_lookup known
  obtain ⟨text, htext, hne⟩ := htype.1.discriminated _ hvariant
  have hfound := get?_typeDiscriminator hne (h.names id (htype.2 _ hvariant))
    (fun _ => htype.1.free _ hvariant) hpieces .none [] false
  rw [htext, Bool.eq_false_iff]
  intro hvoid
  rw [eq_nil_of_isVoid_map hvoid] at hfound
  cases hfound

/-- A value in which nothing vanishes, and which itself is written as null or as an empty container,
equals the default of its type. -/
theorem initial_equals_of_isVoid (h : c.Plain family) (htype : type.BuiltFrom family)
    (hvalue : c.HasType type value) (hstays : c.NothingVanishes type value) {initial : Datum}
    (hinitial : c.IsInitial type initial) (hpiece : c.piece? false type value = some piece)
    (hvoid : piece.isVoid = true) : initial.equals value = true := by
  have hrestorable := h.restorable
  induction hvalue generalizing initial piece with
  | @scalar type value holds =>
    cases hinitial
    rw [piece?] at hpiece
    rw [Scalar.eq_initial_of_isVoid hpiece hvoid]
    exact Scalar.initial_equals_self type
  | enumeration known =>
    cases hpiece
    have hkeeps := keepsStored_of_builtFrom htype h.enumNaming
    rw [(EnumType.KeepsStored.piece hkeeps known).1] at hvoid
    cases hvoid
  | absent inner =>
    cases hinitial
    rfl
  | @present inner value held ih =>
    cases hstays with
    | present stays inside =>
      have hinner : c.KeepsStored family inner := keepsStored_of_builtFrom htype h.enumNaming
      exact absurd (vanishes_of_isVoid hrestorable hinner inside hpiece hvoid) stays
  | boxed held ih =>
    cases hstays with
    | boxed stays =>
      obtain ⟨pointee, rfl, hpointee⟩ := hinitial
      exact ih htype stays hpointee hpiece hvoid
  | @list inner items held ih =>
    cases hstays with
    | list stays inside =>
      have hinner : c.KeepsStored family inner := keepsStored_of_builtFrom htype h.enumNaming
      cases hinitial
      rw [piece?] at hpiece
      rw [items_eq_nil_of_isVoid hrestorable hinner stays inside hpiece hvoid]
      rfl
  | @set hashed inner items held ascending ih =>
    cases hstays with
    | set stays inside =>
      have hinner : c.KeepsStored family inner := keepsStored_of_builtFrom htype h.enumNaming
      cases hinitial
      rw [piece?] at hpiece
      rw [items_eq_nil_of_isVoid hrestorable hinner stays inside hpiece hvoid]
      rfl
  | @map hashed inner entries held ascending ih =>
    cases hstays with
    | map stays inside =>
      have hinner : c.KeepsStored family inner := keepsStored_of_builtFrom htype h.enumNaming
      cases hinitial
      rw [piece?] at hpiece
      obtain ⟨pieces, hpieces, rfl⟩ := Option.map_eq_some_iff.mp hpiece
      rw [compactMembers_of_stays (ascending_of_entryPieces? ascending hpieces)
        (entry_stays hrestorable hinner stays hpieces)] at hvoid
      cases entryPieces?_eq_some.mp hpieces with
      | nil => rfl
      | cons hentry hrest => cases hvoid
  | @document id members length held ih =>
    cases hstays with
    | document stays inside =>
      cases hinitial
      refine initialMembers_equal length fun member hmember => ?_
      have hf := (List.of_mem_zip hmember).1
      rw [piece?] at hpiece
      obtain ⟨u, hcheck, hpiece⟩ := Option.bind_eq_some_iff.mp hpiece
      obtain ⟨pieces, hpieces, rfl⟩ := Option.map_eq_some_iff.mp hpiece
      refine initial_equals_of_left_out (h.types id htype _ hf) (held member hmember)
        (h.initial id htype _ hf) (exists_piece_of_kept hpieces hmember)
        (leavesNothing_of_isVoid (h.names id htype) hpieces hvoid hmember)
        fun piece hpiece hvoid => ih member hmember (h.types id htype _ hf) (inside member hmember)
          (h.initial id htype _ hf) hpiece hvoid
  | oneOf known length held ih => exact htype.elim

end Codec

end ItemMapper
