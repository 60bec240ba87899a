import ItemMapper.Proofs.Codec.Stability

/-!
# Stored values that can be read

What a value is stored as is not always read as an equal value, but it is read as some value of its type:
nulls and empty containers that are dropped on the way are no obstacle, nor are variants of an enumeration
that share a name. Only two things are asked. The text of a date or a time has to be one that can be
read, and no member of a key, at any depth, may be stored as null or as an empty container, as it is
missing where it is wanted then.

## Main definitions

* `Codec.Legible`: the values of which this is true.

## Main statements

* `Codec.exists_decode_piece`: what such a value is stored as inside another one can be read.
* `Codec.exists_decode_oneOf`: a polymorphic value is read as the same variant.
-/

namespace ItemMapper

/-- The text of the value can be read, if it is the formatted text of a type. -/
def Scalar.Parses : Scalar → Datum → Prop
  | .textual type, .stamp value => ∃ read, type.read? value.text = some read
  | _, _ => True

/-- A variant that is stored, and not as null, can be read. -/
theorem EnumType.exists_read {e : EnumType} {options : CodecOptions} {number : Int}
    (hknown : (e.name? number).isSome = true) (hbounds : -(2 ^ 63) ≤ number ∧ number < 2 ^ 63)
    (hvoid : (e.piece options number).isVoid = false) :
    ∃ read, e.read options (e.piece options number) = .ok read := by
  obtain ⟨name, hname⟩ := Option.isSome_iff_exists.mp hknown
  unfold piece stored at hvoid ⊢
  rw [hname] at hvoid ⊢
  cases hencoding : options.enumEncoding with
  | name =>
    rw [hencoding] at hvoid
    simp only [textPiece] at hvoid ⊢
    split at hvoid
    · cases hvoid
    · rename_i hempty
      rw [if_neg hempty]
      have hfind : (e.variants.find? fun v => v.1 == options.enumNaming.apply name ||
          options.enumNaming.apply v.1 == options.enumNaming.apply name).isSome = true :=
        List.find?_isSome.mpr ⟨_, mem_of_name? hname, by rw [beq_self_eq_true, Bool.or_true]⟩
      obtain ⟨found, hfound⟩ := Option.isSome_iff_exists.mp hfind
      exact ⟨found.2, read_text hfound⟩
  | number => exact ⟨number, read_number hknown hbounds⟩

namespace Codec

variable {c : Codec} {family : DocumentId → Prop} {type : Ty} {value : Datum}

/-- The texts that the value holds can be read, the numbers of its variants have 64 bits, and no member
of a key in it is stored as null or as an empty container. -/
inductive Legible (c : Codec) : Ty → Datum → Prop
  | scalar {type : Scalar} {value : Datum} (parses : type.Parses value) :
      Legible c (.scalar type) value
  | enumeration (type : EnumType) {number : Int}
      (bounds : -(2 ^ 63) ≤ number ∧ number < 2 ^ 63) :
      Legible c (.enumeration type) (.enumeration number)
  | absent (inner : Ty) : Legible c (.option inner) .absent
  | present {inner : Ty} {value : Datum} (held : Legible c inner value) :
      Legible c (.option inner) (.present value)
  | boxed {inner : Ty} {value : Datum} (held : Legible c inner value) :
      Legible c (.boxed inner) (.boxed value)
  | list {inner : Ty} {items : List Datum} (held : ∀ item ∈ items, Legible c inner item) :
      Legible c (.list inner) (.list items)
  | set (hashed : Bool) {inner : Ty} {items : List Datum}
      (held : ∀ item ∈ items, Legible c inner item) : Legible c (.set hashed inner) (.list items)
  | map (hashed : Bool) {inner : Ty} {entries : List (String × Datum)}
      (held : ∀ entry ∈ entries, Legible c inner entry.2) :
      Legible c (.map hashed inner) (.map entries)
  | document {id : DocumentId} {members : List Datum}
      (stays : ∀ member ∈ (c.documents id).fields.zip members, isKey member.1 = true →
        ¬ c.Vanishes member.1.type member.2)
      (held : ∀ member ∈ (c.documents id).fields.zip members, Legible c member.1.type member.2) :
      Legible c (.document id) (.document members)
  | oneOf {name variant : String} {variants : List (String × DocumentId)} {id : DocumentId}
      {members : List Datum} (known : variants.lookup variant = some id)
      (stays : ∀ member ∈ (c.documents id).fields.zip members, isKey member.1 = true →
        ¬ c.Vanishes member.1.type member.2)
      (held : ∀ member ∈ (c.documents id).fields.zip members, Legible c member.1.type member.2) :
      Legible c (.oneOf name variants) (.variant variant members)

/-! ### Parts -/

/-- A legible scalar can be read from what it is stored as. -/
theorem exists_readLeaf (hc : c.converters = Converter.builtins) {type : Scalar}
    (holds : type.Holds value) (parses : type.Parses value) {piece : AttributeValue}
    (hpiece : type.piece? value = some piece) : ∃ read, c.readLeaf (.scalar type) piece = .ok read := by
  by_cases htextual : ∃ text, type = .textual text
  · obtain ⟨text, rfl⟩ := htextual
    cases value with
    | stamp value =>
      obtain ⟨read, hread⟩ := parses
      cases hpiece
      rw [textPiece, if_neg fun hempty => Stamp.text_ne_empty value (String.isEmpty_iff.mp hempty)]
      exact ⟨_, (readLeaf_textual_eq_ok hc).mpr ⟨read, hread, rfl⟩⟩
    | _ => exact holds.elim
  · obtain ⟨read, hread, -⟩ :=
      readLeaf_piece hc (fun text htext => htextual ⟨text, htext⟩) holds hpiece
    exact ⟨read, hread⟩

/-- Those pieces of some items that have been kept can be read, if the piece of each item can. -/
theorem exists_decodeItems {inner : Ty} {items : List Datum} {pieces kept : List AttributeValue}
    (hpieces : c.itemPieces? inner items = some pieces)
    (hread : ∀ item ∈ items, ∀ piece, c.piece? true inner item = some piece →
      ∃ read, c.decode inner piece = .ok read)
    (hkept : ∀ piece ∈ kept, piece ∈ pieces) :
    ∃ reads, List.Forall₂ (fun piece read => c.decode inner piece = .ok read) kept reads := by
  refine exists_forall₂_of_forall_exists fun piece hpiece => ?_
  obtain ⟨item, hitem, hof⟩ := exists_of_mem_right (itemPieces?_eq_some.mp hpieces) (hkept piece hpiece)
  exact hread item hitem piece hof

/-- Those pieces of some entries that have been kept can be read, if the piece of each entry can. -/
theorem exists_decodeEntries {inner : Ty} {entries : List (String × Datum)} {pieces kept : Item}
    (hpieces : c.entryPieces? inner entries = some pieces)
    (hread : ∀ entry ∈ entries, ∀ piece, c.piece? false inner entry.2 = some piece →
      ∃ read, c.decode inner piece = .ok read)
    (hkept : ∀ field ∈ kept, field ∈ pieces) :
    ∃ reads : List (String × Datum), List.Forall₂
      (fun field read => read.1 = field.1 ∧ c.decode inner field.2 = .ok read.2) kept reads := by
  refine exists_forall₂_of_forall_exists fun field hfield => ?_
  obtain ⟨entry, hentry, -, hof⟩ :=
    exists_of_mem_right (entryPieces?_eq_some.mp hpieces) (hkept field hfield)
  obtain ⟨read, hread⟩ := hread entry hentry field.2 hof
  exact ⟨(field.1, read), rfl, hread⟩

/-! ### Documents -/

/-- The members of a document can be read from what the document is stored as, if what is written of
each of them can be. -/
theorem exists_decodeMembers (h : c.Restorable family) {id : DocumentId} (hid : family id)
    {members : List Datum} (hlength : (c.documents id).fields.length = members.length)
    {discriminator : Option String} (hfree : c.LeavesFree discriminator (c.documents id).fields)
    {pieces : List (Field × AttributeValue)}
    (hpieces : c.memberPieces? (c.documents id).fields members = some pieces)
    (hstays : ∀ member ∈ (c.documents id).fields.zip members, isKey member.1 = true →
      ¬ c.Vanishes member.1.type member.2)
    (hread : ∀ member ∈ (c.documents id).fields.zip members, ∀ piece,
      c.piece? false member.1.type member.2 = some piece →
        ∃ read, c.decode member.1.type piece = .ok read)
    (flags : WriteFlags) (pinned : List String) (outermost : Bool) :
    ∃ values, List.Forall₂ (fun f read =>
        c.decodeMember (Writer.compactMembers flags pinned outermost
          (Fields.ofList (c.tag discriminator ++ c.named pieces))) f = .ok read)
      (c.documents id).fields values := by
  refine exists_forall₂_of_forall_exists fun f hf => ?_
  obtain ⟨value, hmember⟩ := exists_mem_zip hlength hf
  obtain ⟨read, hread, -⟩ := @exists_decodeMember _ _ h id hid f hf value (hstays _ hmember)
    (exists_piece_of_kept hpieces hmember) _
    (stores_compactMembers (h.names id hid) hfree hpieces hmember flags pinned outermost)
    (fun _ => True) (fun piece hpiece => (hread _ hmember piece hpiece).imp fun _ hread =>
      ⟨hread, trivial⟩) fun _ => trivial
  exact ⟨read, hread⟩

/-- A polymorphic value is read as the same variant from what it is stored as, if what is written of its
members can be read and none of them is stored where its discriminator is. -/
theorem exists_decode_oneOf (h : c.Restorable family) {name variant : String}
    {variants : List (String × DocumentId)} (htype : c.KeepsStored family (.oneOf name variants))
    {id : DocumentId} (known : variants.lookup variant = some id)
    (hcheck : (c.documents id).check = .ok ()) {members : List Datum}
    (hlength : (c.documents id).fields.length = members.length)
    {pieces : List (Field × AttributeValue)}
    (hpieces : c.memberPieces? (c.documents id).fields members = some pieces)
    (hstays : ∀ member ∈ (c.documents id).fields.zip members, isKey member.1 = true →
      ¬ c.Vanishes member.1.type member.2)
    (hread : ∀ member ∈ (c.documents id).fields.zip members, ∀ piece,
      c.piece? false member.1.type member.2 = some piece →
        ∃ read, c.decode member.1.type piece = .ok read)
    (flags : WriteFlags) (pinned : List String) (outermost : Bool) :
    ∃ values, c.decode (.oneOf name variants) (.map (Writer.compactMembers flags pinned outermost
      (Fields.ofList (c.tag (c.discriminatorFor (c.info (.document id))) ++ c.named pieces)))) =
        .ok (.variant variant values) := by
  have hvariant := mem_of_lookup known
  have hid := htype.2 _ hvariant
  obtain ⟨text, htext, hne⟩ := htype.1.discriminated _ hvariant
  have hfree : c.LeavesFree (some text) (c.documents id).fields :=
    fun _ => htype.1.free _ hvariant
  rw [htext]
  obtain ⟨values, hvalues⟩ := exists_decodeMembers h hid hlength hfree hpieces hstays hread
    flags pinned outermost
  refine ⟨values, decode_oneOf_eq_ok.mpr ⟨text, variant, id, ?_, ?_, hcheck, values, hvalues, rfl⟩⟩
  · exact get?_typeDiscriminator hne (h.names id hid) hfree hpieces flags pinned outermost
  · exact htype.1.variantOf? hvariant htext

/-! ### Values -/

/-- What a legible value is stored as inside another one can be read. -/
theorem exists_decode_piece (h : c.Restorable family) (htype : c.KeepsStored family type)
    (hvalue : c.HasType type value) (hlegible : c.Legible type value) {inArray : Bool}
    {piece : AttributeValue} (hpiece : c.piece? inArray type value = some piece) :
    ∃ read, c.decode type piece = .ok read := by
  induction hvalue generalizing inArray piece with
  | @scalar type value holds =>
    cases hlegible with
    | scalar parses =>
      rw [piece?] at hpiece
      rw [decode]
      exact exists_readLeaf h.converters holds parses hpiece
  | @enumeration type number known =>
    cases hlegible with
    | enumeration _ bounds =>
      cases hpiece
      obtain ⟨read, hread⟩ :=
        EnumType.exists_read known bounds (EnumType.KeepsStored.piece htype known).1
      refine ⟨.enumeration read, ?_⟩
      rw [decode, hread]
      rfl
  | absent inner =>
    cases hpiece
    refine ⟨.absent, ?_⟩
    rw [decode]
    rfl
  | @present inner value held ih =>
    cases hlegible with
    | present hlegible =>
      obtain ⟨read, hread⟩ := ih htype hlegible hpiece
      cases hnull : piece.isAnyNull with
      | true =>
        refine ⟨.absent, ?_⟩
        rw [decode, if_pos hnull]
      | false => exact ⟨_, (decode_option_eq_ok hnull).mpr ⟨read, hread, rfl⟩⟩
  | boxed held ih =>
    cases hlegible with
    | boxed hlegible =>
      obtain ⟨read, hread⟩ := ih htype hlegible hpiece
      exact ⟨_, decode_boxed_eq_ok.mpr ⟨read, hread, rfl⟩⟩
  | @list inner items held ih =>
    cases hlegible with
    | list hlegible =>
      rw [piece?] at hpiece
      obtain ⟨pieces, hpieces, hclose⟩ := Option.bind_eq_some_iff.mp hpiece
      rw [except_toOption_eq_some, Writer.closeArray_list] at hclose
      cases hclose
      obtain ⟨reads, hreads⟩ := exists_decodeItems hpieces
        (fun item hitem _ hof => ih item hitem htype (hlegible item hitem) hof)
        fun piece hpiece => List.mem_of_mem_filter hpiece
      exact ⟨_, (decode_list_eq_ok rfl).mpr ⟨reads, hreads, rfl⟩⟩
  | @set hashed inner items held ascending ih =>
    cases hlegible with
    | set _ hlegible =>
      have hinner : c.KeepsStored family inner := htype
      rw [piece?] at hpiece
      obtain ⟨pieces, hpieces, hclose⟩ := Option.bind_eq_some_iff.mp hpiece
      rw [except_toOption_eq_some] at hclose
      have hstays : ∀ piece ∈ pieces.filter (!·.isVoid), piece.isVoid = false :=
        fun piece hpiece => by simpa using (List.mem_filter.mp hpiece).2
      obtain ⟨elements, helements, hsame, -⟩ :=
        closeArray_elements hstays (Writer.closeArray_filter hclose)
      obtain ⟨reads, hreads⟩ := exists_decodeItems hpieces
        (fun item hitem _ hof => ih item hitem hinner (hlegible item hitem) hof)
        fun piece hpiece => List.mem_of_mem_filter ((hsame piece).mp hpiece)
      exact ⟨_, (decode_set_eq_ok helements).mpr ⟨reads, hreads, rfl⟩⟩
  | @map hashed inner entries held ascending ih =>
    cases hlegible with
    | map _ hlegible =>
      rw [piece?] at hpiece
      obtain ⟨pieces, hpieces, rfl⟩ := Option.map_eq_some_iff.mp hpiece
      rw [compactMembers_of_ascending (ascending_of_entryPieces? ascending hpieces)]
      obtain ⟨reads, hreads⟩ := exists_decodeEntries hpieces
        (fun entry hentry _ hof => ih entry hentry htype (hlegible entry hentry) hof)
        fun field hfield => List.mem_of_mem_filter hfield
      exact ⟨_, decode_map_eq_ok.mpr ⟨reads, hreads, rfl⟩⟩
  | @document id members length held ih =>
    cases hlegible with
    | document stays hlegible =>
      rw [piece?] at hpiece
      obtain ⟨u, hcheck, hpiece⟩ := Option.bind_eq_some_iff.mp hpiece
      obtain ⟨pieces, hpieces, rfl⟩ := Option.map_eq_some_iff.mp hpiece
      obtain ⟨values, hvalues⟩ := exists_decodeMembers h htype length leavesFree_none hpieces stays
        (fun member hmember piece hpiece => ih member hmember
          (h.types id htype _ (List.of_mem_zip hmember).1) (hlegible member hmember) hpiece)
        .none [] false
      exact ⟨_, decode_document_eq_ok.mpr
        ⟨except_toOption_eq_some.mp hcheck, values, hvalues, rfl⟩⟩
  | @oneOf name variant variants id members known length held ih =>
    cases hlegible with
    | oneOf known' stays hlegible =>
      rw [known] at known'
      cases known'
      rw [piece?, known, Option.bind_some] at hpiece
      obtain ⟨u, hcheck, hpiece⟩ := Option.bind_eq_some_iff.mp hpiece
      obtain ⟨pieces, hpieces, rfl⟩ := Option.map_eq_some_iff.mp hpiece
      have hid : family id := htype.2 _ (mem_of_lookup known)
      obtain ⟨values, hvalues⟩ := exists_decode_oneOf h htype known
        (except_toOption_eq_some.mp hcheck) length hpieces stays
        (fun member hmember piece hpiece => ih member hmember
          (h.types id hid _ (List.of_mem_zip hmember).1) (hlegible member hmember) hpiece)
        .none [] false
      exact ⟨_, hvalues⟩

end Codec

end ItemMapper
