import ItemMapper.Proofs.Codec.Legible
import ItemMapper.Proofs.Codec.Placing

/-!
# Variants that are kept

A polymorphic value is stored as the document of its variant, in which one attribute more holds the text
that tells the variant apart. The members of the document are written into the same map after it, so that
a member that is stored under this attribute takes its place. What is read is therefore the same variant
just where the text still stands, and where the document by itself can be read. The text stands if no
member is written over it. It does not if one is, unless what the member is stored as happens to be this
text: the value is then read as another variant, or not at all.

All this is said of values that stand alone, in an option or in a list. In a list nothing may be lost,
either: a map from which the text has gone may be empty, and is dropped.

## Main definitions

* `Codec.VariantsNamed`: variants with different texts.
* `Datum.SameVariants`, `Codec.ReadsSame`: values of the same variants.
* `Codec.Marked`, `Codec.LeavesMark`, `Codec.Overwritten`: the text of a variant in what is stored.

## Main statements

* `Codec.readsSame_of_encode`: when a stored value is read as the same variants.
-/

namespace ItemMapper

/-- The type is the given one, an option or a list of it. -/
inductive Ty.HeldBy (inner : Ty) : Ty → Prop
  | alone : HeldBy inner inner
  | option : HeldBy inner (.option inner)
  | list : HeldBy inner (.list inner)

namespace Datum

/-- The values that a value is, holds or is a list of. -/
def held : Datum → List Datum
  | absent => []
  | present value => [value]
  | list items => items
  | value => [value]

/-- The document that a polymorphic value wraps, and its members. -/
def wrapped? (variants : List (String × DocumentId)) : Datum → Option (DocumentId × List Datum)
  | variant name members => (variants.lookup name).map fun id => (id, members)
  | _ => none

/-- The values are of the same variant each, whatever their members are, and are held alike. -/
inductive SameVariants : Datum → Datum → Prop
  | variant (name : String) (members members' : List Datum) :
      SameVariants (.variant name members) (.variant name members')
  | absent : SameVariants .absent .absent
  | present {value value' : Datum} (held : SameVariants value value') :
      SameVariants (.present value) (.present value')
  | list {items items' : List Datum} (held : List.Forall₂ SameVariants items items') :
      SameVariants (.list items) (.list items')

theorem wrapped?_variant {variants : List (String × DocumentId)} {name : String} {id : DocumentId}
    (known : variants.lookup name = some id) (members : List Datum) :
    (variant name members).wrapped? variants = some (id, members) := by
  rw [wrapped?, known, Option.map_some]

end Datum

/-- The values that are stored for the values which a value holds. -/
def AttributeValue.held : AttributeValue → List AttributeValue
  | null _ => []
  | list items => items
  | value => [value]

namespace Codec

variable {c : Codec} {name : String} {variants : List (String × DocumentId)} {type : Ty}
  {value : Datum} {stored : AttributeValue} {family : DocumentId → Prop}

/-- The variants of a polymorphic type have names of their own and texts of their own, none of them
empty. -/
structure VariantsNamed (c : Codec) (variants : List (String × DocumentId)) : Prop where
  names : (variants.map (·.1)).Nodup
  texts : (variants.map fun v => c.discriminatorFor (c.info (.document v.2))).Nodup
  discriminated : ∀ v ∈ variants,
    ∃ text, c.discriminatorFor (c.info (.document v.2)) = some text ∧ text ≠ ""

/-- What is stored can be read, as values of the same variants. -/
def ReadsSame (c : Codec) (type : Ty) (value : Datum) (stored : AttributeValue) : Prop :=
  ∃ read, c.decode type stored = .ok read ∧ value.SameVariants read

/-- In what is stored of a polymorphic value stands the text of its variant. -/
def Marked (c : Codec) (variants : List (String × DocumentId)) (value : Datum)
    (stored : AttributeValue) : Prop :=
  ∃ id members text, ∃ fields : Item, value.wrapped? variants = some (id, members) ∧
    c.discriminatorFor (c.info (.document id)) = some text ∧ stored = .map fields ∧
      fields.get? c.options.typeDiscriminator = some (.text text)

/-- The document that a polymorphic value wraps can be read from what is stored. -/
def DocumentReads (c : Codec) (variants : List (String × DocumentId)) (value : Datum)
    (stored : AttributeValue) : Prop :=
  ∃ id members read, value.wrapped? variants = some (id, members) ∧
    c.decode (.document id) stored = .ok read

/-- No member of the wrapped document is written where the text of the variant stands. -/
def LeavesMark (c : Codec) (variants : List (String × DocumentId)) (value : Datum) : Prop :=
  ∀ id members, value.wrapped? variants = some (id, members) →
    c.WritesNothingUnder c.options.typeDiscriminator (c.documents id).fields members

/-- A member of the wrapped document is written where the text of the variant stands, and as something
else than this text. -/
def Overwritten (c : Codec) (variants : List (String × DocumentId)) (value : Datum) : Prop :=
  ∃ id members, value.wrapped? variants = some (id, members) ∧
    ∃ member ∈ (c.documents id).fields.zip members,
      c.keepsMember member.1 member.2 = true ∧
        c.storedName member.1 = c.options.typeDiscriminator ∧
          ∃ written, Writer.forPart.run (c.write member.1.type member.2) = .ok (some written) ∧
            ∀ text, c.discriminatorFor (c.info (.document id)) = some text → written ≠ .text text

theorem Marked.isVoid_eq_false (h : c.Marked variants value stored) : stored.isVoid = false := by
  obtain ⟨id, members, text, fields, -, -, rfl, hfound⟩ := h
  rw [Bool.eq_false_iff]
  intro hvoid
  rw [eq_nil_of_isVoid_map hvoid] at hfound
  cases hfound

/-! ### Reading -/

theorem VariantsNamed.variantOf? (h : c.VariantsNamed variants) {variant : String × DocumentId}
    (hmem : variant ∈ variants) {text : String}
    (htext : c.discriminatorFor (c.info (.document variant.2)) = some text) :
    c.variantOf? variants text = some variant :=
  find?_of_nodup h.texts hmem fun _ _ => by rw [htext]

/-- A map is read as the same variant just where it holds the text of this variant and the document can
be read from it. -/
theorem readsSame_variant (hnamed : c.VariantsNamed variants) {variant : String} {id : DocumentId}
    (known : variants.lookup variant = some id) (members : List Datum) (fields : Item) :
    c.ReadsSame (.oneOf name variants) (.variant variant members) (.map fields) ↔
      c.Marked variants (.variant variant members) (.map fields) ∧
        c.DocumentReads variants (.variant variant members) (.map fields) := by
  have hwrapped : (Datum.variant variant members).wrapped? variants = some (id, members) :=
    Datum.wrapped?_variant known members
  constructor
  · rintro ⟨read, hread, hsame⟩
    obtain ⟨text, variant', id', hfound, hvariant, hcheck, values, hvalues, rfl⟩ :=
      decode_oneOf_eq_ok.mp hread
    cases hsame
    have hmem : (variant, id') ∈ variants := List.mem_of_find?_eq_some hvariant
    have htext : (c.discriminatorFor (c.info (.document id')) == some text) = true := by
      have hfound := List.find?_some hvariant
      exact hfound
    rw [beq_iff_eq] at htext
    cases known.symm.trans (lookup_of_mem hnamed.names hmem)
    exact ⟨⟨id, members, text, fields, hwrapped, htext, rfl, hfound⟩, id, members, _, hwrapped,
      decode_document_eq_ok.mpr ⟨hcheck, values, hvalues, rfl⟩⟩
  · rintro ⟨⟨id₁, members₁, text, fields', hwrapped₁, htext, heq, hfound⟩,
      id₂, members₂, read, hwrapped₂, hread⟩
    cases hwrapped.symm.trans hwrapped₁
    cases hwrapped.symm.trans hwrapped₂
    cases heq
    obtain ⟨hcheck, values, hvalues, rfl⟩ := decode_document_eq_ok.mp hread
    exact ⟨_, decode_oneOf_eq_ok.mpr ⟨text, variant, id, hfound,
      hnamed.variantOf? (mem_of_lookup known) htext, hcheck, values, hvalues, rfl⟩, .variant ..⟩

/-- A value that is present is read as the same variants just where it is by itself. -/
theorem readsSame_present {inner : Ty} (hnull : stored.isAnyNull = false) :
    c.ReadsSame (.option inner) (.present value) stored ↔ c.ReadsSame inner value stored := by
  constructor
  · rintro ⟨read, hread, hsame⟩
    obtain ⟨read', hread', rfl⟩ := (decode_option_eq_ok hnull).mp hread
    cases hsame with
    | present hsame => exact ⟨read', hread', hsame⟩
  · rintro ⟨read, hread, hsame⟩
    exact ⟨_, (decode_option_eq_ok hnull).mpr ⟨read, hread, rfl⟩, .present hsame⟩

/-- A list is read as the same variants just where each of its items is. -/
theorem readsSame_list {inner : Ty} {items : List Datum} {parts : List AttributeValue} :
    c.ReadsSame (.list inner) (.list items) (.list parts) ↔
      List.Forall₂ (c.ReadsSame inner) items parts := by
  constructor
  · rintro ⟨read, hread, hsame⟩
    obtain ⟨reads, hreads, rfl⟩ := (decode_list_eq_ok rfl).mp hread
    cases hsame with
    | list hsame =>
      refine (forall₂_of_steps hsame hreads.flip).imp ?_
      rintro item part ⟨read, hsame, hread⟩
      exact ⟨read, hread, hsame⟩
  · intro hreads
    obtain ⟨reads, hsame, hread⟩ := exists_forall₂
      (P := Datum.SameVariants) (Q := fun read part => c.decode inner part = .ok read)
      (hreads.imp fun item part h => h.imp fun read h => h.symm)
    exact ⟨_, (decode_list_eq_ok rfl).mpr ⟨reads, hread.flip, rfl⟩, .list hsame⟩

/-! ### Writing one value -/

/-- What a polymorphic value is written as, whatever the converters and hooks do: a map, in which the
text of the variant stands if no member is written over it. -/
def WrittenAs (c : Codec) (variants : List (String × DocumentId)) (value : Datum)
    (stored : AttributeValue) : Prop :=
  ∃ variant members id, ∃ fields : Item, value = .variant variant members ∧
    variants.lookup variant = some id ∧ stored = .map fields ∧
      ∀ text, c.discriminatorFor (c.info (.document id)) = some text → text ≠ "" →
        c.WritesNothingUnder c.options.typeDiscriminator (c.documents id).fields members →
          fields.get? c.options.typeDiscriminator = some (.text text)

/-- What a polymorphic value is written as whose documents are of a restorable family: the text of its
variant and the pieces of its members, as far as they are kept. -/
def AssembledAs (c : Codec) (variants : List (String × DocumentId)) (value : Datum)
    (stored : AttributeValue) : Prop :=
  ∃ variant members id pieces flags pinned outermost, value = .variant variant members ∧
    variants.lookup variant = some id ∧ (c.documents id).check = .ok () ∧
      c.memberPieces? (c.documents id).fields members = some pieces ∧
        stored = .map (Writer.compactMembers flags pinned outermost
          (Fields.ofList (c.tag (c.discriminatorFor (c.info (.document id))) ++ c.named pieces)))

theorem places_writtenAs (h : c.ConvertersPlace) (value : Datum) :
    Writer.Places (c.write (.oneOf name variants) value) (c.WrittenAs variants value) := by
  cases value with
  | variant variant members =>
    rw [write]
    cases hknown : variants.lookup variant with
    | none => exact places_illTyped _ _
    | some id =>
      refine (places_document (places_writeMember h (c.documents id).fields members) _).imp ?_
      rintro stored ⟨fields, rfl, hfound⟩
      exact ⟨variant, members, id, fields, rfl, hknown, rfl, hfound⟩
  | _ => exact places_illTyped _ _

theorem places_assembledAs (h : c.Restorable family) (hfamily : ∀ v ∈ variants, family v.2)
    (value : Datum) :
    Writer.Places (c.write (.oneOf name variants) value) (c.AssembledAs variants value) := by
  cases value with
  | variant variant members =>
    rw [write]
    cases hknown : variants.lookup variant with
    | none => exact places_illTyped _ _
    | some id =>
      have hid : family id := hfamily _ (mem_of_lookup hknown)
      cases hcheck : (c.documents id).check with
      | error e =>
        intro w w' hfree hcall
        simp [unit_bind_eq_ok, beginDocument, hcheck] at hcall
      | ok u =>
        have hobject := @Writer.Places.object (c.AssembledAs variants (.variant variant members))
          (do
            c.writeTag (c.discriminatorFor (c.info (.document id)))
            c.writeMembers (c.documents id).fields members)
          (fun written => ∃ pieces, c.memberPieces? (c.documents id).fields members = some pieces ∧
            written = Fields.ofList
              (c.tag (c.discriminatorFor (c.info (.document id))) ++ c.named pieces))
          (fun w w' outermost hwrite => ?_) (fun flags pinned outermost written hwritten => ?_)
        · simp only [beginDocument_of_check hcheck, bind_assoc] at hobject ⊢
          exact hobject
        · obtain ⟨pieces, hpieces, rfl⟩ := (writeTag_writeMembers_eq_ok (h.onWrite id hid)
            (fills_writeMember h (c.documents id).fields members (h.types id hid)) _).mp hwrite
          exact ⟨_, _, ⟨pieces, hpieces, rfl⟩, rfl⟩
        · obtain ⟨pieces, hpieces, rfl⟩ := hwritten
          exact ⟨variant, members, id, pieces, flags, pinned, outermost, rfl, hknown, hcheck,
            hpieces, rfl⟩
  | _ => exact places_illTyped _ _

theorem marked_of_writtenAs (hnamed : c.VariantsNamed variants)
    (h : c.WrittenAs variants value stored) (hleaves : c.LeavesMark variants value) :
    c.Marked variants value stored := by
  obtain ⟨variant, members, id, fields, rfl, hknown, rfl, hfound⟩ := h
  have hwrapped := Datum.wrapped?_variant hknown members
  obtain ⟨text, htext, hne⟩ := hnamed.discriminated _ (mem_of_lookup hknown)
  exact ⟨id, members, text, fields, hwrapped, htext, rfl,
    hfound text htext hne (hleaves id members hwrapped)⟩

/-- A text that has been written over does not stand. -/
theorem not_marked_of_overwritten (h : c.Restorable family) (hfamily : ∀ v ∈ variants, family v.2)
    (hassembled : c.AssembledAs variants value stored) (hover : c.Overwritten variants value) :
    ¬ c.Marked variants value stored := by
  obtain ⟨variant, members, id, pieces, flags, pinned, outermost, rfl, hknown, -, hpieces, rfl⟩ :=
    hassembled
  have hwrapped := Datum.wrapped?_variant hknown members
  obtain ⟨id₁, members₁, hwrapped₁, member, hmember, hkept, hname, written, hrun, hne⟩ := hover
  cases hwrapped.symm.trans hwrapped₁
  rintro ⟨id₂, members₂, text, fields, hwrapped₂, htext, hmap, hfound⟩
  cases hwrapped.symm.trans hwrapped₂
  cases hmap
  have hid : family id := hfamily _ (mem_of_lookup hknown)
  obtain ⟨piece, hpiece⟩ := exists_piece_of_kept hpieces hmember hkept
  have hwritten : piece = written := by
    have hfills := fills_writeMember h (c.documents id).fields members (h.types id hid) _ hmember
    rw [hpiece] at hfills
    cases hfills.run.symm.trans hrun
    rfl
  have hlookup := lookup_named (h.names id hid) hpieces hmember
  have hnodup := (h.names id hid).sublist (named_sublist hpieces)
  rw [Writer.compactMembers, Fields.get?_filter (Fields.ascending_ofList _),
    ← Fields.insertAll_ofList, Fields.get?_insertAll hnodup, ← hname, hlookup,
    stored?_eq_some.mpr ⟨hkept, hpiece⟩, Option.some_or, Option.filter_eq_some_iff] at hfound
  exact hne text htext (hwritten.symm.trans (Option.some.inj hfound.1))

/-! ### Values that are held -/

/-- What is stored of a value that is one for whose parts a relation holds, or an option or a list of
such ones. Of a list only those parts are stored that are not empty. -/
inductive HeldAs (inner : Ty) (P : Datum → AttributeValue → Prop) : Ty → Datum → AttributeValue → Prop
  | alone {variant : String} {members : List Datum} {fields : Item}
      (held : P (.variant variant members) (.map fields)) :
      HeldAs inner P inner (.variant variant members) (.map fields)
  | absent : HeldAs inner P (.option inner) .absent (.null true)
  | present {variant : String} {members : List Datum} {fields : Item}
      (held : P (.variant variant members) (.map fields)) :
      HeldAs inner P (.option inner) (.present (.variant variant members)) (.map fields)
  | list {items : List Datum} {parts : List AttributeValue} (held : List.Forall₂ P items parts) :
      HeldAs inner P (.list inner) (.list items) (.list (parts.filter (!·.isVoid)))

section
variable {inner : Ty} {P Q : Datum → AttributeValue → Prop}

theorem HeldAs.imp (h : HeldAs inner P type value stored) (himp : ∀ v part, P v part → Q v part) :
    HeldAs inner Q type value stored := by
  cases h with
  | alone held => exact .alone (himp _ _ held)
  | absent => exact .absent
  | present held => exact .present (himp _ _ held)
  | list held => exact .list (held.imp himp)

/-- What is true of all parts, which are not empty then, is true of those that are stored. -/
theorem HeldAs.forall₂ (h : HeldAs inner P type value stored)
    (himp : ∀ v ∈ value.held, ∀ part, P v part → Q v part ∧ part.isVoid = false) :
    List.Forall₂ Q value.held stored.held := by
  cases h with
  | alone held => exact .cons (himp _ List.mem_cons_self _ held).1 .nil
  | absent => exact .nil
  | present held => exact .cons (himp _ List.mem_cons_self _ held).1 .nil
  | @list items parts held =>
    have hboth : List.Forall₂ (fun v part => Q v part ∧ part.isVoid = false) items parts :=
      forall₂_imp_of_mem held fun v hv part _ => himp v hv part
    have hstay : parts.filter (!·.isVoid) = parts := by
      refine List.filter_eq_self.mpr fun part hpart => ?_
      obtain ⟨v, -, -, hvoid⟩ := exists_of_mem_right hboth hpart
      rw [hvoid]
      rfl
    change List.Forall₂ Q items (parts.filter (!·.isVoid))
    rw [hstay]
    exact hboth.imp fun _ _ h => h.1

/-- Where all parts are stored and something is true of them, each value has a part of which this and the
relation are true. -/
theorem HeldAs.exists_of_mem (h : HeldAs inner P type value stored)
    (hall : List.Forall₂ Q value.held stored.held) {v : Datum} (hv : v ∈ value.held) :
    ∃ part, P v part ∧ Q v part := by
  cases h with
  | @alone _ _ fields held =>
    obtain rfl := List.mem_singleton.mp hv
    exact ⟨_, held, (List.forall₂_cons.mp hall).1⟩
  | absent => cases hv
  | @present _ _ fields held =>
    obtain rfl := List.mem_singleton.mp hv
    exact ⟨_, held, (List.forall₂_cons.mp hall).1⟩
  | @list items parts held =>
    -- None of the parts has been dropped, as they are as many as the items.
    have hstay : parts.filter (!·.isVoid) = parts :=
      List.filter_sublist.eq_of_length (hall.length_eq.symm.trans held.length_eq)
    change List.Forall₂ Q items (parts.filter (!·.isVoid)) at hall
    rw [hstay] at hall
    have hboth : List.Forall₂ (fun part v => P v part ∧ Q v part) parts items :=
      (List.forall₂_iff_zip.mpr ⟨held.length_eq, fun hmem =>
        ⟨List.forall₂_zip held hmem, List.forall₂_zip hall hmem⟩⟩).flip
    obtain ⟨part, -, hpart⟩ := exists_of_mem_right hboth hv
    exact ⟨part, hpart⟩

/-- What a call writes of the values of a type, it writes of the values that hold them. -/
theorem places_heldAs (hholds : inner.HeldBy type)
    (hplaces : ∀ value, Writer.Places (c.write inner value) (P value))
    (hmap : ∀ v part, P v part →
      ∃ variant members fields, v = .variant variant members ∧ part = .map fields)
    (value : Datum) : Writer.Places (c.write type value) (HeldAs inner P type value) := by
  cases hholds with
  | alone =>
    refine (hplaces value).imp fun part hpart => ?_
    obtain ⟨variant, members, fields, rfl, rfl⟩ := hmap _ _ hpart
    exact .alone hpart
  | option =>
    cases value with
    | absent =>
      rw [write]
      exact .write .absent
    | present value =>
      rw [write]
      refine (hplaces value).imp fun part hpart => ?_
      obtain ⟨variant, members, fields, rfl, rfl⟩ := hmap _ _ hpart
      exact .present hpart
    | _ => exact places_illTyped _ _
  | list =>
    cases value with
    | list items =>
      rw [write]
      refine .array (R := fun parts => List.Forall₂ P items parts)
        (fun w w' inArray hwrite => writeItems_adds (fun item _ => hplaces item) hwrite)
        fun inArray parts stored hparts hclose => ?_
      rw [Writer.closeArray_list] at hclose
      cases hclose
      exact .list hparts
    | _ => exact places_illTyped _ _

/-- What is stored of a value alone is what is written of it; null or an empty container may not be kept. -/
theorem heldAs_of_encode (hholds : inner.HeldBy type)
    (hplaces : ∀ value, Writer.Places (c.write inner value) (P value))
    (hmap : ∀ v part, P v part →
      ∃ variant members fields, v = .variant variant members ∧ part = .map fields)
    {written : Option AttributeValue} (hencoded : c.encode type value = .ok written) :
    ∃ stored, HeldAs inner P type value stored ∧
      (written = some stored ∨ written = none ∧ stored.isVoid = true) := by
  unfold encode encodeWith at hencoded
  obtain ⟨w', hwrite, hfinish⟩ := Writer.run_eq_ok.mp hencoded
  obtain ⟨stored, hheld, rfl⟩ := places_heldAs hholds hplaces hmap value _ w' rfl hwrite
  cases hfinish
  refine ⟨stored, hheld, ?_⟩
  cases hvoid : stored.isVoid with
  | false => exact .inl (Option.filter_some_pos (WriteFlags.keeps_of_not_isVoid _ hvoid))
  | true =>
    change Option.filter c.writeFlags.keeps (some stored) = _ ∨
      Option.filter c.writeFlags.keeps (some stored) = _ ∧ _
    cases hkeeps : c.writeFlags.keeps stored with
    | true => exact .inl (Option.filter_some_pos hkeeps)
    | false => exact .inr ⟨Option.filter_some_neg hkeeps, rfl⟩

end

theorem WrittenAs.map (v : Datum) (part : AttributeValue) (h : c.WrittenAs variants v part) :
    ∃ variant members fields, v = .variant variant members ∧ part = .map fields := by
  obtain ⟨variant, members, id, fields, rfl, -, rfl, -⟩ := h
  exact ⟨variant, members, fields, rfl, rfl⟩

/-- Values that are held are read as the same variants just where each of them is. -/
theorem readsSame_heldAs (hnamed : c.VariantsNamed variants)
    (h : HeldAs (.oneOf name variants) (c.WrittenAs variants) type value stored) :
    c.ReadsSame type value stored ↔
      List.Forall₂ (fun v part => c.Marked variants v part ∧ c.DocumentReads variants v part)
        value.held stored.held := by
  cases h with
  | @alone variant members fields held =>
    obtain ⟨_, _, id, _, ⟨⟩, hknown, ⟨⟩, -⟩ := held
    rw [readsSame_variant hnamed hknown]
    simp [Datum.held, AttributeValue.held]
  | absent =>
    refine iff_of_true ⟨.absent, ?_, .absent⟩ .nil
    rw [decode]
    rfl
  | @present variant members fields held =>
    obtain ⟨_, _, id, _, ⟨⟩, hknown, ⟨⟩, -⟩ := held
    rw [readsSame_present rfl, readsSame_variant hnamed hknown]
    simp [Datum.held, AttributeValue.held]
  | @list items parts held =>
    -- Each item has its document, and each part is a map, whatever parts have been dropped.
    have heach : ∀ item ∈ items, ∀ part ∈ parts.filter (!·.isVoid),
        (c.ReadsSame (.oneOf name variants) item part ↔
          c.Marked variants item part ∧ c.DocumentReads variants item part) := by
      intro item hitem part hpart
      obtain ⟨part', -, variant, members, id, _, rfl, hknown, -, -⟩ :=
        exists_of_mem_right held.flip hitem
      obtain ⟨item', -, _, _, _, fields, -, -, rfl, -⟩ :=
        exists_of_mem_right held (List.mem_of_mem_filter hpart)
      exact readsSame_variant hnamed hknown members fields
    exact readsSame_list.trans
      ⟨fun hreads => forall₂_imp_of_mem hreads fun item hitem part hpart =>
        (heach item hitem part hpart).mp,
      fun hkept => forall₂_imp_of_mem hkept fun item hitem part hpart =>
        (heach item hitem part hpart).mpr⟩

/-- The text of each variant stands in what is stored, and nothing is lost of a list, if no member is
written over it. -/
theorem forall₂_marked (hnamed : c.VariantsNamed variants)
    (h : HeldAs (.oneOf name variants) (c.WrittenAs variants) type value stored)
    (hleaves : ∀ v ∈ value.held, c.LeavesMark variants v) :
    List.Forall₂ (c.Marked variants) value.held stored.held :=
  h.forall₂ fun v hv _ hpart =>
    have hmarked := marked_of_writtenAs hnamed hpart (hleaves v hv)
    ⟨hmarked, hmarked.isVoid_eq_false⟩

/-- Only of what holds no polymorphic value null or an empty container is stored. -/
theorem held_eq_nil_of_isVoid (h : List.Forall₂ (c.Marked variants) value.held stored.held)
    (hvoid : stored.isVoid = true) : value.held = [] := by
  cases stored with
  | null flag => exact List.forall₂_nil_right_iff.mp h
  | list items =>
    cases items with
    | nil => exact List.forall₂_nil_right_iff.mp h
    | cons item rest => cases hvoid
  | map fields =>
    obtain ⟨v, -, hmarked⟩ := exists_of_mem_right h (List.mem_singleton_self (AttributeValue.map fields))
    rw [hmarked.isVoid_eq_false] at hvoid
    cases hvoid
  | _ => cases hvoid

/-- Values that are written over are not read as the same variants. -/
theorem not_readsSame_of_overwritten (hnamed : c.VariantsNamed variants) (hr : c.Restorable family)
    (hfamily : ∀ v ∈ variants, family v.2)
    (h : HeldAs (.oneOf name variants) (fun v part => c.WrittenAs variants v part ∧
      c.AssembledAs variants v part) type value stored)
    (hover : ∃ v ∈ value.held, c.Overwritten variants v) : ¬ c.ReadsSame type value stored := by
  intro hreads
  have hmarks := (readsSame_heldAs hnamed (h.imp fun _ _ hpart => hpart.1)).mp hreads
  obtain ⟨v, hv, hover⟩ := hover
  obtain ⟨part, hassembled, hmarked⟩ := h.exists_of_mem hmarks hv
  exact not_marked_of_overwritten hr hfamily hassembled.2 hover hmarked.1

/-- Legible values of restorable documents are read as the same variants, if no member of these
documents is stored where the text of a variant stands. -/
theorem readsSame_of_legible (hnamed : c.VariantsNamed variants) (hr : c.Restorable family)
    (htype : c.KeepsStored family (.oneOf name variants))
    (h : HeldAs (.oneOf name variants) (fun v part => c.WrittenAs variants v part ∧
      c.AssembledAs variants v part) type value stored)
    (hlegible : ∀ v ∈ value.held,
      c.HasType (.oneOf name variants) v ∧ c.Legible (.oneOf name variants) v) :
    c.ReadsSame type value stored := by
  refine (readsSame_heldAs hnamed (h.imp fun _ _ hpart => hpart.1)).mpr
    (h.forall₂ fun v hv part hpart => ?_)
  obtain ⟨-, variant, members, id, pieces, flags, pinned, outermost, rfl, hknown, hcheck, hpieces,
    rfl⟩ := hpart
  obtain ⟨hvalue, hlegible⟩ := hlegible _ hv
  cases hvalue with
  | oneOf known length held =>
    cases hlegible with
    | oneOf known' stays legible =>
      cases hknown.symm.trans known
      cases hknown.symm.trans known'
      have hid : family id := htype.2 _ (mem_of_lookup hknown)
      obtain ⟨values, hvalues⟩ := exists_decode_oneOf hr htype hknown hcheck length hpieces stays
        (fun member hmember piece hpiece => exists_decode_piece hr
          (hr.types id hid _ (List.of_mem_zip hmember).1) (held member hmember)
          (legible member hmember) hpiece) flags pinned outermost
      have hkept := (readsSame_variant hnamed hknown members _).mp ⟨_, hvalues, .variant ..⟩
      exact ⟨hkept, hkept.1.isVoid_eq_false⟩

/-! ### The theorem -/

/-- What is stored of a polymorphic value, of an option or of a list of such values is read as the same
variants just where the text of each variant stands and the document that it wraps can be read. So the
variants are kept whatever becomes of the members, the converters and the hooks being what they may, if
no member is written where the text stands: it stands then, and nothing is dropped. In documents of a
restorable family a member that is written there, and not as this text, loses its variant; if no member is
declared there, all legible values are read as the same variants. -/
theorem readsSame_of_encode (hconverters : c.ConvertersPlace) (hnamed : c.VariantsNamed variants)
    (hholds : (Ty.oneOf name variants).HeldBy type) {written : Option AttributeValue}
    (hencoded : c.encode type value = .ok written) :
    (∀ stored, written = some stored →
      (c.ReadsSame type value stored ↔
        List.Forall₂ (fun v part => c.Marked variants v part ∧ c.DocumentReads variants v part)
          value.held stored.held)) ∧
    ((∀ v ∈ value.held, c.LeavesMark variants v) →
      List.Forall₂ (c.Marked variants) value.held (written.elim [] AttributeValue.held)) ∧
    ∀ family, c.Restorable family → (∀ v ∈ variants, family v.2) → ∀ stored, written = some stored →
      ((∃ v ∈ value.held, c.Overwritten variants v) → ¬ c.ReadsSame type value stored) ∧
      ((∀ v ∈ variants, ∀ f ∈ (c.documents v.2).fields,
          c.storedName f ≠ c.options.typeDiscriminator) →
        (∀ v ∈ value.held, c.HasType (.oneOf name variants) v ∧ c.Legible (.oneOf name variants) v) →
          c.ReadsSame type value stored) := by
  have hplaces : ∀ value, Writer.Places (c.write (.oneOf name variants) value)
      (c.WrittenAs variants value) := places_writtenAs hconverters
  obtain ⟨stored, hheld, hwritten⟩ := heldAs_of_encode hholds hplaces WrittenAs.map hencoded
  refine ⟨fun found hfound => ?_, fun hleaves => ?_, fun family hr hfamily found hfound => ?_⟩
  · rcases hwritten with hwritten | ⟨hwritten, -⟩ <;> cases hwritten.symm.trans hfound
    exact readsSame_heldAs hnamed hheld
  · have hmarked := forall₂_marked hnamed hheld hleaves
    rcases hwritten with rfl | ⟨rfl, hvoid⟩
    · exact hmarked
    · rw [held_eq_nil_of_isVoid hmarked hvoid]
      exact .nil
  · obtain ⟨stored, hheld, hwritten⟩ := heldAs_of_encode hholds
      (fun value => (hplaces value).and (places_assembledAs hr hfamily value))
      (fun v part hpart => WrittenAs.map v part hpart.1) hencoded
    rcases hwritten with hwritten | ⟨hwritten, -⟩ <;> cases hwritten.symm.trans hfound
    refine ⟨not_readsSame_of_overwritten hnamed hr hfamily hheld, fun hfree hlegible => ?_⟩
    exact readsSame_of_legible hnamed hr
      ⟨⟨hnamed.names, hnamed.texts, hnamed.discriminated, hfree⟩, hfamily⟩ hheld hlegible

/-- The sample shapes, told apart by their names under an attribute, defaults being stored. -/
def tellingShapes (key : String) : Codec :=
  { storingNulls with
    options :=
      { CodecOptions.initial with serializeDefaultValues := true, typeDiscriminator := key }
    discriminatorFor := fun info => info.document.map (Sample.typeNameOf "") }

/-- A circle. -/
def sampleCircle : Datum := .variant "Circle" [.float (.finite false 0)]

/-- A square with the label `Circle`, which is stored under `$type`. -/
def labelledSquare : Datum := .variant "Square" [.float (.finite false 0), .present (.text "Circle")]

/-- What both are stored as where another attribute tells them apart. -/
def sampleShapesStored : AttributeValue :=
  .list [.map [("kind", .text "Circle"), ("radius", .number "0")],
    .map [("$type", .text "Circle"), ("kind", .text "Square"), ("side", .number "0")]]

/-- What the square is stored as where the label takes the place of the text. -/
def overwrittenSquare : AttributeValue := .map [("$type", .text "Circle"), ("side", .number "0")]

theorem tellingShapes_restorable (key : String) :
    (tellingShapes key).Restorable fun id => id = 7 ∨ id = 8 where
  converters := rfl
  onWrite := by
    rintro id (rfl | rfl) f hf <;> fin_cases hf <;> rfl
  onRead := by
    rintro id (rfl | rfl) f hf <;> fin_cases hf <;> rfl
  names := by
    rintro id (rfl | rfl)
    · exact List.nodup_singleton _
    · change ["side", "$type"].Nodup
      decide
  initial := by
    rintro id (rfl | rfl) f hf <;> fin_cases hf <;> rfl
  types := by
    rintro id (rfl | rfl) f hf <;> fin_cases hf <;> exact trivial

theorem tellingShapes_named (key : String) :
    (tellingShapes key).VariantsNamed [("Circle", 7), ("Square", 8)] where
  names := by decide
  texts := by
    change [some "Circle", some "Square"].Nodup
    decide
  discriminated := by
    intro v hv
    fin_cases hv
    · exact ⟨"Circle", rfl, by decide⟩
    · exact ⟨"Square", rfl, by decide⟩

theorem zero_holds : (Scalar.float .double).Holds (.float (.finite false 0)) :=
  fun _ => ⟨.finite false 0, by decide, by decide, rfl⟩

theorem sampleShapes_legible (v : Datum) (hv : v ∈ [sampleCircle, labelledSquare]) :
    (tellingShapes "kind").HasType Sample.shape v ∧ (tellingShapes "kind").Legible Sample.shape v := by
  fin_cases hv
  · constructor
    · refine .oneOf rfl rfl fun member hmember => ?_
      fin_cases hmember
      exact .scalar zero_holds
    · refine .oneOf rfl (fun member hmember hkey => ?_) fun member hmember => ?_
      · fin_cases hmember
        cases hkey
      · fin_cases hmember
        exact .scalar trivial
  · constructor
    · refine .oneOf rfl rfl fun member hmember => ?_
      fin_cases hmember
      · exact .scalar zero_holds
      · exact .present (.scalar trivial)
    · refine .oneOf rfl (fun member hmember hkey => ?_) fun member hmember => ?_
      · fin_cases hmember <;> cases hkey
      · fin_cases hmember
        · exact .scalar trivial
        · exact .present (.scalar trivial)

theorem labelledSquare_overwritten :
    (tellingShapes "$type").Overwritten [("Circle", 7), ("Square", 8)] labelledSquare := by
  refine ⟨8, _, rfl, _, List.mem_cons_of_mem _ List.mem_cons_self, rfl, rfl, .text "Circle", rfl, ?_⟩
  intro text htext heq
  cases heq
  exact absurd htext (by decide)

theorem readsSame_of_encode_sampleShapes :
    ((tellingShapes "kind").encode (.list Sample.shape) (.list [sampleCircle, labelledSquare]) =
        .ok (some sampleShapesStored) ∧
      (tellingShapes "kind").ReadsSame (.list Sample.shape) (.list [sampleCircle, labelledSquare])
        sampleShapesStored) ∧
    (tellingShapes "$type").encode Sample.shape labelledSquare = .ok (some overwrittenSquare) ∧
      ¬ (tellingShapes "$type").ReadsSame Sample.shape labelledSquare overwrittenSquare := by
  have hlist : (tellingShapes "kind").encode (.list Sample.shape)
      (.list [sampleCircle, labelledSquare]) = .ok (some sampleShapesStored) := by cbv
  have halone : (tellingShapes "$type").encode Sample.shape labelledSquare =
      .ok (some overwrittenSquare) := by cbv
  have hfamily : ∀ v ∈ [("Circle", 7), ("Square", 8)], v.2 = 7 ∨ v.2 = 8 := by decide
  have hfree : ∀ v ∈ [("Circle", 7), ("Square", 8)],
      ∀ f ∈ ((tellingShapes "kind").documents v.2).fields,
        (tellingShapes "kind").storedName f ≠ "kind" := by
    intro v hv f hf
    fin_cases hv <;> fin_cases hf <;> decide
  obtain ⟨-, -, hkept⟩ := readsSame_of_encode (convertersPlace_of_builtins rfl)
    (tellingShapes_named "kind") .list hlist
  obtain ⟨-, -, hlost⟩ := readsSame_of_encode (convertersPlace_of_builtins rfl)
    (tellingShapes_named "$type") .alone halone
  refine ⟨⟨hlist, ?_⟩, halone, ?_⟩
  · exact (hkept _ (tellingShapes_restorable "kind") hfamily _ rfl).2 hfree sampleShapes_legible
  · exact (hlost _ (tellingShapes_restorable "$type") hfamily _ rfl).1
      ⟨labelledSquare, List.mem_cons_self, labelledSquare_overwritten⟩

/-- What is read in the place of the square is a circle. -/
example : (tellingShapes "$type").decode Sample.shape overwrittenSquare = .ok sampleCircle := by cbv

end Codec

end ItemMapper
