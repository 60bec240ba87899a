import ItemMapper.Proofs.Codec.Items
import ItemMapper.Proofs.Codec.Placing

/-!
# The shape of what is stored

What is written of a value has the shape that its type gives, whatever the value is and wherever it is
written: a document becomes a map, under the name of a member of which stands what is written of a value of
the member's type, and a list becomes a list of what is written of values of its elements' type. Null may
stand for an optional value.

## Main definitions

* `Ty.element?`, `Ty.entry?`: the type of the elements of a list, or of the entries of a map, that the type
  is or holds.
* `Ty.lists`, `Ty.core`: how often a type is a list, and of what.
* `Codec.Writes`: the attribute values that values of a type are written as.

## Main statements

* `Codec.Writes.exists_items`: what is stored of lists, and of their elements.
* `Codec.Writes.entry`: what is stored under the keys of maps.
* `Codec.Writes.exists_fields`: what is stored of documents.
* `Codec.writes_member`: what is stored of the members of documents.
* `Codec.writes_of_toItem`: the item of a document is what is stored of it.
-/

namespace ItemMapper

/-! ### Lists in types -/

namespace Ty

/-- The type of the elements, of a list that the type is or holds. -/
def element? : Ty → Option Ty
  | list inner => some inner
  | option inner | boxed inner => inner.element?
  | _ => none

/-- The type of the entries, of a map that the type is or holds. -/
def entry? : Ty → Option Ty
  | map _ inner => some inner
  | option inner | boxed inner => inner.entry?
  | _ => none

/-- How many times over the type is a list. -/
def lists : Ty → Nat
  | list inner => inner.lists + 1
  | option inner | boxed inner => inner.lists
  | _ => 0

/-- What the type is or holds, or the elements of a list that it is or holds, and so on. -/
def core : Ty → Ty
  | list inner | option inner | boxed inner => inner.core
  | other => other

variable {type inner : Ty} {owner : DocumentId}

theorem lists_of_element? (h : type.element? = some inner) :
    type.lists = inner.lists + 1 ∧ type.core = inner.core ∧ type.document? = inner.document? := by
  induction type with
  | list _ =>
    cases h
    exact ⟨rfl, rfl, rfl⟩
  | option _ ih | boxed _ ih => exact ih h
  | _ => cases h

theorem exists_element? (h : 0 < type.lists) : ∃ inner, type.element? = some inner := by
  induction type with
  | list inner => exact ⟨inner, rfl⟩
  | option _ ih | boxed _ ih => exact ih h
  | _ => cases h

theorem kind_of_lists_pos (h : 0 < type.lists) : type.kind = .list := by
  induction type with
  | list _ => rfl
  | option _ ih | boxed _ ih => exact ih h
  | _ => cases h

theorem kind_of_lists_eq_zero (h : type.lists = 0) : type.kind = type.core.kind := by
  induction type with
  | list _ => cases h
  | option _ ih | boxed _ ih => exact ih h
  | _ => rfl

theorem kind_core_ne_list (type : Ty) : type.core.kind ≠ .list := by
  induction type with
  | scalar type => cases type <;> exact nofun
  | list _ ih | option _ ih | boxed _ ih => exact ih
  | _ => exact nofun

theorem kind_eq_list_iff : type.kind = .list ↔ 0 < type.lists := by
  refine ⟨fun h => Nat.pos_of_ne_zero fun hzero => ?_, kind_of_lists_pos⟩
  exact kind_core_ne_list type ((kind_of_lists_eq_zero hzero).symm.trans h)

/-- A type of another kind is not a list. -/
theorem lists_eq_zero (h : type.kind ≠ .list) : type.lists = 0 :=
  Nat.eq_zero_of_not_pos fun hpos => h (kind_of_lists_pos hpos)

/-- A type of documents is one of a document without lists, or of lists of it. -/
theorem core_of_document? (h : type.document? = some owner) : type.core = .document owner := by
  induction type with
  | document _ =>
    cases h
    rfl
  | list _ ih | option _ ih | boxed _ ih => exact ih h
  | _ => cases h

end Ty

/-! ### What is written of values of a type -/

namespace Codec

variable {c : Codec} {type inner : Ty} {owner : DocumentId} {stored : AttributeValue}

/-- An attribute value that a value of the type is written as, in a slot of some writer. -/
def Writes (c : Codec) (type : Ty) (stored : AttributeValue) : Prop :=
  ∃ value w, w.checkSlot = .ok () ∧ c.write type value w = .ok () (w.fill stored)

/-- What holds of all that is put into slots for values of a type holds of what they are written as. -/
theorem Writes.of_places {P : AttributeValue → Prop} (h : c.Writes type stored)
    (hplaces : ∀ value, Writer.Places (c.write type value) P) : P stored := by
  obtain ⟨value, w, hfree, hwrite⟩ := h
  obtain ⟨placed, hplaced, hfill⟩ := hplaces value w _ hfree hwrite
  cases Writer.fill_injective hfree hfill
  exact hplaced

theorem places_writes (h : c.ConvertersPlace) (type : Ty) (value : Datum) :
    Writer.Places (c.write type value) (c.Writes type) := by
  intro w w' hfree hwrite
  obtain ⟨stored, -, rfl⟩ := places_write h type value w w' hfree hwrite
  exact ⟨stored, ⟨value, w, hfree, hwrite⟩, rfl⟩

/-! ### Optional and boxed values -/

theorem Writes.of_option (h : c.Writes (.option inner) stored) :
    stored = .null true ∨ c.Writes inner stored := by
  obtain ⟨value, w, hfree, hwrite⟩ := h
  cases value with
  | absent =>
    rw [write] at hwrite
    obtain ⟨placed, rfl, hfill⟩ :=
      Writer.Places.write (P := fun value => value = .null true) rfl w _ hfree hwrite
    exact .inl (Writer.fill_injective hfree hfill)
  | present value =>
    rw [write] at hwrite
    exact .inr ⟨value, w, hfree, hwrite⟩
  | _ => cases hwrite

theorem Writes.of_boxed (h : c.Writes (.boxed inner) stored) : c.Writes inner stored := by
  obtain ⟨value, w, hfree, hwrite⟩ := h
  cases value with
  | boxed value =>
    rw [write] at hwrite
    exact ⟨value, w, hfree, hwrite⟩
  | _ => cases hwrite

/-! ### Lists -/

/-- A list becomes a list of what its elements are written as. -/
theorem places_list (h : c.ConvertersPlace) (inner : Ty) (value : Datum) :
    Writer.Places (c.write (.list inner) value) fun stored =>
      ∃ items, stored = .list items ∧ ∀ item ∈ items, c.Writes inner item := by
  cases value with
  | list items =>
    rw [write]
    refine .array (R := fun elements => ∀ element ∈ elements, c.Writes inner element)
      (fun w w' inArray hwrite => ?_) fun inArray elements value helements hclose => ?_
    · obtain ⟨elements, helements, rfl⟩ :=
        writeItems_adds (P := fun _ => c.Writes inner)
          (fun item _ => places_writes h inner item) hwrite
      refine ⟨elements, ?_, rfl⟩
      clear hwrite
      induction helements with
      | nil => exact nofun
      | cons helement _ ih => exact List.forall_mem_cons.mpr ⟨helement, ih⟩
    · rw [Writer.closeArray_eq, Bool.false_and, if_neg Bool.false_ne_true] at hclose
      cases hclose
      exact ⟨_, rfl, fun item hitem => helements item (List.mem_of_mem_filter hitem)⟩
  | _ => exact places_illTyped _ _

/-- **What is stored of a list, also of an optional or a boxed one**, is null or a list of what its
elements are written as. -/
theorem Writes.exists_items (hplaces : c.ConvertersPlace) (h : c.Writes type stored)
    (hinner : type.element? = some inner) :
    stored = .null true ∨ ∃ items, stored = .list items ∧ ∀ item ∈ items, c.Writes inner item := by
  induction type with
  | list _ =>
    cases hinner
    exact .inr (h.of_places (places_list hplaces _))
  | option _ ih => exact h.of_option.elim .inl fun h => ih h hinner
  | boxed _ ih => exact ih h.of_boxed hinner
  | _ => cases hinner

/-! ### Maps -/

/-- Under the keys of a map stands what its values are written as. -/
theorem places_map (h : c.ConvertersPlace) (hashed : Bool) (inner : Ty) (value : Datum) :
    Writer.Places (c.write (.map hashed inner) value) fun stored => ∃ fields : Item,
      stored = .map fields ∧ ∀ key found, fields.get? key = some found → c.Writes inner found := by
  cases value with
  | map entries =>
    rw [write]
    refine .object (R := fun members => members.Ascending ∧
      ∀ key found, members.get? key = some found → c.Writes inner found)
      (fun w w' outermost hwrite => ?_)
      fun flags pinned outermost members ⟨hascending, hmembers⟩ =>
        ⟨_, rfl, fun key found hfound => ?_⟩
    · obtain ⟨members, rfl, hmembers⟩ := writeEntries_adds
        (fun entry _ => places_writes h inner entry.2) .nil (fun _ _ hnone => nomatch hnone) hwrite
      exact ⟨members, [], hmembers, rfl⟩
    · rw [Writer.compactMembers, Fields.get?_filter hascending, Option.filter_eq_some_iff] at hfound
      exact hmembers key found hfound.1
  | _ => exact places_illTyped _ _

/-- What is stored under a key of a map, also of an optional or a boxed one, is what a value of it is
written as. -/
theorem Writes.entry (hplaces : c.ConvertersPlace) {fields : Item} (h : c.Writes type (.map fields))
    (hinner : type.entry? = some inner) {key : String} (hget : fields.get? key = some stored) :
    c.Writes inner stored := by
  induction type with
  | map hashed _ =>
    cases hinner
    obtain ⟨fields', heq, hfields⟩ := h.of_places (places_map hplaces hashed _)
    cases heq
    exact hfields key stored hget
  | option _ ih => exact ih (h.of_option.resolve_left nofun) hinner
  | boxed _ ih => exact ih h.of_boxed hinner
  | _ => cases hinner

/-! ### Documents -/

theorem places_oneDocument (h : c.ConvertersPlace) (owner : DocumentId) (value : Datum) :
    Writer.Places (c.write (.document owner) value) fun stored => ∃ fields, stored = .map fields := by
  cases value with
  | document members =>
    rw [write]
    exact (places_document (places_writeMember h (c.documents owner).fields members) none).imp
      fun stored ⟨fields, hstored, _⟩ => ⟨fields, hstored⟩
  | _ => exact places_illTyped _ _

theorem places_oneOf (h : c.ConvertersPlace) (name : String) (variants : List (String × DocumentId))
    (value : Datum) :
    Writer.Places (c.write (.oneOf name variants) value) fun stored =>
      ∃ fields, stored = .map fields := by
  cases value with
  | variant variant members =>
    rw [write]
    cases variants.lookup variant with
    | none => exact places_illTyped _ _
    | some id =>
      exact (places_document (places_writeMember h (c.documents id).fields members) _).imp
        fun stored ⟨fields, hstored, _⟩ => ⟨fields, hstored⟩
  | _ => exact places_illTyped _ _

/-- **What is stored of a document, also of an optional or a boxed one**, is null or a map. -/
theorem Writes.exists_fields (hplaces : c.ConvertersPlace) (h : c.Writes type stored)
    (hkind : type.kind = .document) : stored = .null true ∨ ∃ fields, stored = .map fields := by
  induction type with
  | document owner => exact .inr (h.of_places (places_oneDocument hplaces owner))
  | oneOf name variants => exact .inr (h.of_places (places_oneOf hplaces name variants))
  | option _ ih => exact h.of_option.elim .inl fun h => ih h hkind
  | boxed _ ih => exact ih h.of_boxed hkind
  | scalar type => cases type <;> cases hkind
  | _ => cases hkind

/-- A map that is stored where documents are, or lists of them, is stored of a document. -/
theorem Writes.of_map (hplaces : c.ConvertersPlace) {fields : Item}
    (h : c.Writes type (.map fields)) (howner : type.document? = some owner) :
    type.lists = 0 ∧ c.Writes (.document owner) (.map fields) := by
  induction type with
  | document _ =>
    cases howner
    exact ⟨rfl, h⟩
  | option _ ih => exact ih (h.of_option.resolve_left nofun) howner
  | boxed _ ih => exact ih h.of_boxed howner
  | list _ =>
    obtain ⟨items, hitems, -⟩ := h.of_places (places_list hplaces _)
    cases hitems
  | _ => cases howner

/-- A list that is stored where documents are, or lists of them, is one of what is stored there of its
elements. -/
theorem Writes.of_list (hplaces : c.ConvertersPlace) {items : List AttributeValue}
    (h : c.Writes type (.list items)) (howner : type.document? = some owner) :
    ∃ inner, type.element? = some inner ∧ ∀ item ∈ items, c.Writes inner item := by
  by_cases hpos : 0 < type.lists
  · obtain ⟨inner, hinner⟩ := Ty.exists_element? hpos
    obtain hnull | ⟨items', heq, hitems⟩ := h.exists_items hplaces hinner
    · cases hnull
    · cases heq
      exact ⟨inner, hinner, hitems⟩
  · have hkind : type.kind = .document := by
      rw [Ty.kind_of_lists_eq_zero (Nat.eq_zero_of_not_pos hpos), Ty.core_of_document? howner]
      rfl
    obtain hnull | ⟨fields, hfields⟩ := h.exists_fields hplaces hkind
    · cases hnull
    · cases hfields

/-- **Under the name of a member stands what is written of a value of its type**, where the members have
different names and this one has no hooks. -/
theorem writes_member (hplaces : c.ConvertersPlace) {fields : Item}
    (h : c.Writes (.document owner) (.map fields))
    (hnames : ((c.documents owner).fields.map c.storedName).Nodup) {f : Field}
    (hf : f ∈ (c.documents owner).fields) (hhooks : f.onWrite = [])
    (hget : fields.get? (c.storedName f) = some stored) : c.Writes f.type stored := by
  obtain ⟨value, w, hfree, hwrite⟩ := h
  cases value with
  | document members =>
    obtain ⟨-, written, pinned, hmembers, hascending, hnothing, hfill⟩ :=
      exists_written_of_write hplaces hfree hwrite
    cases Writer.fill_injective hfree hfill
    rw [Writer.compactMembers, Fields.get?_filter hascending, Option.filter_eq_some_iff] at hget
    have hunder : ¬ c.WritesNothingUnder (c.storedName f) (c.documents owner).fields members := by
      intro hnone
      rw [hnothing _ hnone] at hget
      cases hget.1
    obtain ⟨last, hlast, hlasts⟩ :=
      exists_writesLast (places_writeMember hplaces _ _) .nil hmembers hunder
    cases hlast.symm.trans hget.1
    -- Of the members that are written under the name, only the one that is looked for has it.
    obtain ⟨⟨f', member⟩, hmember, -, hname, before, pins, hplaced⟩ := hlasts.exists_member
    obtain rfl : f' = f :=
      List.inj_on_of_nodup_map hnames (List.of_mem_zip hmember).1 hf hname
    rw [writeHooked_of_nil hhooks] at hplaced
    exact ⟨member, _, rfl, hplaced⟩
  | _ => cases hwrite

/-- **The item of a document is what is stored of the document.** -/
theorem writes_of_toItem (hplaces : c.ConvertersPlace) {value : Datum} {item : Item}
    (h : c.toItem (.document owner) value = .ok item) : c.Writes (.document owner) (.map item) := by
  obtain ⟨w', hwrite⟩ := exists_write_of_toItem h
  obtain ⟨stored, ⟨fields, rfl⟩, rfl⟩ := places_oneDocument hplaces owner value _ w' rfl hwrite
  cases h.symm.trans (toItem_of_write hwrite)
  exact ⟨value, _, rfl, hwrite⟩

end Codec

end ItemMapper
