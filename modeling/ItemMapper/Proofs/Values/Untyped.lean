import ItemMapper.Proofs.Number.Decimal
import ItemMapper.Proofs.Values.Places
import ItemMapper.Proofs.Values.Reordering
import ItemMapper.Proofs.Writer.SetMarked

/-!
# Attribute values without a type

An attribute value that is read without a type becomes a dynamic value, and this is written without a
type. On the way, numbers are printed anew, sets are put together again, and what is null or empty is
left out except at the top. A value in standard form has nothing that this would change, and comes back
as it was; and no other value does.

## Main definitions

* `IsPlain`: the number texts that are printed as they stand.
* `AttributeValue.Standard`, `AttributeValue.StandardRoot`: the standard form.

## Main statements

* `Value.piece_of_standard`, `Value.standard_of_piece`: the parts that come back are those in standard form.
* `Value.encode_ofAttribute`: **a value in standard form comes back as it was, and no other one does**.
-/

namespace ItemMapper

/-- A number text that is the printing of the integer of 64 bits that it denotes, white space at its ends
aside, or denotes none. -/
def IsPlain (digits : String) : Prop := ∀ i, readInt64? (Unicode.trim digits) = some i → digits = toString i

namespace AttributeValue

/-- The standard form of a part of a value: nothing null or empty is in a list or a map, no set is directly
in a list, sets have members that ascend and are not empty, and numbers are printed plainly. -/
inductive Standard : AttributeValue → Prop
  | null : Standard (.null true)
  | bool (value : Bool) : Standard (.bool value)
  | number {digits : String} (plain : IsPlain digits) : Standard (.number digits)
  | text {value : String} (nonempty : value ≠ "") : Standard (.text value)
  | binary {bytes : Bytes} (nonempty : bytes ≠ []) : Standard (.binary bytes)
  | textSet {members : List String} (nonempty : members ≠ []) (filled : ∀ member ∈ members, member ≠ "")
      (ascending : members.Pairwise TextBefore) : Standard (.textSet members)
  | numberSet {members : List String} (nonempty : members ≠ [])
      (numbers : ∀ member ∈ members, IsNumber member) (plain : ∀ member ∈ members, IsPlain member)
      (ascending : members.Pairwise NumberBefore) : Standard (.numberSet members)
  | binarySet {members : List Bytes} (nonempty : members ≠ []) (filled : ∀ member ∈ members, member ≠ [])
      (ascending : members.Pairwise BytesBefore) : Standard (.binarySet members)
  | list {items : List AttributeValue} (standard : ∀ item ∈ items, Standard item)
      (kept : ∀ item ∈ items, item.isVoid = false) (flat : ∀ item ∈ items, item.isSet = false) :
      Standard (.list items)
  | map {fields : List (String × AttributeValue)} (keys : Fields.Ascending fields)
      (standard : ∀ field ∈ fields, Standard field.2) (kept : ∀ field ∈ fields, field.2.isVoid = false) :
      Standard (.map fields)

/-- The standard form of a whole value. The fields of a map may be null or empty here. -/
inductive StandardRoot : AttributeValue → Prop
  | part {value : AttributeValue} (standard : value.Standard) : StandardRoot value
  | map {fields : List (String × AttributeValue)} (keys : Fields.Ascending fields)
      (standard : ∀ field ∈ fields, field.2.Standard) : StandardRoot (.map fields)

/-- Every text in a set of numbers denotes one, wherever the set stands. -/
def NumbersDenote (v : AttributeValue) : Prop :=
  ∀ path members, v.follow? path = some (.numberSet members) → ∀ member ∈ members, IsNumber member

theorem NumbersDenote.item {items : List AttributeValue} {item : AttributeValue}
    (h : (list items).NumbersDenote) (hitem : item ∈ items) : item.NumbersDenote := by
  obtain ⟨position, hchild⟩ := exists_child?_of_mem hitem
  exact fun path members hset => h (.index position :: path) members ((follow?_cons hchild path).trans hset)

theorem NumbersDenote.field {fields : List (String × AttributeValue)} {field : String × AttributeValue}
    (h : (map fields).NumbersDenote) (hkeys : Fields.Ascending fields) (hfield : field ∈ fields) :
    field.2.NumbersDenote := fun path members hset =>
  h (.field field.1 :: path) members ((follow?_cons (child?_of_mem_fields hkeys hfield) path).trans hset)

end AttributeValue

open Writer (closeArray)
open AttributeValue (setFrom dropVoid)

/-! ### Number texts -/

/-- How a number text is printed. -/
def reprinted (digits : String) : String :=
  match readInt64? (Unicode.trim digits) with
  | some i => toString i
  | none => digits

theorem isPlain_iff {digits : String} : IsPlain digits ↔ reprinted digits = digits := by
  unfold IsPlain reprinted
  cases readInt64? (Unicode.trim digits) with
  | none => simp
  | some i => simp [eq_comm]

theorem bounds_of_readInt64? {text : String} {i : Int} (h : readInt64? text = some i) :
    -(2 ^ 63) ≤ i ∧ i < 2 ^ 63 := by
  unfold readInt64? at h
  split at h
  · split at h
    · rename_i hbounds
      cases h
      exact hbounds
    · cases h
  · cases h

theorem isPlain_reprinted (digits : String) : IsPlain (reprinted digits) := by
  rw [isPlain_iff]
  cases hread : readInt64? (Unicode.trim digits) with
  | none =>
    have hsame : reprinted digits = digits := by
      unfold reprinted
      rw [hread]
    rw [hsame, hsame]
  | some i =>
    have hprinted : reprinted digits = toString i := by
      unfold reprinted
      rw [hread]
    rw [hprinted]
    unfold reprinted
    rw [trim_toString, readInt64?_toString (bounds_of_readInt64? hread)]

theorem compareNumberText_of_numberBefore {a b : String} (h : NumberBefore a b) :
    compareNumberText a b = .lt := by
  rcases h with hvalues | ⟨hvalues, htexts⟩
  · rw [compareNumberText, hvalues]
  · rw [compareNumberText, hvalues]
    exact textBefore_iff.mp htexts

/-! ### Sets -/

/-- Elements of one family make the set of what they hold just where this ascends. -/
theorem closeArray_eq_set_iff {α : Type} [DecidableEq α] {wrap : α → AttributeValue}
    {set : List α → AttributeValue} {cmp : α → α → Ordering} [Std.OrientedCmp cmp] {members : List α}
    (hkept : ∀ a, (wrap a).isVoid = false) (hlist : set members ≠ .list [])
    (hset : ∀ {values : List α}, values ≠ [] →
      setFrom (values.map wrap) = .ok (set (sortBy cmp (dedupEq values))))
    (hinjective : ∀ {xs ys : List α}, set xs = set ys → xs = ys)
    (hsorted : (sortBy cmp (dedupEq members)).Pairwise fun a b => cmp a b = .lt) :
    closeArray true false (members.map wrap) = .ok (set members) ↔
      members ≠ [] ∧ members.Pairwise fun a b => cmp a b = .lt := by
  have hvoid : ∀ e ∈ members.map wrap, e.isVoid = false := List.forall_mem_map.mpr fun a _ => hkept a
  rw [Writer.closeArray_of_not_isVoid hvoid]
  constructor
  · intro h
    have hne : members ≠ [] := by
      rintro rfl
      exact hlist (Except.ok.inj h).symm
    rw [hset hne] at h
    rw [hinjective (Except.ok.inj h)] at hsorted
    exact ⟨hne, hsorted⟩
  · rintro ⟨hne, hascending⟩
    have hnodup : members.Nodup := hascending.imp fun {a b} hlt heq => by
      rw [heq, @Std.ReflCmp.compare_self _ cmp] at hlt
      cases hlt
    rw [hset hne, dedupEq_eq_self hnodup, sortBy_eq_of_perm_of_ascending (List.Perm.refl _) hascending]

/-- The same where the values that are empty are written as null. -/
theorem closeArray_filled_eq_set_iff {α : Type} [DecidableEq α] {wrap : α → AttributeValue} {empty : α}
    {set : List α → AttributeValue} {cmp : α → α → Ordering} [Std.OrientedCmp cmp] {members : List α}
    (hkept : ∀ a, (wrap a).isVoid = false) (hlist : set members ≠ .list [])
    (hset : ∀ {values : List α}, values ≠ [] →
      setFrom (values.map wrap) = .ok (set (sortBy cmp (dedupEq values))))
    (hinjective : ∀ {xs ys : List α}, set xs = set ys → xs = ys)
    (hsorted : (sortBy cmp (dedupEq members)).Pairwise fun a b => cmp a b = .lt) :
    closeArray true false (members.map fun a => if a = empty then .null true else wrap a) =
        .ok (set members) ↔
      members ≠ [] ∧ (∀ a ∈ members, a ≠ empty) ∧ members.Pairwise fun a b => cmp a b = .lt := by
  by_cases hfilled : ∀ a ∈ members, a ≠ empty
  · have hmap : (members.map fun a => if a = empty then .null true else wrap a) = members.map wrap :=
      List.map_congr_left fun a ha => if_neg (hfilled a ha)
    rw [hmap, closeArray_eq_set_iff hkept hlist hset hinjective hsorted, and_iff_right hfilled]
  · have hnull : ∃ e ∈ members.map fun a => if a = empty then .null true else wrap a,
        e.isNull = true := by
      obtain ⟨a, ha, hempty⟩ := not_forall₂.mp hfilled
      exact ⟨_, List.mem_map_of_mem ha, by rw [if_pos (not_not.mp hempty)]; rfl⟩
    rw [closeArray_of_null hnull]
    exact iff_of_false nofun fun h => hfilled h.2.1

/-- What is kept of a list is a list of the same length just where all of it is kept. -/
theorem filter_eq_iff_of_length {α : Type} {p : α → Bool} {xs ys : List α} (h : xs.length = ys.length) :
    xs.filter p = ys ↔ xs = ys ∧ ∀ x ∈ xs, p x = true := by
  constructor
  · intro heq
    have hall : ∀ x ∈ xs, p x = true := by
      rw [← List.length_filter_eq_length_iff, heq, h]
    rw [List.filter_eq_self.mpr hall] at heq
    exact ⟨heq, hall⟩
  · rintro ⟨rfl, hall⟩
    exact List.filter_eq_self.mpr hall

namespace Value

variable {options : CodecOptions} {flags : WriteFlags} {inArray : Bool}

/-! ### How attribute values are read -/

theorem ofAttribute_number (digits : String) : ofAttribute (.number digits) = ofDigits digits := rfl

theorem ofAttribute_textSet (members : List String) :
    ofAttribute (.textSet members) = .set (members.map .text) := rfl

theorem ofAttribute_numberSet (members : List String) :
    ofAttribute (.numberSet members) = .set (members.map ofDigits) := rfl

theorem ofAttribute_binarySet (members : List Bytes) :
    ofAttribute (.binarySet members) = .set (members.map .binary) := rfl

theorem ofItems_eq_map (items : List AttributeValue) : ofItems items = items.map ofAttribute := by
  induction items with
  | nil => rfl
  | cons item rest ih => rw [ofItems, ih, List.map_cons]

theorem ofFields_eq_map (fields : List (String × AttributeValue)) :
    ofFields fields = fields.map fun field => (field.1, ofAttribute field.2) := by
  induction fields with
  | nil => rfl
  | cons field rest ih => rw [ofFields, ih, List.map_cons]

theorem ofAttribute_list (items : List AttributeValue) :
    ofAttribute (.list items) = .list (items.map ofAttribute) :=
  congrArg Value.list (ofItems_eq_map items)

theorem ofAttribute_map (fields : List (String × AttributeValue)) :
    ofAttribute (.map fields) = .map (fields.map fun field => (field.1, ofAttribute field.2)) :=
  congrArg Value.map (ofFields_eq_map fields)

/-! ### Parts that come back -/

theorem piece_ofDigits (digits : String) :
    (ofDigits digits).piece options flags inArray = .ok (.number (reprinted digits)) := by
  unfold ofDigits reprinted
  cases readInt64? (Unicode.trim digits) <;> rfl

/-- The pieces of items that are written one by one. -/
theorem itemPieces_map {α : Type} {item : α → Value} {stored : α → AttributeValue} {xs : List α}
    (h : ∀ x ∈ xs, (item x).piece options .none true = .ok (stored x)) :
    itemPieces options 0 (xs.map item) = .ok (xs.map stored) := by
  rw [itemPieces_eq_ok, List.forall₂_map_left_iff, List.forall₂_map_right_iff, List.forall₂_same]
  exact h

theorem piece_textSet_iff {members : List String} :
    (ofAttribute (.textSet members)).piece options flags false = .ok (.textSet members) ↔
      members ≠ [] ∧ (∀ member ∈ members, member ≠ "") ∧ members.Pairwise TextBefore := by
  rw [ofAttribute_textSet, piece_set, itemPieces_map fun _ _ => rfl]
  have hclose : closeArray true false (members.map fun s => if s = "" then .null true else .text s) =
        .ok (.textSet members) ↔
      members ≠ [] ∧ (∀ s ∈ members, s ≠ "") ∧ members.Pairwise fun a b => compareText a b = .lt :=
    closeArray_filled_eq_set_iff (fun _ => rfl) nofun Writer.setFrom_texts AttributeValue.textSet.inj
      (sortBy_ascending compareText (nodup_dedupEq _))
  simp only [← textBefore_iff] at hclose
  exact hclose

theorem piece_binarySet_iff {members : List Bytes} :
    (ofAttribute (.binarySet members)).piece options flags false = .ok (.binarySet members) ↔
      members ≠ [] ∧ (∀ member ∈ members, member ≠ []) ∧ members.Pairwise BytesBefore := by
  rw [ofAttribute_binarySet, piece_set, itemPieces_map fun _ _ => rfl]
  exact closeArray_filled_eq_set_iff (fun _ => rfl) nofun Writer.setFrom_binaries
    AttributeValue.binarySet.inj (sortBy_ascending compareBytes (nodup_dedupEq _))

theorem piece_numberSet_iff {members : List String} (hnumbers : ∀ member ∈ members, IsNumber member) :
    (ofAttribute (.numberSet members)).piece options flags false = .ok (.numberSet members) ↔
      members ≠ [] ∧ (∀ member ∈ members, IsPlain member) ∧ members.Pairwise NumberBefore := by
  have hbefore : (members.Pairwise fun a b => compareNumberText a b = .lt) ↔
      members.Pairwise NumberBefore :=
    ⟨fun h => h.imp_of_mem fun {a b} ha hb =>
        numberBefore_of_compareNumberText (hnumbers a ha) (hnumbers b hb),
      fun h => h.imp compareNumberText_of_numberBefore⟩
  have hclose : closeArray true false (members.map .number) = .ok (.numberSet members) ↔
      members ≠ [] ∧ members.Pairwise NumberBefore := by
    rw [← hbefore]
    exact closeArray_eq_set_iff (fun _ => rfl) nofun setFrom_numbers AttributeValue.numberSet.inj
      (sortBy_compareNumberText_ascending (fun x hx => hnumbers x (mem_dedupEq.mp hx)) (nodup_dedupEq _))
  rw [ofAttribute_numberSet, piece_set, itemPieces_map fun digits _ => piece_ofDigits digits]
  have hprinted : members.map (fun digits => AttributeValue.number (reprinted digits)) =
      (members.map reprinted).map .number := (List.map_map ..).symm
  rw [hprinted]
  change closeArray true false _ = _ ↔ _
  have hsame : (∀ member ∈ members, IsPlain member) → members.map reprinted = members := fun hplain =>
    (List.map_congr_left fun digits hdigits => isPlain_iff.mp (hplain digits hdigits)).trans
      (List.map_id' members)
  constructor
  · intro h
    have hne : members ≠ [] := by
      rintro rfl
      cases h
    have hvoid : ∀ e ∈ (members.map reprinted).map AttributeValue.number, e.isVoid = false :=
      List.forall_mem_map.mpr fun _ _ => rfl
    have hset := h
    rw [Writer.closeArray_of_not_isVoid hvoid, setFrom_numbers (mt List.map_eq_nil_iff.mp hne)] at hset
    -- The members of the set are among the printed texts, so they are plain themselves.
    have hplain : ∀ member ∈ members, IsPlain member := by
      intro member hmember
      rw [← AttributeValue.numberSet.inj (Except.ok.inj hset), mem_sortBy_dedupEq] at hmember
      obtain ⟨digits, -, rfl⟩ := List.mem_map.mp hmember
      exact isPlain_reprinted digits
    rw [hsame hplain] at h
    exact ⟨hne, hplain, (hclose.mp h).2⟩
  · rintro ⟨hne, hplain, hascending⟩
    rw [hsame hplain]
    exact hclose.mpr ⟨hne, hascending⟩

/-- A list comes back if its items do and none of them is null or empty. -/
theorem piece_list_iff {items : List AttributeValue} :
    (ofAttribute (.list items)).piece options flags inArray = .ok (.list items) ↔
      ∀ item ∈ items, (ofAttribute item).piece options .none true = .ok item ∧ item.isVoid = false := by
  rw [ofAttribute_list, piece_list, except_bind_eq_ok]
  simp only [itemPieces_eq_ok, List.forall₂_map_left_iff]
  constructor
  · rintro ⟨pieces, hpieces, hclose⟩
    rw [Writer.closeArray_eq] at hclose
    have hkept : dropVoid pieces = items := AttributeValue.list.inj (Except.ok.inj hclose)
    obtain ⟨rfl, hvoid⟩ := (filter_eq_iff_of_length hpieces.length_eq.symm).mp hkept
    rw [List.forall₂_same] at hpieces
    exact fun item hitem => ⟨hpieces item hitem, Bool.not_eq_true' _ ▸ hvoid item hitem⟩
  · intro h
    refine ⟨items, List.forall₂_same.mpr fun item hitem => (h item hitem).1, ?_⟩
    rw [Writer.closeArray_eq]
    refine congrArg (fun kept => Except.ok (AttributeValue.list kept)) ?_
    exact List.filter_eq_self.mpr fun item hitem => by rw [(h item hitem).2]; rfl

/-- A map comes back if its keys ascend, its fields come back, and all of them are kept. -/
theorem piece_map_iff {fields : List (String × AttributeValue)} :
    (ofAttribute (.map fields)).piece options flags inArray = .ok (.map fields) ↔
      Fields.Ascending fields ∧ ∀ field ∈ fields,
        (ofAttribute field.2).piece options .none false = .ok field.2 ∧ flags.keeps field.2 = true := by
  rw [ofAttribute_map, piece_map, except_map_eq_ok]
  simp only [fieldPieces_eq_ok, AttributeValue.map.injEq]
  constructor
  · rintro ⟨pieces, hpieces, hfields⟩
    have hascending : Fields.Ascending fields :=
      hfields ▸ (Fields.ascending_ofList pieces).filter _
    have hkeys : pieces.map (·.1) = fields.map (·.1) := by
      rw [keys_of_stored hpieces, List.map_map]
      rfl
    rw [Fields.ofList_eq_self (hascending.of_keys hkeys)] at hfields
    have hlength : pieces.length = fields.length := by
      rw [← List.length_map (·.1), hkeys, List.length_map]
    obtain ⟨rfl, hkept⟩ := (filter_eq_iff_of_length hlength).mp hfields
    rw [List.forall₂_map_left_iff, List.forall₂_same] at hpieces
    exact ⟨hascending, fun field hfield => ⟨(hpieces field hfield).2, hkept field hfield⟩⟩
  · rintro ⟨hascending, h⟩
    refine ⟨fields, ?_, ?_⟩
    · rw [List.forall₂_map_left_iff, List.forall₂_same]
      exact fun field hfield => ⟨rfl, (h field hfield).1⟩
    · rw [Fields.ofList_eq_self hascending]
      exact List.filter_eq_self.mpr fun field hfield => (h field hfield).2

/-- Directly in an array, no set comes back. -/
theorem isSet_of_piece {members : List Value} {value : AttributeValue}
    (h : (set members).piece options flags true = .ok value) : value.isSet = false := by
  rw [piece_set, except_bind_eq_ok] at h
  obtain ⟨pieces, -, hclose⟩ := h
  rw [closeArray_of_inArray] at hclose
  cases hclose
  rfl

/-- A part in standard form comes back, unless it is a set directly in an array. -/
theorem piece_of_standard {v : AttributeValue} (h : v.Standard) (flags : WriteFlags) {inArray : Bool}
    (hplace : inArray = true → v.isSet = false) :
    (ofAttribute v).piece options flags inArray = .ok v := by
  induction h generalizing flags inArray with
  | null | bool => rfl
  | number plain => rw [ofAttribute_number, piece_ofDigits, isPlain_iff.mp plain]
  | text nonempty => exact congrArg Except.ok (if_neg nonempty)
  | binary nonempty => exact congrArg Except.ok (if_neg nonempty)
  | textSet nonempty filled ascending =>
    obtain rfl : inArray = false := by simpa [AttributeValue.isSet] using hplace
    exact piece_textSet_iff.mpr ⟨nonempty, filled, ascending⟩
  | numberSet nonempty numbers plain ascending =>
    obtain rfl : inArray = false := by simpa [AttributeValue.isSet] using hplace
    exact (piece_numberSet_iff numbers).mpr ⟨nonempty, plain, ascending⟩
  | binarySet nonempty filled ascending =>
    obtain rfl : inArray = false := by simpa [AttributeValue.isSet] using hplace
    exact piece_binarySet_iff.mpr ⟨nonempty, filled, ascending⟩
  | list standard kept flat ih =>
    exact piece_list_iff.mpr fun item hitem =>
      ⟨ih item hitem .none fun _ => flat item hitem, kept item hitem⟩
  | map keys standard kept ih =>
    exact piece_map_iff.mpr ⟨keys, fun field hfield =>
      ⟨ih field hfield .none nofun, flags.keeps_of_not_isVoid (kept field hfield)⟩⟩

/-- A part comes back only if it is in standard form, and is no set directly in an array. -/
theorem standard_of_piece (v : AttributeValue) (hnumbers : v.NumbersDenote) (inArray : Bool)
    (h : (ofAttribute v).piece options .none inArray = .ok v) :
    v.Standard ∧ (inArray = true → v.isSet = false) := by
  cases v with
  | null flag =>
    cases h
    exact ⟨.null, fun _ => rfl⟩
  | bool value => exact ⟨.bool value, fun _ => rfl⟩
  | number digits =>
    rw [ofAttribute_number, piece_ofDigits] at h
    exact ⟨.number (isPlain_iff.mpr (AttributeValue.number.inj (Except.ok.inj h))), fun _ => rfl⟩
  | text value =>
    refine ⟨.text fun hempty => ?_, fun _ => rfl⟩
    subst hempty
    cases h
  | binary bytes =>
    refine ⟨.binary fun hempty => ?_, fun _ => rfl⟩
    subst hempty
    cases h
  | textSet members =>
    cases inArray with
    | true => cases isSet_of_piece h
    | false =>
      obtain ⟨nonempty, filled, ascending⟩ := piece_textSet_iff.mp h
      exact ⟨.textSet nonempty filled ascending, nofun⟩
  | numberSet members =>
    cases inArray with
    | true => cases isSet_of_piece h
    | false =>
      obtain ⟨nonempty, plain, ascending⟩ := (piece_numberSet_iff (hnumbers [] members rfl)).mp h
      exact ⟨.numberSet nonempty (hnumbers [] members rfl) plain ascending, nofun⟩
  | binarySet members =>
    cases inArray with
    | true => cases isSet_of_piece h
    | false =>
      obtain ⟨nonempty, filled, ascending⟩ := piece_binarySet_iff.mp h
      exact ⟨.binarySet nonempty filled ascending, nofun⟩
  | list items =>
    have hitems := piece_list_iff.mp h
    have hstandard : ∀ item ∈ items, item.Standard ∧ item.isSet = false := by
      intro item hitem
      obtain ⟨hitem', hflat⟩ := standard_of_piece item (hnumbers.item hitem) true (hitems item hitem).1
      exact ⟨hitem', hflat rfl⟩
    exact ⟨.list (fun item hitem => (hstandard item hitem).1) (fun item hitem => (hitems item hitem).2)
      fun item hitem => (hstandard item hitem).2, fun _ => rfl⟩
  | map fields =>
    obtain ⟨hkeys, hfields⟩ := piece_map_iff.mp h
    have hstandard : ∀ field ∈ fields, field.2.Standard := by
      intro field hfield
      exact (standard_of_piece field.2 (hnumbers.field hkeys hfield) false (hfields field hfield).1).1
    refine ⟨.map hkeys hstandard fun field hfield => ?_, fun _ => rfl⟩
    have hkept := (hfields field hfield).2
    rwa [WriteFlags.keeps_none, Bool.not_eq_true'] at hkept
termination_by sizeOf v
decreasing_by
  · have hsize := List.sizeOf_lt_of_mem hitem
    rw [‹v = _›, AttributeValue.list.sizeOf_spec]
    omega
  · have hsize := List.sizeOf_lt_of_mem hfield
    obtain ⟨key, value⟩ := field
    rw [Prod.mk.sizeOf_spec] at hsize
    rw [‹v = _›, AttributeValue.map.sizeOf_spec]
    dsimp only
    omega

/-! ### Whole values -/

/-- The flags matter to maps only. -/
theorem piece_flags {v : AttributeValue} (h : v.asMap? = none) :
    (ofAttribute v).piece options flags inArray = (ofAttribute v).piece options .none inArray := by
  cases v with
  | number digits => rw [ofAttribute_number, piece_ofDigits, piece_ofDigits]
  | map => cases h
  | _ => rfl

/-- With both flags, a value comes back where it is the whole piece of what it is read as. -/
theorem encode_ofAttribute_iff {v : AttributeValue} :
    (ofAttribute v).encode options .all = .ok (some v) ↔
      (ofAttribute v).piece options .all false = .ok v := by
  rw [encode_eq_piece, except_map_eq_ok]
  simp only [WriteFlags.keeps_all, if_true, Option.some_inj]
  exact ⟨fun ⟨_, hpiece, heq⟩ => heq ▸ hpiece, fun hpiece => ⟨v, hpiece, rfl⟩⟩

/-- **A value in standard form comes back as it was, and no other one does.** An attribute value in standard
form is read without a type and written with both flags, and this succeeds with the same value, whatever
the options. A value that comes back is in standard form, if all texts in its sets of numbers denote
numbers. -/
theorem encode_ofAttribute (options : CodecOptions) (v : AttributeValue) :
    (v.StandardRoot → (ofAttribute v).encode options .all = .ok (some v)) ∧
      (v.NumbersDenote → (ofAttribute v).encode options .all = .ok (some v) → v.StandardRoot) := by
  rw [encode_ofAttribute_iff]
  constructor
  · rintro (standard | ⟨keys, standard⟩)
    · exact piece_of_standard standard .all nofun
    · exact piece_map_iff.mpr ⟨keys, fun field hfield =>
        ⟨piece_of_standard (standard field hfield) .none nofun, WriteFlags.keeps_all field.2⟩⟩
  · intro hnumbers h
    cases hmap : v.asMap? with
    | none => exact .part (standard_of_piece v hnumbers false (piece_flags hmap ▸ h)).1
    | some fields =>
      cases AttributeValue.eq_map_of_asMap? hmap
      obtain ⟨hkeys, hfields⟩ := piece_map_iff.mp h
      exact .map hkeys fun field hfield =>
        (standard_of_piece field.2 (hnumbers.field hkeys hfield) false (hfields field hfield).1).1

/-- The prices of an article, of which one is no integer. -/
def samplePrices : List String := ["-3", "0.50", "12"]

/-- The sizes of an article: a list and a map in a list. -/
def sampleSizes : AttributeValue :=
  .list [.list [.number "2e3", .bool true], .map [("unit", .text "cm")]]

/-- An article without a cover and variants, with a set of each kind. -/
def sampleArticle : AttributeValue :=
  .map [("cover", .null true), ("prices", .numberSet samplePrices), ("sizes", sampleSizes),
    ("tags", .textSet ["new", "old"]), ("thumbs", .binarySet [[1], [1, 2]]), ("variants", .list [])]

theorem standard_samplePrices : (AttributeValue.numberSet samplePrices).Standard := by
  have hnumbers : ∀ digits ∈ samplePrices, numberValue digits ≠ .nan := by decide +kernel
  have hplain : ∀ digits ∈ samplePrices, reprinted digits = digits := by decide +kernel
  have hascending : samplePrices.Pairwise fun a b => compareNumberText a b = .lt := by decide +kernel
  exact .numberSet (by decide) hnumbers (fun digits hdigits => isPlain_iff.mpr (hplain digits hdigits))
    (hascending.imp_of_mem fun {a b} ha hb =>
      numberBefore_of_compareNumberText (hnumbers a ha) (hnumbers b hb))

theorem standard_sampleSizes : sampleSizes.Standard := by
  have hnumber : IsPlain "2e3" := isPlain_iff.mpr (by decide +kernel)
  have hinner : (AttributeValue.list [.number "2e3", .bool true]).Standard :=
    .list (List.forall_mem_cons.mpr ⟨.number hnumber, List.forall_mem_singleton.mpr (.bool true)⟩)
      (by decide) (by decide)
  have hunit : (AttributeValue.map [("unit", .text "cm")]).Standard :=
    .map (List.pairwise_singleton _ _) (List.forall_mem_singleton.mpr (.text (by decide))) (by decide)
  exact .list (List.forall_mem_cons.mpr ⟨hinner, List.forall_mem_singleton.mpr hunit⟩)
    (by decide) (by decide)

theorem standard_sampleArticle : sampleArticle.StandardRoot := by
  have htags : (AttributeValue.textSet ["new", "old"]).Standard :=
    .textSet (by decide) (by decide) (List.pairwise_pair.mpr (textBefore_iff.mpr (by decide)))
  have hthumbs : (AttributeValue.binarySet [[1], [1, 2]]).Standard :=
    .binarySet (by decide) (by decide) (List.pairwise_pair.mpr (by unfold BytesBefore; decide))
  unfold sampleArticle
  refine .map (by unfold Fields.Ascending; decide) ?_
  simp only [List.forall_mem_cons]
  exact ⟨.null, standard_samplePrices, standard_sampleSizes, htags, hthumbs, .list nofun nofun nofun, nofun⟩

/-- An article comes back with what it has not. -/
theorem encode_ofAttribute_sampleArticle :
    sampleArticle.StandardRoot ∧
      (ofAttribute sampleArticle).encode CodecOptions.initial .all = .ok (some sampleArticle) :=
  ⟨standard_sampleArticle, (encode_ofAttribute _ _).1 standard_sampleArticle⟩

end Value

end ItemMapper
