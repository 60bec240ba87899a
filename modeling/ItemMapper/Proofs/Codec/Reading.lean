import Mathlib.Data.List.Forall2
import ItemMapper.Proofs.Codec.Families
import ItemMapper.Proofs.Computation

/-!
# Reading part by part

Reading a container succeeds exactly when reading each of its parts does, wherever in the value the
parts stand. A member of a document without hooks is read from what is stored under its name; where
nothing is, it keeps what it holds at first unless it is part of the key.

## Main statements

* `Codec.decodeItems_eq_ok`, `Codec.decodeEntries_eq_ok`, `Codec.decodeMembers_eq_ok`: reading the
  parts.
* `Codec.decodeMember_eq_ok`: reading one member.
-/

namespace ItemMapper

theorem inside_eq_ok {α : Type} {segment : PathSegment} {result : Except Error α} {x : α} :
    inside segment result = .ok x ↔ result = .ok x := by
  unfold inside
  cases result with
  | ok y => simp [Except.mapError]
  | error e => simp [Except.mapError]

namespace Codec

variable {c : Codec} {inner : Ty}

theorem decodeItems_eq_ok {position : Nat} {items : List AttributeValue} {values : List Datum} :
    c.decodeItems inner position items = .ok values ↔
      List.Forall₂ (fun item value => c.decode inner item = .ok value) items values := by
  induction items generalizing position values with
  | nil => simp [decodeItems, eq_comm]
  | cons item rest ih =>
    rw [decodeItems, List.forall₂_cons_left_iff]
    simp only [except_bind_eq_ok, inside_eq_ok, ih, pure, Except.pure, Except.ok.injEq]
    constructor
    · rintro ⟨value, hvalue, values, hvalues, rfl⟩
      exact ⟨value, values, hvalue, hvalues, rfl⟩
    · rintro ⟨value, values, hvalue, hvalues, rfl⟩
      exact ⟨value, hvalue, values, hvalues, rfl⟩

theorem decodeEntries_eq_ok {fields : List (String × AttributeValue)}
    {values : List (String × Datum)} :
    c.decodeEntries inner fields = .ok values ↔
      List.Forall₂ (fun field value => value.1 = field.1 ∧ c.decode inner field.2 = .ok value.2)
        fields values := by
  induction fields generalizing values with
  | nil => simp [decodeEntries, eq_comm]
  | cons field rest ih =>
    obtain ⟨key, field⟩ := field
    rw [decodeEntries, List.forall₂_cons_left_iff]
    simp only [except_bind_eq_ok, inside_eq_ok, ih, pure, Except.pure, Except.ok.injEq]
    constructor
    · rintro ⟨value, hvalue, values, hvalues, rfl⟩
      exact ⟨(key, value), values, ⟨rfl, hvalue⟩, hvalues, rfl⟩
    · rintro ⟨⟨key', value⟩, values, ⟨hkey, hvalue⟩, hvalues, rfl⟩
      cases hkey
      exact ⟨value, hvalue, values, hvalues, rfl⟩

theorem decodeMembers_eq_ok {stored : Item} {fields : List Field} {values : List Datum} :
    c.decodeMembers stored fields = .ok values ↔
      List.Forall₂ (fun f value => c.decodeMember stored f = .ok value) fields values := by
  induction fields generalizing values with
  | nil => simp [decodeMembers, eq_comm]
  | cons f rest ih =>
    rw [decodeMembers, List.forall₂_cons_left_iff]
    simp only [except_bind_eq_ok, ih, pure, Except.pure, Except.ok.injEq]
    constructor
    · rintro ⟨value, hvalue, values, hvalues, rfl⟩
      exact ⟨value, values, hvalue, hvalues, rfl⟩
    · rintro ⟨value, values, hvalue, hvalues, rfl⟩
      exact ⟨value, hvalue, values, hvalues, rfl⟩

/-- A member without hooks is read from what is stored under its name, or is not part of the key and
keeps what it holds at first. -/
theorem decodeMember_eq_ok {stored : Item} {f : Field} (hhooks : f.onRead = []) {value : Datum} :
    c.decodeMember stored f = .ok value ↔
      (∃ written, stored.get? (c.storedName f) = some written ∧
        c.decode f.type written = .ok value) ∨
      (stored.get? (c.storedName f) = none ∧ isKey f = false ∧ value = f.initial) := by
  rw [decodeMember]
  split
  · rename_i hnone
    rw [hnone]
    cases isKey f with
    | true => simp
    | false => simp [eq_comm]
  · rename_i written hwritten
    rw [hwritten, inside_eq_ok, hhooks]
    simp [runReadHooks]

/-! ### Containers -/

variable {value : Datum}

theorem decode_option_eq_ok {stored : AttributeValue} (h : stored.isAnyNull = false) :
    c.decode (.option inner) stored = .ok value ↔
      ∃ read, c.decode inner stored = .ok read ∧ value = .present read := by
  rw [decode, h, if_neg Bool.false_ne_true, except_map_eq_ok]
  simp only [eq_comm]

theorem decode_boxed_eq_ok {stored : AttributeValue} :
    c.decode (.boxed inner) stored = .ok value ↔
      ∃ read, c.decode inner stored = .ok read ∧ value = .boxed read := by
  rw [decode, except_map_eq_ok]
  simp only [eq_comm]

theorem isAnyNull_of_elements? {stored : AttributeValue} {items : List AttributeValue}
    (h : stored.elements? = some items) : stored.isAnyNull = false := by
  cases stored <;> first | rfl | cases h

theorem decode_list_eq_ok {stored : AttributeValue} {items : List AttributeValue}
    (h : stored.elements? = some items) :
    c.decode (.list inner) stored = .ok value ↔
      ∃ values, List.Forall₂ (fun item read => c.decode inner item = .ok read) items values ∧
        value = .list values := by
  rw [decode, isAnyNull_of_elements? h, if_neg Bool.false_ne_true]
  split
  · rename_i items' h'
    rw [h] at h'
    cases h'
    simp only [except_map_eq_ok, decodeItems_eq_ok, eq_comm (a := value)]
  · rename_i h'
    rw [h] at h'
    cases h'

theorem decode_set_eq_ok {hashed : Bool} {stored : AttributeValue} {items : List AttributeValue}
    (h : stored.elements? = some items) :
    c.decode (.set hashed inner) stored = .ok value ↔
      ∃ values, List.Forall₂ (fun item read => c.decode inner item = .ok read) items values ∧
        value = .ofMembers hashed values := by
  rw [decode, isAnyNull_of_elements? h, if_neg Bool.false_ne_true]
  split
  · rename_i items' h'
    rw [h] at h'
    cases h'
    simp only [except_map_eq_ok, decodeItems_eq_ok, eq_comm (a := value)]
  · rename_i h'
    rw [h] at h'
    cases h'

theorem decode_map_eq_ok {hashed : Bool} {fields : Item} :
    c.decode (.map hashed inner) (.map fields) = .ok value ↔
      ∃ values, List.Forall₂ (fun field read => read.1 = field.1 ∧
          c.decode inner field.2 = .ok read.2) fields values ∧ value = .map values := by
  rw [decode]
  change (c.decodeEntries inner fields).map Datum.map = _ ↔ _
  simp only [except_map_eq_ok, decodeEntries_eq_ok, eq_comm (a := value)]

theorem decode_document_eq_ok {id : DocumentId} {stored : Item} :
    c.decode (.document id) (.map stored) = .ok value ↔
      (c.documents id).check = .ok () ∧
        ∃ values, List.Forall₂ (fun f read => c.decodeMember stored f = .ok read)
            (c.documents id).fields values ∧ value = .document values := by
  rw [decode]
  change ((c.documents id).check >>= fun _ =>
    (c.decodeMembers stored (c.documents id).fields).map Datum.document) = _ ↔ _
  simp only [except_bind_eq_ok, except_map_eq_ok, decodeMembers_eq_ok, eq_comm (a := value)]
  constructor
  · rintro ⟨u, hcheck, h⟩
    exact ⟨hcheck, h⟩
  · rintro ⟨hcheck, h⟩
    exact ⟨(), hcheck, h⟩

theorem readDiscriminator_eq_ok {stored : Item} {text : String} :
    c.readDiscriminator stored = .ok text ↔
      stored.get? c.options.typeDiscriminator = some (.text text) := by
  unfold readDiscriminator
  cases hget : stored.get? c.options.typeDiscriminator with
  | none => simp [hget]
  | some found => cases found <;> simp [hget]

theorem decode_oneOf_eq_ok {name : String} {variants : List (String × DocumentId)} {stored : Item} :
    c.decode (.oneOf name variants) (.map stored) = .ok value ↔
      ∃ text variant id, stored.get? c.options.typeDiscriminator = some (.text text) ∧
        c.variantOf? variants text = some (variant, id) ∧ (c.documents id).check = .ok () ∧
        ∃ values, List.Forall₂ (fun f read => c.decodeMember stored f = .ok read)
            (c.documents id).fields values ∧ value = .variant variant values := by
  rw [decode]
  dsimp only [AttributeValue.asMap?]
  simp only [except_bind_eq_ok, readDiscriminator_eq_ok]
  constructor
  · rintro ⟨text, htext, h⟩
    split at h
    · rename_i variant id hvariant
      simp only [except_bind_eq_ok, except_map_eq_ok, decodeMembers_eq_ok] at h
      obtain ⟨u, hcheck, values, hvalues, rfl⟩ := h
      exact ⟨text, variant, id, htext, hvariant, hcheck, values, hvalues, rfl⟩
    · cases h
  · rintro ⟨text, variant, id, htext, hvariant, hcheck, values, hvalues, rfl⟩
    refine ⟨text, htext, ?_⟩
    rw [hvariant]
    simp only [except_bind_eq_ok, except_map_eq_ok, decodeMembers_eq_ok]
    exact ⟨(), hcheck, values, hvalues, rfl⟩

end Codec

end ItemMapper
