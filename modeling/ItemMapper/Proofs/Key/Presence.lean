import ItemMapper.Proofs.Codec.Defaults
import ItemMapper.Proofs.Codec.Reading
import ItemMapper.Proofs.Key.Items

/-!
# Items without their keys

No setting leaves a member of the key out of its document. What is written for it may be null or an empty
container all the same, as a text or a byte string is that is empty, or what a hook returns; and these
are dropped when the document is closed, unless the options or a pin keep them. Such an item holds no
attribute for the member, and cannot be read again.

## Main definitions

* `Codec.Stays`: whether what is written under a name stays when the document is closed.
* `Codec.MissesFirst`: reading members fails at a member of the key for which nothing is stored.
* `Writer.WritesOne`: a call that writes one value, the same everywhere.

## Main statements

* `Codec.toItem_members_of_key`: what the item of a document holds for the members of its key, and when
  reading it fails for want of one.
* `PrimaryKey.exists_ofDocument_iff`: with the converters that are always there and without hooks, the
  item holds the key just where the document has one.
-/

namespace ItemMapper

/-! ### Reading -/

theorem inside_ne_error_root {α : Type} {segment : PathSegment} {result : Except Error α}
    {cause : Cause} : inside segment result ≠ .error ⟨[], cause⟩ := by
  unfold inside
  cases result with
  | ok x =>
    intro h
    cases h
  | error e =>
    intro h
    cases congrArg Error.path (Except.error.inj h)

namespace Codec

variable {c : Codec} {id : DocumentId} {members : List Datum} {item : Item}

/-- Reading a member fails for want of an attribute just where the member is part of the key and nothing
is stored for it. -/
theorem decodeMember_eq_missing {stored : Item} {f : Field} {name : String} :
    c.decodeMember stored f = .error ⟨[], .missingRequiredAttribute name⟩ ↔
      isKey f = true ∧ stored.get? (c.storedName f) = none ∧ c.storedName f = name := by
  rw [decodeMember]
  split
  · rename_i hnone
    rw [hnone]
    cases isKey f with
    | true => simp
    | false => simp
  · rename_i value hsome
    rw [hsome]
    simp [inside_ne_error_root]

/-- Reading members fails at a member of the key for which nothing is stored, and at none before it. -/
inductive MissesFirst (c : Codec) (stored : Item) (name : String) : List Field → Prop
  | here {f : Field} {rest : List Field} (key : isKey f = true)
      (missing : stored.get? (c.storedName f) = none) (named : c.storedName f = name) :
      MissesFirst c stored name (f :: rest)
  | later {f : Field} {rest : List Field} {value : Datum}
      (read : c.decodeMember stored f = .ok value) (misses : MissesFirst c stored name rest) :
      MissesFirst c stored name (f :: rest)

theorem MissesFirst.exists_key {stored : Item} {name : String} {fields : List Field}
    (h : c.MissesFirst stored name fields) :
    ∃ f ∈ fields, isKey f = true ∧ stored.get? (c.storedName f) = none := by
  induction h with
  | here key missing _ => exact ⟨_, List.mem_cons_self, key, missing⟩
  | later _ _ ih =>
    obtain ⟨f, hf, hmissing⟩ := ih
    exact ⟨f, List.mem_cons_of_mem _ hf, hmissing⟩

theorem decodeMembers_eq_missing {stored : Item} {fields : List Field} {name : String} :
    c.decodeMembers stored fields = .error ⟨[], .missingRequiredAttribute name⟩ ↔
      c.MissesFirst stored name fields := by
  induction fields with
  | nil =>
    rw [decodeMembers]
    exact iff_of_false (fun h => by cases h) fun h => by cases h
  | cons f rest ih =>
    rw [decodeMembers]
    cases hmember : c.decodeMember stored f with
    | error e =>
      constructor
      · intro h
        cases h
        obtain ⟨hkey, hmissing, hname⟩ := decodeMember_eq_missing.mp hmember
        exact .here hkey hmissing hname
      · intro h
        cases h with
        | here hkey hmissing hname =>
          cases hmember.symm.trans (decodeMember_eq_missing.mpr ⟨hkey, hmissing, hname⟩)
          rfl
        | later hread _ => cases hmember.symm.trans hread
    | ok value =>
      have hrest : (c.decodeMembers stored rest >>= fun values => pure (value :: values)) =
          .error ⟨[], .missingRequiredAttribute name⟩ ↔
            c.decodeMembers stored rest = .error ⟨[], .missingRequiredAttribute name⟩ := by
        cases c.decodeMembers stored rest with
        | error e => exact Iff.rfl
        | ok values => exact iff_of_false (fun h => by cases h) fun h => by cases h
      refine hrest.trans (ih.trans ⟨.later hmember, fun h => ?_⟩)
      cases h with
      | here hkey hmissing hname =>
        cases hmember.symm.trans (decodeMember_eq_missing.mpr ⟨hkey, hmissing, hname⟩)
      | later _ hmisses => exact hmisses

/-- Reading a document fails for want of an attribute of its key just where reading its members does. -/
theorem fromItem_eq_missing (hcheck : (c.documents id).check = .ok ()) {name : String} :
    c.fromItem (.document id) item = .error ⟨[], .missingRequiredAttribute name⟩ ↔
      c.MissesFirst item name (c.documents id).fields := by
  rw [fromItem, decode, ← decodeMembers_eq_missing]
  change ((c.documents id).check >>= fun _ =>
    (c.decodeMembers item (c.documents id).fields).map Datum.document) = _ ↔ _
  rw [hcheck]
  cases c.decodeMembers item (c.documents id).fields with
  | error e => simp only [bind, Except.bind, Except.map, Except.error.injEq]
  | ok values => exact iff_of_false (fun h => by cases h) fun h => by cases h

/-- Where nothing is stored for a member of the key, nothing can be read. -/
theorem fromItem_ne_ok {f : Field} (hf : f ∈ (c.documents id).fields) (hkey : isKey f = true)
    (hmissing : item.get? (c.storedName f) = none) (value : Datum) :
    c.fromItem (.document id) item ≠ .ok value := by
  intro hread
  obtain ⟨-, values, hvalues, -⟩ := decode_document_eq_ok.mp hread
  have hread : ∀ f ∈ (c.documents id).fields, ∃ read, c.decodeMember item f = .ok read :=
    ((List.forall₂_and_left _ _).mp (hvalues.imp fun f read h => ⟨⟨read, h⟩, h⟩)).1
  obtain ⟨read, hmember⟩ := hread f hf
  cases hmember.symm.trans (decodeMember_eq_missing.mpr ⟨hkey, hmissing, rfl⟩)

/-! ### What the item holds -/

/-- What is written under a name stays when the document is closed: a member that is written under the
name is pinned, or the options keep the value. -/
def Stays (c : Codec) (name : String) (fields : List Field) (members : List Datum)
    (value : AttributeValue) : Prop :=
  c.PinsName name fields members ∨ c.writeFlags.keeps value = true

/-- The item of a document holds what is written last under a name, if this stays. -/
theorem get?_toItem_of_written (hplaces : c.ConvertersPlace)
    (hitem : c.toItem (.document id) (.document members) = .ok item) {name : String}
    (hname : ¬ c.WritesNothingUnder name (c.documents id).fields members) :
    ∃ value, c.WritesLast (Writer.new c.writeFlags) true name value (c.documents id).fields members ∧
      (c.Stays name (c.documents id).fields members value → item.get? name = some value) ∧
      (¬ c.Stays name (c.documents id).fields members value → item.get? name = none) := by
  obtain ⟨-, written, pinned, hmembers, hascending, rfl⟩ := exists_written_of_toItem hplaces hitem
  have hplace := places_writeMember hplaces (c.documents id).fields members
  obtain ⟨value, hget, hlast⟩ := exists_writesLast hplace .nil hmembers hname
  have hpins : name ∈ pinned ↔ c.PinsName name (c.documents id).fields members := by
    rw [mem_pinned_of_writeMembers hplace hmembers name, List.mem_nil_iff, false_or]
  have hstays : c.Stays name (c.documents id).fields members value ↔
      (pinned.contains name || c.writeFlags.keeps value) = true := by
    rw [Stays, ← hpins, Bool.or_eq_true, List.contains_iff_mem]
  have hfound : Fields.get? (Writer.compactMembers c.writeFlags pinned true written) name =
      if pinned.contains name || c.writeFlags.keeps value then some value else none := by
    rw [Writer.compactMembers, Fields.get?_filter hascending, hget]
    rfl
  refine ⟨value, hlast, ?_⟩
  rw [hfound, hstays]
  exact ⟨fun hkept => if_pos hkept, fun hdropped => if_neg hdropped⟩

/-- The item holds a text, a number or a byte string for a member of the key just where one is written
last under the member's name. -/
theorem get?_toItem_of_isKey (hplaces : c.ConvertersPlace)
    (hitem : c.toItem (.document id) (.document members) = .ok item) {member : Field × Datum}
    (hmember : member ∈ (c.documents id).fields.zip members) (hkey : isKey member.1 = true) :
    ∃ value, c.WritesLast (Writer.new c.writeFlags) true (c.storedName member.1) value
        (c.documents id).fields members ∧
      (c.Stays (c.storedName member.1) (c.documents id).fields members value →
        item.get? (c.storedName member.1) = some value) ∧
      (¬ c.Stays (c.storedName member.1) (c.documents id).fields members value →
        item.get? (c.storedName member.1) = none) ∧
      ∀ component : KeyValue, item.get? (c.storedName member.1) = some component.toAttribute ↔
        value = component.toAttribute := by
  obtain ⟨value, hlast, hstays, hdropped⟩ := get?_toItem_of_written hplaces hitem
    fun hnothing => hnothing member hmember (keepsMember_of_isKey hkey _) rfl
  refine ⟨value, hlast, hstays, hdropped, fun component => ⟨fun hget => ?_, ?_⟩⟩
  · by_cases hstay : c.Stays (c.storedName member.1) (c.documents id).fields members value
    · exact Option.some.inj ((hstays hstay).symm.trans hget)
    · cases hget.symm.trans (hdropped hstay)
  · rintro rfl
    exact hstays (.inr (WriteFlags.keeps_of_not_isVoid _ (PrimaryKey.isVoid_toAttribute component)))

/-- The item of a document holds for each member of its key what is written last under the member's
name, if this stays. So it holds a text, a number or a byte string there just where one is written, and
where null or an empty container is written that does not stay, the attribute is missing and the item
cannot be read. Reading fails for want of an attribute at the first such member, unless it fails before,
and never where each member of the key has an attribute. -/
theorem toItem_members_of_key (hplaces : c.ConvertersPlace)
    (hlength : members.length = (c.documents id).fields.length)
    (hitem : c.toItem (.document id) (.document members) = .ok item) :
    (∀ f ∈ (c.documents id).fields, isKey f = true → ∃ value,
      c.WritesLast (Writer.new c.writeFlags) true (c.storedName f) value (c.documents id).fields
          members ∧
        (c.Stays (c.storedName f) (c.documents id).fields members value →
          item.get? (c.storedName f) = some value) ∧
        (¬ c.Stays (c.storedName f) (c.documents id).fields members value →
          item.get? (c.storedName f) = none ∧
            ∀ document, c.fromItem (.document id) item ≠ .ok document) ∧
        ∀ component : KeyValue,
          item.get? (c.storedName f) = some component.toAttribute ↔ value = component.toAttribute) ∧
      (∀ name, c.fromItem (.document id) item = .error ⟨[], .missingRequiredAttribute name⟩ ↔
        c.MissesFirst item name (c.documents id).fields) ∧
      ((∀ f ∈ (c.documents id).fields, isKey f = true →
          (item.get? (c.storedName f)).isSome = true) →
        ∀ name, c.fromItem (.document id) item ≠ .error ⟨[], .missingRequiredAttribute name⟩) := by
  obtain ⟨hcheck, -⟩ := exists_written_of_toItem hplaces hitem
  refine ⟨fun f hf hkey => ?_, fun name => fromItem_eq_missing hcheck, fun hsome name hmissing => ?_⟩
  · obtain ⟨member, hmember⟩ := exists_mem_zip hlength.symm hf
    obtain ⟨value, hlast, hstays, hdropped, hcomponent⟩ :=
      get?_toItem_of_isKey hplaces hitem hmember hkey
    exact ⟨value, hlast, hstays,
      fun hgone => ⟨hdropped hgone, fromItem_ne_ok hf hkey (hdropped hgone)⟩, hcomponent⟩
  · obtain ⟨f, hf, hkey, hnone⟩ := ((fromItem_eq_missing hcheck).mp hmissing).exists_key
    have hfound := hsome f hf hkey
    rw [hnone] at hfound
    cases hfound

/-- An order of a customer. -/
def orderOf (customer : String) : List Datum :=
  [.text customer, .text "p", .int 0, .text "", .text "", .int 0, .absent]

theorem toItem_members_of_key_orders :
    PrimaryKey.sampleCodec.ConvertersPlace ∧
      (∀ customer, (orderOf customer).length = (PrimaryKey.sampleCodec.documents 25).fields.length) ∧
      PrimaryKey.sampleCodec.toItem (.document 25) (.document (orderOf "")) =
        .ok [("placed_at", .text "p")] ∧
      PrimaryKey.sampleCodec.fromItem (.document 25) [("placed_at", .text "p")] =
        .error ⟨[], .missingRequiredAttribute "customer"⟩ ∧
      PrimaryKey.sampleCodec.toItem (.document 25) (.document (orderOf "c")) =
        .ok [("customer", .text "c"), ("placed_at", .text "p")] ∧
      ∀ name, PrimaryKey.sampleCodec.fromItem (.document 25)
          [("customer", .text "c"), ("placed_at", .text "p")] ≠
        .error ⟨[], .missingRequiredAttribute name⟩ := by
  have hplaces : PrimaryKey.sampleCodec.ConvertersPlace := convertersPlace_of_builtins rfl
  have hlength : ∀ customer,
      (orderOf customer).length = (PrimaryKey.sampleCodec.documents 25).fields.length := fun _ => rfl
  have hnameless : PrimaryKey.sampleCodec.toItem (.document 25) (.document (orderOf "")) =
      .ok [("placed_at", .text "p")] := except_toOption_eq_some.mp (by decide)
  have hnamed : PrimaryKey.sampleCodec.toItem (.document 25) (.document (orderOf "c")) =
      .ok [("customer", .text "c"), ("placed_at", .text "p")] :=
    except_toOption_eq_some.mp (by decide)
  obtain ⟨-, hmissing, -⟩ := toItem_members_of_key hplaces (hlength "") hnameless
  obtain ⟨-, -, hpresent⟩ := toItem_members_of_key hplaces (hlength "c") hnamed
  exact ⟨hplaces, hlength, hnameless, (hmissing "customer").mpr
    (.here (by decide) (by decide) (by decide)), hnamed,
    hpresent (by decide)⟩

end Codec

/-! ### Items and keys -/

namespace Writer

/-- A call that writes one value, the same everywhere, or refuses to write at all. -/
inductive WritesOne : WriterM Unit → Prop
  | value (value : AttributeValue) : WritesOne (write value)
  | refusal (e : Error) : WritesOne fun w => .error e w

theorem WritesLeaf.one {call : WriterM Unit} (h : WritesLeaf call) : WritesOne call := by
  cases h with
  | leaf _ => exact .value _
  | refusal e => exact .refusal e

end Writer

namespace PrimaryKey

variable {c : Codec} {id : DocumentId} {members : List Datum} {item : Item}

/-- The converters that are always there write a value of a kind that keys can hold in one call. -/
theorem writesOne_write (hc : c.converters = Converter.builtins) {type : Ty}
    (hkind : (type.kind.scalarType? .name).isSome = true) (value : Datum) :
    Writer.WritesOne (c.write type value) := by
  induction type generalizing value with
  | scalar type =>
    rw [Codec.write]
    exact (Codec.writesLeaf_writeLeaf hc type value).one
  | enumeration type =>
    cases value with
    | enumeration number =>
      rw [Codec.write, EnumType.write_eq]
      exact .value _
    | _ => exact .refusal _
  | option inner ih =>
    cases value with
    | absent => exact .value _
    | present value =>
      rw [Codec.write]
      exact ih hkind value
    | _ => exact .refusal _
  | boxed inner ih =>
    cases value with
    | boxed value =>
      rw [Codec.write]
      exact ih hkind value
    | _ => exact .refusal _
  | _ => cases hkind

/-- A member without hooks of which a value of a key is written gives this value to the key. -/
theorem componentOf_of_writesMember {position : Nat} {w : Writer} {outermost : Bool}
    {component : KeyValue}
    (hone : Writer.WritesOne (c.write (fieldAt c id position).type (members.getD position default)))
    (hhooks : (fieldAt c id position).onWrite = [])
    (hwritten : c.WritesMember w outermost (fieldAt c id position) (members.getD position default)
      component.toAttribute) :
    componentOf c (c.documents id) members position = .ok component := by
  obtain ⟨before, pinned, hwrite⟩ := hwritten
  rw [Codec.writeHooked_of_nil hhooks] at hwrite
  refine componentOf_eq_ok.mpr ⟨component.toAttribute, ?_, by rw [hhooks]; rfl⟩
  generalize hcall : c.write (fieldAt c id position).type (members.getD position default) = call
    at hone hwrite
  rw [Codec.encodeWith, hcall]
  cases hone with
  | refusal e => cases hwrite
  | value value =>
    rw [Writer.write_of_free rfl, EStateM.Result.ok.injEq] at hwrite
    cases Writer.fill_injective rfl hwrite.2
    refine Writer.run_eq_ok.mpr ⟨_, Writer.write_of_free rfl _, ?_⟩
    exact congrArg Except.ok (Option.filter_some_pos
      (WriteFlags.keeps_of_not_isVoid _ (isVoid_toAttribute component)))

/-- A document has a key where it has each component of one. -/
theorem exists_ofDocument_of_components {d : TableDescriptor} (hd : c.descriptor id = .ok d)
    (h : ∀ position ∈ d.keyPositions, ∃ component,
      componentOf c (c.documents id) members position = .ok component) :
    ∃ key, ofDocument c id members = .ok key := by
  obtain ⟨partition, hpartition⟩ := h d.partition (TableDescriptor.mem_keyPositions.mpr (.inl rfl))
  cases hposition : d.sort with
  | none =>
    refine ⟨⟨partition, none⟩, (ofDocument_eq_ok hd).mpr ⟨hpartition, ?_⟩⟩
    rw [hposition]
  | some position =>
    obtain ⟨sort, hsort⟩ := h position (TableDescriptor.mem_keyPositions.mpr (.inr hposition))
    refine ⟨⟨partition, some sort⟩, (ofDocument_eq_ok hd).mpr ⟨hpartition, ?_⟩⟩
    rw [hposition]
    exact ⟨sort, rfl, hsort⟩

theorem exists_component_of_ofDocument {d : TableDescriptor} (hd : c.descriptor id = .ok d)
    {key : PrimaryKey} (hkey : ofDocument c id members = .ok key) {position : Nat}
    (hposition : position ∈ d.keyPositions) :
    ∃ component, componentOf c (c.documents id) members position = .ok component := by
  obtain ⟨hpartition, hsort⟩ := (ofDocument_eq_ok hd).mp hkey
  rcases TableDescriptor.mem_keyPositions.mp hposition with rfl | hposition
  · exact ⟨_, hpartition⟩
  · rw [hposition] at hsort
    obtain ⟨sort, -, hsort⟩ := hsort
    exact ⟨sort, hsort⟩

/-- With the converters that are always there and without hooks on the members of the key, the item of a
document holds a text, a number or a byte string for each of them just where the document has a key. -/
theorem exists_ofDocument_iff (hc : c.converters = Converter.builtins) {d : TableDescriptor}
    (hd : c.descriptor id = .ok d) (hnames : ((c.documents id).fields.map c.storedName).Nodup)
    (hlength : members.length = (c.documents id).fields.length)
    (hhooks : ∀ position ∈ d.keyPositions, (fieldAt c id position).onWrite = [])
    (hitem : c.toItem (.document id) (.document members) = .ok item) :
    (∃ key, ofDocument c id members = .ok key) ↔
      ∀ position ∈ d.keyPositions, ∃ component : KeyValue,
        item.get? ((d.memberAt position).storedName c.options) = some component.toAttribute := by
  have huniform : c.ConvertersUniform := Codec.convertersUniform_of_makesWord
    fun converter hmem value =>
      Writer.makesWord_of_writesLeaf (Writer.writesLeaf_of_mem_builtins (hc ▸ hmem) value)
  constructor
  · rintro ⟨key, hkey⟩ position hposition
    obtain ⟨component, hcomponent⟩ := exists_component_of_ofDocument hd hkey hposition
    exact ⟨component, get?_of_componentOf huniform hd hnames hlength hitem hposition hcomponent⟩
  · intro hheld
    refine exists_ofDocument_of_components hd fun position hposition => ?_
    obtain ⟨component, hget⟩ := hheld position hposition
    obtain ⟨hzip, hmember, hkey, hkind⟩ := fieldAt_of_descriptor hd hlength hposition
    obtain ⟨value, hlast, -, -, hcomponent⟩ :=
      Codec.get?_toItem_of_isKey huniform.places hitem hzip hkey
    rw [hmember] at hget
    cases (hcomponent component).mp hget
    exact ⟨component, componentOf_of_writesMember (writesOne_write hc hkind _)
      (hhooks position hposition) (hlast.writesMember hnames hzip rfl)⟩

end PrimaryKey

end ItemMapper
