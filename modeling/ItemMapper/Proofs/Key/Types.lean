import ItemMapper.Mapper
import ItemMapper.Proofs.Key.Presence
import ItemMapper.Proofs.Table.Definitions

/-!
# Stored types of key attributes

The definition of a table says of each attribute in its keys whether it is a text, a number or a byte
string, and takes that from the kinds of the members and the encoding of enumerations. What an item
holds there is decided by the values of the members. The two agree but for null: an empty text or byte
string and an absent value are written as null, which stays in the item where the options or a pin keep
nulls.

## Main definitions

* `Codec.StoresAlike`: a name under which all members have the same type in keys.

## Main statements

* `Codec.types_of_tableDefinition`: what the item of a document holds for a defined attribute.
* `Codec.types_of_tableDefinition_ne`: what may be stored instead.
-/

namespace ItemMapper.Codec

variable {c : Codec} {id : DocumentId} {members : List Datum} {item : Item}

/-- The members that are stored under a name have the same type in keys, and the variants among them are
listed ones. -/
structure StoresAlike (c : Codec) (name : String) (fields : List Field) (members : List Datum) :
    Prop where
  types : ∀ f ∈ fields, ∀ g ∈ fields, c.storedName f = name → c.storedName g = name →
    (f.member c.typeName).scalarType? c.options = (g.member c.typeName).scalarType? c.options
  lists : ∀ member ∈ fields.zip members, c.storedName member.1 = name →
    member.1.type.Lists member.2

/-- Distinct stored names keep the members apart. -/
theorem StoresAlike.of_nodup {fields : List Field} (hnames : (fields.map c.storedName).Nodup)
    {name : String}
    (hlists : ∀ member ∈ fields.zip members, member.1.type.Lists member.2) :
    c.StoresAlike name fields members where
  types f hf g hg hfname hgname := by
    rw [List.inj_on_of_nodup_map hnames hf hg (hfname.trans hgname.symm)]
  lists member hmember _ := hlists member hmember

/-- A member of a kind that keys can hold is written as a text, a number or a byte string of its type, or
as null if that is what its value is by itself. -/
theorem WritesMember.isKeyValue_or_null (hc : c.converters = Converter.builtins) {w : Writer}
    {outermost : Bool} {f : Field} {member : Datum} {value : AttributeValue}
    (hkind : Claims.canBeKey (f.member c.typeName) = true) (hlists : f.type.Lists member)
    (hhooks : f.onWrite = []) (h : c.WritesMember w outermost f member value) :
    (∃ component : KeyValue, value = component.toAttribute ∧
      (f.member c.typeName).scalarType? c.options = some component.scalarType) ∨
    value = .null true ∧ c.encodeWith .all f.type member = .ok (some (.null true)) := by
  obtain ⟨before, pinned, hwrite⟩ := h
  rw [writeHooked_of_nil hhooks] at hwrite
  have hkey := writesKey_write hc hlists hkind
  rw [encodeWith]
  generalize c.write f.type member = call at hkey hwrite
  cases hkey with
  | refusal e => cases hwrite
  | null =>
    rw [Writer.writeNull, Writer.write_of_free rfl, EStateM.Result.ok.injEq] at hwrite
    exact .inr ⟨(Writer.fill_injective rfl hwrite.2).symm, rfl⟩
  | value component fits =>
    rw [Writer.write_of_free rfl, EStateM.Result.ok.injEq] at hwrite
    exact .inl ⟨component, (Writer.fill_injective rfl hwrite.2).symm, fits⟩

theorem exists_schema_of_descriptor {d : TableDescriptor} (hd : c.descriptor id = .ok d) :
    ∃ schema, TableDescriptor.ofSchema schema = .ok d ∧
      schema.members = (c.documents id).fields.map (Field.member c.typeName) := by
  obtain ⟨schema, hschema, h⟩ := except_bind_eq_ok.mp hd
  obtain ⟨-, -, hfields⟩ := except_bind_eq_ok.mp hschema
  cases hfields
  exact ⟨_, h, rfl⟩

/-- What is not written is not in the item of a document. -/
theorem get?_toItem_of_nothing (hplaces : c.ConvertersPlace)
    (hitem : c.toItem (.document id) (.document members) = .ok item) {name : String}
    (hnothing : c.WritesNothingUnder name (c.documents id).fields members) :
    item.get? name = none := by
  obtain ⟨-, written, pinned, hmembers, hascending, rfl⟩ := exists_written_of_toItem hplaces hitem
  obtain ⟨written', pinned', heq, -, hsame⟩ :=
    writeMembers_adds (places_writeMember hplaces _ _) .nil hmembers
  have hnone : written.get? name = none := by
    rw [(Writer.withObject_injective heq).1, hsame name hnothing]
    rfl
  rw [Writer.compactMembers, Fields.get?_filter hascending, hnone]
  rfl

/-- A defined attribute has the type that the members stored under its name have in keys. -/
theorem scalarType?_of_definition {d : TableDescriptor} (hd : c.descriptor id = .ok d)
    {definitions : List AttributeDefinition}
    (hdefinitions : d.attributeDefinitions c.options [] d.keyMembers = .ok definitions)
    {x : AttributeDefinition} (hx : x ∈ definitions)
    (halike : c.StoresAlike x.attributeName (c.documents id).fields members) {f : Field}
    (hf : f ∈ (c.documents id).fields) (hname : c.storedName f = x.attributeName) :
    (f.member c.typeName).scalarType? c.options = some x.attributeType := by
  obtain ⟨-, m, hfound, htype⟩ := (TableDescriptor.mem_attributeDefinitions hdefinitions).mp hx
  obtain ⟨schema, hschema, hmembers⟩ := exists_schema_of_descriptor hd
  obtain ⟨position, hposition, -⟩ :=
    TableDescriptor.exists_member_of_mem_keyMembers hschema (Member.mem_of_storedAs? hfound)
  have hm := List.mem_of_getElem? hposition
  rw [hmembers, List.mem_map] at hm
  obtain ⟨g, hg, rfl⟩ := hm
  have hgname : c.storedName g = x.attributeName := Member.storedName_of_storedAs? hfound
  exact (halike.types f hf g hg hname hgname).trans htype

/-- A codec of the sample documents that stores nulls and defaults. -/
def storingAll : Codec :=
  { bare with
    options := { CodecOptions.initial with
      serializeNullValues := true
      serializeDefaultValues := true }
    documents := Sample.documents "" }

/-- The descriptor of the orders. -/
def ordersDescriptor : TableDescriptor := (storingAll.descriptor 25).toOption.getD default

theorem descriptor_orders : storingAll.descriptor 25 = .ok ordersDescriptor :=
  except_toOption_eq_some.mp (by decide)

theorem onWrite_orders : ∀ f ∈ (storingAll.documents 25).fields, f.onWrite = [] := by
  intro f hf
  fin_cases hf <;> rfl

theorem tableDefinition_orders :
    (storingAll.tableDefinition 25 "orders").map (·.attributeDefinitions) =
      .ok [⟨"customer", .text⟩, ⟨"placed_at", .text⟩, ⟨"Total", .number⟩, ⟨"region", .text⟩,
        ⟨"status", .text⟩] := by cbv

/-- An order to a region. -/
def orderTo (region : String) : List Datum :=
  [.text "c", .text "p", .int 0, .text region, .text "s", .int 0, .absent]

/-- The item of the order. -/
def orderItemTo (region : AttributeValue) : Item :=
  [("Total", .number "0"), ("customer", .text "c"), ("placed_at", .text "p"), ("region", region),
    ("revision", .number "0"), ("shipTo", .null true), ("status", .text "s")]

theorem toItem_orderTo_nowhere :
    storingAll.toItem (.document 25) (.document (orderTo "")) = .ok (orderItemTo (.null true)) := by
  cbv

/-- Notes with a code in the key of an index, and a count that is stored under the name of the code. -/
def clashing : Codec :=
  { bare with
    documents := fun _ => .declare "Note"
      [Sample.member "id" Sample.text [Sample.partitionKey],
        Sample.member "code" Sample.text [.role .globalIndex .partition 1],
        Sample.member "count" (Sample.int .int32) [.rename "code"]] }

/-- Where there are no hooks, and members that are stored under one name have one type, the item of a
document holds for each attribute of the table's definition a value of the type that is defined. The
only exception is null: it stands where the value of the member is null by itself, and nulls are kept
by the options or by a pin. -/
theorem types_of_tableDefinition (hc : c.converters = Converter.builtins) {d : TableDescriptor}
    (hd : c.descriptor id = .ok d) (hhooks : ∀ f ∈ (c.documents id).fields, f.onWrite = [])
    (hitem : c.toItem (.document id) (.document members) = .ok item) (tableName : String) :
    ∃ definition, c.tableDefinition id tableName = .ok definition ∧
      ∀ x ∈ definition.attributeDefinitions,
        c.StoresAlike x.attributeName (c.documents id).fields members →
        ∀ value, item.get? x.attributeName = some value →
          (∃ component : KeyValue, value = component.toAttribute ∧
            component.scalarType = x.attributeType) ∨
          value = .null true ∧
            (c.options.serializeNullValues = true ∨
              c.PinsName x.attributeName (c.documents id).fields members) ∧
            ∃ member ∈ (c.documents id).fields.zip members,
              c.storedName member.1 = x.attributeName ∧
                c.encodeWith .all member.1.type member.2 = .ok (some (.null true)) := by
  obtain ⟨schema, hschema, -⟩ := exists_schema_of_descriptor hd
  obtain ⟨definition, hdefinition, hdefinitions⟩ :=
    TableDescriptor.exists_toDefinition hschema c.options tableName
  refine ⟨definition, except_bind_eq_ok.mpr ⟨d, hd, hdefinition⟩, fun x hx halike value hget => ?_⟩
  have hplaces := convertersPlace_of_builtins hc
  have hwritten : ¬ c.WritesNothingUnder x.attributeName (c.documents id).fields members := by
    intro hnothing
    cases (get?_toItem_of_nothing hplaces hitem hnothing).symm.trans hget
  obtain ⟨written, hlast, hstays, hdropped⟩ :=
    get?_toItem_of_written hplaces hitem hwritten
  by_cases hstay : c.Stays x.attributeName (c.documents id).fields members written
  · cases (hstays hstay).symm.trans hget
    obtain ⟨member, hmember, -, hname, hwrites⟩ := hlast.exists_member
    have hfield := (List.of_mem_zip hmember).1
    have htype := scalarType?_of_definition hd hdefinitions hx halike hfield hname
    have hkind : Claims.canBeKey (member.1.member c.typeName) = true :=
      Member.isSome_scalarType?_iff.mp (Option.isSome_iff_exists.mpr ⟨_, htype⟩)
    rcases hwrites.isKeyValue_or_null hc hkind (halike.lists member hmember hname)
        (hhooks member.1 hfield) with ⟨component, rfl, hcomponent⟩ | ⟨rfl, hnull⟩
    · exact .inl ⟨component, rfl, Option.some.inj (hcomponent.symm.trans htype)⟩
    · exact .inr ⟨rfl, hstay.symm, member, hmember, hname, hnull⟩
  · cases (hdropped hstay).symm.trans hget

theorem types_of_tableDefinition_orders :
    storingAll.converters = Converter.builtins ∧
      storingAll.descriptor 25 = .ok ordersDescriptor ∧
      (∀ f ∈ (storingAll.documents 25).fields, f.onWrite = []) ∧
      storingAll.toItem (.document 25) (.document (orderTo "")) = .ok (orderItemTo (.null true)) ∧
      ∃ definition, storingAll.tableDefinition 25 "orders" = .ok definition ∧
        ∀ x ∈ definition.attributeDefinitions, ∀ value,
          Fields.get? (orderItemTo (.null true)) x.attributeName = some value →
            (∃ component : KeyValue, value = component.toAttribute ∧
              component.scalarType = x.attributeType) ∨ value = .null true := by
  obtain ⟨definition, hdefinition, htypes⟩ := types_of_tableDefinition rfl descriptor_orders
    onWrite_orders toItem_orderTo_nowhere "orders"
  refine ⟨rfl, descriptor_orders, onWrite_orders, toItem_orderTo_nowhere, definition, hdefinition,
    fun x hx value hvalue => ?_⟩
  have hnames : ((storingAll.documents 25).fields.map storingAll.storedName).Nodup := by
    decide
  have halike : storingAll.StoresAlike x.attributeName (storingAll.documents 25).fields
      (orderTo "") := .of_nodup hnames fun member hmember => by
    fin_cases hmember <;> exact trivial
  exact (htypes x hx halike value hvalue).imp_right And.left

/-- What is stored may be of another type than the definition says: a region that is empty is stored as
null where nulls are stored, of two members under one name the last one is stored, and a variant without
a name is stored by its number. -/
theorem types_of_tableDefinition_ne :
    (storingAll.converters = Converter.builtins ∧
      (∀ f ∈ (storingAll.documents 25).fields, f.onWrite = []) ∧
      (storingAll.tableDefinition 25 "orders").map (·.attributeDefinitions) =
        .ok [⟨"customer", .text⟩, ⟨"placed_at", .text⟩, ⟨"Total", .number⟩, ⟨"region", .text⟩,
          ⟨"status", .text⟩] ∧
      storingAll.toItem (.document 25) (.document (orderTo "")) = .ok (orderItemTo (.null true)) ∧
      Fields.get? (orderItemTo (.null true)) "region" = some (.null true)) ∧
    ((clashing.tableDefinition 0 "notes").map (·.attributeDefinitions) =
        .ok [⟨"id", .text⟩, ⟨"code", .text⟩] ∧
      clashing.toItem (.document 0) (.document [.text "n", .text "x", .int 3]) =
        .ok [("code", .number "3"), ("id", .text "n")]) ∧
    (storingAll.tableDefinition 13 "accounts").map (·.attributeDefinitions) =
        .ok [⟨"tier", .text⟩, ⟨"user_id", .text⟩] ∧
      storingAll.toItem (.document 13) (.document [.enumeration 7, .text "u"]) =
        .ok [("tier", .number "7"), ("user_id", .text "u")] := by
  refine ⟨⟨rfl, onWrite_orders, tableDefinition_orders, toItem_orderTo_nowhere, by decide⟩,
    ⟨?_, ?_⟩, ?_, ?_⟩
  all_goals cbv

end ItemMapper.Codec
