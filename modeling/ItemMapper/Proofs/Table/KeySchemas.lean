import ItemMapper.Proofs.Table.Names

/-!
# Definitions that are self-contained

The attributes that the definition of a table gives types to are collected from the members of its
keys in one pass, and its keys are written out in three others: that of the table, those of local
indexes and those of global ones. Both come down to the partition and the sort member of each key, so
that the attributes of the keys are defined, once each, and no others are.

## Main definitions

* `TableDefinition.keySchemas`: the keys of a table and of its indexes.
* `TableDefinition.SelfContained`: the attributes that are defined are those of the keys.
* `TableDescriptor.HasMember`: the partition or the sort member of a key.

## Main statements

* `TableDescriptor.mem_keyMembers_iff`: the members whose attributes are defined.
* `TableDescriptor.mem_keySchemas_iff`: the keys in a definition.
* `TableDescriptor.toDefinition_selfContained`: the definition of a valid table.
-/

namespace ItemMapper

/-- The keys of a table and of its indexes. -/
def TableDefinition.keySchemas (definition : TableDefinition) : List (List KeySchemaElement) :=
  definition.keySchema ::
    (definition.localIndexes ++ definition.globalIndexes).map (·.keySchema)

/-- The names of the attributes that a table defines. -/
def TableDefinition.attributeNames (definition : TableDefinition) : List String :=
  definition.attributeDefinitions.map (·.attributeName)

/-- The attributes that a table defines are those of its keys. -/
structure TableDefinition.SelfContained (definition : TableDefinition) : Prop where
  /-- Each attribute is defined once. -/
  once : definition.attributeNames.Nodup
  /-- An attribute is defined exactly where it is named in a key. -/
  named : ∀ name, name ∈ definition.attributeNames ↔
    ∃ keySchema ∈ definition.keySchemas, ∃ element ∈ keySchema, element.attributeName = name
  /-- A key has one partition attribute, and then at most one sort attribute. -/
  keyed : ∀ keySchema ∈ definition.keySchemas, ∃ partition,
    keySchema = [⟨partition, .hash⟩] ∨ ∃ sort, keySchema = [⟨partition, .hash⟩, ⟨sort, .range⟩]

namespace TableDescriptor

variable {s : Schema} {d : TableDescriptor} {options : CodecOptions} {tableName name : String}
  {definition : TableDefinition} {key : KeyChoice} {m : Member}

/-- A member is the partition or the sort member of a key. -/
def HasMember (d : TableDescriptor) (key : KeyChoice) (m : Member) : Prop :=
  (d.keyPartition? key).map d.memberAt = some m ∨ (d.keySort? key).map d.memberAt = some m

theorem mem_keys_iff :
    key ∈ d.keys ↔ key = .table ∨ (∃ o ∈ d.localOrdinals, key = ⟨.localIndex, o⟩) ∨
      ∃ o ∈ d.globalOrdinals, key = ⟨.globalIndex, o⟩ := by
  rw [keys, List.mem_cons, List.mem_append, List.mem_map, List.mem_map]
  simp only [eq_comm]

/-- Every key has a partition member. -/
theorem exists_keyPartition (h : key ∈ d.keys) : ∃ p, d.keyPartition? key = some p := by
  rcases mem_keys_iff.mp h with rfl | ⟨o, ho, rfl⟩ | ⟨o, ho, rfl⟩
  · exact ⟨d.partition, rfl⟩
  · exact ⟨d.partition, rfl⟩
  · exact Option.isSome_iff_exists.mp (List.mem_filter.mp ho).2

theorem mem_globalKeyMembers_iff {ordinal : Nat} (h : ordinal ∈ d.globalOrdinals) :
    m ∈ d.globalKeyMembers ordinal ↔ d.HasMember ⟨.globalIndex, ordinal⟩ m := by
  obtain ⟨partition, hpartition⟩ : ∃ p, d.globalPartition? ordinal = some p :=
    exists_keyPartition (global_mem_keys_iff.mpr h)
  rw [globalKeyMembers, hpartition, List.mem_cons, Option.mem_toList, HasMember,
    show d.keyPartition? ⟨.globalIndex, ordinal⟩ = some partition from hpartition, Option.map_some,
    Option.some_inj, eq_comm]
  exact Iff.rfl

/-- **The members whose attributes are defined** are those of the keys. The partition member of a local
index is that of the table. -/
theorem mem_keyMembers_iff : m ∈ d.keyMembers ↔ ∃ key ∈ d.keys, d.HasMember key m := by
  rw [keyMembers_eq]
  simp only [List.mem_append, List.mem_cons, List.mem_filterMap, List.mem_flatMap, mem_keys_iff,
    Option.mem_toList]
  constructor
  · rintro (((rfl | hsort) | ⟨o, ho, hsort⟩) | ⟨o, ho, hm⟩)
    · exact ⟨.table, .inl rfl, .inl rfl⟩
    · exact ⟨.table, .inl rfl, .inr hsort⟩
    · exact ⟨⟨.localIndex, o⟩, .inr (.inl ⟨o, ho, rfl⟩), .inr hsort⟩
    · exact ⟨⟨.globalIndex, o⟩, .inr (.inr ⟨o, ho, rfl⟩), (mem_globalKeyMembers_iff ho).mp hm⟩
  · rintro ⟨_, rfl | ⟨o, ho, rfl⟩ | ⟨o, ho, rfl⟩, hm⟩
    · rcases hm with hpartition | hsort
      · exact .inl (.inl (.inl (Option.some.inj hpartition).symm))
      · exact .inl (.inl (.inr hsort))
    · rcases hm with hpartition | hsort
      · exact .inl (.inl (.inl (Option.some.inj hpartition).symm))
      · exact .inl (.inr ⟨o, ho, hsort⟩)
    · exact .inr ⟨o, ho, (mem_globalKeyMembers_iff ho).mpr hm⟩

/-- An attribute is defined exactly where a member of a key is stored under its name. -/
theorem mem_attributeNames_iff (h : ofSchema s = .ok d)
    (hdefinitions : d.attributeDefinitions options [] d.keyMembers =
      .ok definition.attributeDefinitions) :
    name ∈ definition.attributeNames ↔ ∃ m ∈ d.keyMembers, m.storedName options = name := by
  rw [TableDefinition.attributeNames, List.mem_map]
  constructor
  · rintro ⟨x, hx, rfl⟩
    obtain ⟨-, m, hm, -⟩ := (mem_attributeDefinitions hdefinitions).mp hx
    exact ⟨m, Member.mem_of_storedAs? hm, Member.storedName_of_storedAs? hm⟩
  · rintro ⟨m, hm, rfl⟩
    obtain ⟨found, hfound⟩ := Member.exists_storedAs? options hm
    -- the definition is that of the first member with the name, which keys can hold
    obtain ⟨-, -, hkind⟩ := exists_member_of_mem_keyMembers h (Member.mem_of_storedAs? hfound)
    obtain ⟨type, htype⟩ := Option.isSome_iff_exists.mp (Member.isSome_scalarType?_iff.mpr hkind)
    refine ⟨⟨m.storedName options, type⟩, ?_, rfl⟩
    exact (mem_attributeDefinitions hdefinitions).mpr ⟨List.not_mem_nil, found, hfound, htype⟩

/-- **The keys in a definition** are those of the table and of its indexes. -/
theorem mem_keySchemas_iff (h : d.toDefinition options tableName = .ok definition)
    {elements : List KeySchemaElement} :
    elements ∈ definition.keySchemas ↔ ∃ key ∈ d.keys, ∃ p, d.keyPartition? key = some p ∧
      elements = keySchema options (d.memberAt p) ((d.keySort? key).map d.memberAt) := by
  rw [TableDefinition.keySchemas, List.mem_cons, List.mem_map]
  have hown : definition.keySchema = keySchema options d.partitionMember d.sortMember? := by
    obtain ⟨definitions, -, heq⟩ := except_bind_eq_ok.mp h
    cases heq
    rfl
  constructor
  · rintro (rfl | ⟨index, hindex, rfl⟩)
    · exact ⟨.table, table_mem_keys, d.partition, rfl, hown⟩
    · obtain ⟨key, hkey, hkeyed⟩ := (mem_indexes_iff h).mp hindex
      obtain ⟨p, hp, hkeyed⟩ := Option.bind_eq_some_iff.mp hkeyed
      obtain ⟨name, -, heq⟩ := Option.bind_eq_some_iff.mp hkeyed
      cases heq
      exact ⟨key, hkey, p, hp, rfl⟩
  · rintro ⟨key, hkey, p, hp, rfl⟩
    by_cases htable : key = .table
    · subst htable
      cases hp
      exact .inl hown.symm
    · obtain ⟨name, hname⟩ := exists_indexName hkey htable
      obtain ⟨index, hindex, -, -, hschema⟩ := exists_index_of_name h hkey hname hp
      exact .inr ⟨index, hindex, hschema⟩

theorem exists_mem_keySchema_iff {partition : Member} {sort : Option Member} :
    (∃ element ∈ keySchema options partition sort, element.attributeName = name) ↔
      partition.storedName options = name ∨ ∃ m ∈ sort, m.storedName options = name := by
  cases sort <;> simp [keySchema]

/-- The attributes of the keys are those of the members of keys. -/
theorem exists_mem_keySchemas_iff (h : d.toDefinition options tableName = .ok definition) :
    (∃ elements ∈ definition.keySchemas, ∃ element ∈ elements, element.attributeName = name) ↔
      ∃ key ∈ d.keys, ∃ m, d.HasMember key m ∧ m.storedName options = name := by
  constructor
  · rintro ⟨elements, helements, hname⟩
    obtain ⟨key, hkey, p, hp, rfl⟩ := (mem_keySchemas_iff h).mp helements
    rcases exists_mem_keySchema_iff.mp hname with hname | ⟨m, hm, hname⟩
    · exact ⟨key, hkey, d.memberAt p, .inl (by rw [hp]; rfl), hname⟩
    · exact ⟨key, hkey, m, .inr hm, hname⟩
  · rintro ⟨key, hkey, m, hm, hname⟩
    obtain ⟨p, hp⟩ := exists_keyPartition hkey
    refine ⟨_, (mem_keySchemas_iff h).mpr ⟨key, hkey, p, hp, rfl⟩, exists_mem_keySchema_iff.mpr ?_⟩
    rcases hm with hm | hm
    · rw [hp] at hm
      exact .inl (Option.some.inj hm ▸ hname)
    · exact .inr ⟨m, hm, hname⟩

/-- A key has one partition attribute, and then at most one sort attribute. -/
theorem keySchema_shape (options : CodecOptions) (partition : Member) (sort : Option Member) :
    ∃ name, keySchema options partition sort = [⟨name, .hash⟩] ∨
      ∃ other, keySchema options partition sort = [⟨name, .hash⟩, ⟨other, .range⟩] := by
  refine ⟨partition.storedName options, ?_⟩
  cases sort with
  | none => exact .inl rfl
  | some m => exact .inr ⟨m.storedName options, rfl⟩

/-- **The definition of a valid table** exists whatever its name and the options are, and it is
self-contained. -/
theorem toDefinition_selfContained (h : ofSchema s = .ok d) (options : CodecOptions)
    (tableName : String) :
    ∃ definition, d.toDefinition options tableName = .ok definition ∧
      definition.tableName = tableName ∧ definition.SelfContained := by
  obtain ⟨definition, hdefinition, hattributes⟩ := exists_toDefinition h options tableName
  refine ⟨definition, hdefinition, ?_, ?_⟩
  · obtain ⟨definitions, -, heq⟩ := except_bind_eq_ok.mp hdefinition
    cases heq
    rfl
  constructor
  case once => exact nodup_attributeDefinitions hattributes
  case named =>
    intro name
    rw [mem_attributeNames_iff h hattributes, exists_mem_keySchemas_iff hdefinition]
    simp only [mem_keyMembers_iff]
    constructor
    · rintro ⟨m, ⟨key, hkey, hm⟩, hname⟩
      exact ⟨key, hkey, m, hm, hname⟩
    · rintro ⟨key, hkey, m, hm, hname⟩
      exact ⟨m, ⟨key, hkey, hm⟩, hname⟩
  case keyed =>
    intro elements helements
    obtain ⟨key, -, p, -, rfl⟩ := (mem_keySchemas_iff hdefinition).mp helements
    exact keySchema_shape _ _ _

/-- Readings of devices, with a local index and a global one of which only the sort member is
declared. -/
def sampleReadings : Schema where
  typeName := "Readings"
  members :=
    [⟨"device", none, [⟨.primary, .partition, 0, none⟩], false, none, none,
        ⟨"String", .text, none, none⟩⟩,
      ⟨"time", some "t", [⟨.primary, .sort, 0, none⟩], false, none, none,
        ⟨"String", .text, none, none⟩⟩,
      ⟨"level", none, [⟨.localIndex, .sort, 1, none⟩, ⟨.globalIndex, .sort, 3, none⟩], false, none,
        none, ⟨"u32", .number, none, none⟩⟩]

/-- The places of the members of readings. -/
def sampleReadingsTable : TableDescriptor where
  schema := sampleReadings
  partition := 0
  sort := some 1
  version := none
  locals := ⟨none, some 2, none⟩ :: List.replicate 4 .empty
  globals := .empty :: .empty :: ⟨none, some 2, none⟩ :: List.replicate 17 .empty

/-- The device is the partition of the table and of both indexes, and defined once. -/
theorem toDefinition_selfContained_sampleReadings :
    ofSchema sampleReadings = .ok sampleReadingsTable ∧
      (∃ definition, sampleReadingsTable.toDefinition .initial "readings" = .ok definition ∧
        definition.tableName = "readings" ∧ definition.SelfContained) ∧
      (sampleReadingsTable.toDefinition .initial "readings").map
          (fun definition => (definition.attributeNames, definition.keySchemas)) =
        .ok (["device", "t", "level"],
          [[⟨"device", .hash⟩, ⟨"t", .range⟩], [⟨"device", .hash⟩, ⟨"level", .range⟩],
            [⟨"device", .hash⟩, ⟨"level", .range⟩]]) := by
  have hschema : ofSchema sampleReadings = .ok sampleReadingsTable := by cbv
  exact ⟨hschema, toDefinition_selfContained hschema .initial "readings", by cbv⟩

end TableDescriptor

end ItemMapper
