import ItemMapper.Proofs.Schema.Lookup
import ItemMapper.Proofs.Table.Updates

/-!
# The attributes of new indexes

An index that is created is made of attributes, and an update also says of which types they are. The
members behind the attributes are looked up by the stored names, and the lookup prefers a declared
name to a stored one: where a member is declared under the name that another is stored under, the
wrong one is found. Then the update defines the attribute of that member, with its type, or fails if
the member has none. The definition of a whole table takes the members from their places, and does not
have this fault.

## Main definitions

* `TableDescriptor.Plays`: the members of the keys of the indexes that are created.
* `TableDescriptor.DefinesKeys`: an update that defines the attributes of the indexes it creates.
* `TableDescriptor.FindsBack`: a member that is found under its stored name.

## Main statements

* `TableDescriptor.definesKeys_iff`: which updates define the attributes of the indexes they create.
* `TableDescriptor.findsBack_of_apart`: a member is found back where no other has its stored name.
* `TableDescriptor.toUpdate_of_findsBack`: where every member is found back a valid table has an
  update.
-/

namespace ItemMapper.TableDescriptor

variable {d : TableDescriptor} {options : CodecOptions} {existing : TableDefinition}
  {update : TableUpdate}

/-! ### The attributes of the indexes that are created -/

/-- A global index of the table. -/
def globalIndex? (d : TableDescriptor) (options : CodecOptions) (ordinal : Nat) :
    Option SecondaryIndex := do
  let partition ← d.globalPartition? ordinal
  let name ← d.globalIndexName? ordinal
  pure ⟨name,
    keySchema options (d.memberAt partition) ((d.globalSort? ordinal).map d.memberAt), .all⟩

theorem globalIndexes_eq (d : TableDescriptor) (options : CodecOptions) :
    d.globalIndexes options = d.globalOrdinals.filterMap (d.globalIndex? options) := rfl

/-- The attributes of the key of an index are those of its members. -/
theorem attributeNames_of_globalIndex? {ordinal : Nat} {index : SecondaryIndex}
    (h : d.globalIndex? options ordinal = some index) :
    index.keySchema.map (·.attributeName) =
      (d.globalKeyMembers ordinal).map (·.storedName options) := by
  rw [globalIndex?, Option.bind_eq_bind, Option.bind_eq_some_iff] at h
  obtain ⟨partition, hpartition, h⟩ := h
  obtain ⟨name, -, h⟩ := Option.bind_eq_some_iff.mp h
  cases h
  rw [globalKeyMembers, hpartition]
  cases d.globalSort? ordinal <;> rfl

/-- The member plays a part in the key of an index that the table does not have. -/
def Plays (d : TableDescriptor) (options : CodecOptions) (existing : TableDefinition) (m : Member) :
    Prop :=
  ∃ ordinal ∈ d.globalOrdinals, ∃ index ∈ d.missingIndexes options existing,
    d.globalIndex? options ordinal = some index ∧ m ∈ d.globalKeyMembers ordinal

theorem exists_plays_iff {name : String} :
    (∃ m, d.Plays options existing m ∧ m.storedName options = name) ↔
      ∃ index ∈ d.missingIndexes options existing,
        ∃ element ∈ index.keySchema, element.attributeName = name := by
  constructor
  · rintro ⟨m, ⟨ordinal, -, index, hmissing, hindex, hm⟩, rfl⟩
    have hname := List.mem_map_of_mem (f := (·.storedName options)) hm
    rw [← attributeNames_of_globalIndex? hindex, List.mem_map] at hname
    exact ⟨index, hmissing, hname⟩
  · rintro ⟨index, hmissing, element, helement, rfl⟩
    have hwanted := (mem_missingIndexes.mp hmissing).1
    rw [globalIndexes_eq, List.mem_filterMap] at hwanted
    obtain ⟨ordinal, hordinal, hindex⟩ := hwanted
    have hname := List.mem_map_of_mem (f := (·.attributeName)) helement
    rw [attributeNames_of_globalIndex? hindex, List.mem_map] at hname
    obtain ⟨m, hm, heq⟩ := hname
    exact ⟨m, ⟨ordinal, hordinal, index, hmissing, hindex, hm⟩, heq⟩

theorem mem_foundMembers {found : Member} :
    found ∈ d.foundMembers options existing ↔
      ∃ m, d.Plays options existing m ∧
        (d.schema.lookup? (m.storedName options) options).map (·.2) = some found := by
  rw [foundMembers, List.mem_flatMap]
  simp only [List.mem_filterMap]
  constructor
  · rintro ⟨index, hmissing, element, helement, hfound⟩
    obtain ⟨m, hm, hname⟩ := exists_plays_iff.mpr ⟨index, hmissing, element, helement, rfl⟩
    exact ⟨m, hm, hname ▸ hfound⟩
  · rintro ⟨m, hm, hfound⟩
    obtain ⟨index, hmissing, element, helement, hname⟩ := exists_plays_iff.mp ⟨m, hm, rfl⟩
    exact ⟨index, hmissing, element, helement, hname ▸ hfound⟩

/-- An update that defines the attributes in the keys of the indexes that it creates, each once and with
the type of the member that plays the part. -/
structure DefinesKeys (d : TableDescriptor) (options : CodecOptions) (update : TableUpdate) :
    Prop where
  once : (update.attributeDefinitions.map (·.attributeName)).Nodup
  names : ∀ name, name ∈ update.attributeDefinitions.map (·.attributeName) ↔
    ∃ index, .create index ∈ update.globalIndexUpdates ∧
      ∃ element ∈ index.keySchema, element.attributeName = name
  types : ∀ ordinal ∈ d.globalOrdinals, ∀ index, d.globalIndex? options ordinal = some index →
    .create index ∈ update.globalIndexUpdates → ∀ m ∈ d.globalKeyMembers ordinal,
      ∀ definition ∈ update.attributeDefinitions,
        definition.attributeName = m.storedName options →
          m.scalarType? options = some definition.attributeType

/-- The member found first for each part is one of its type, and no other names are found than those
of the parts. -/
structure FindsParts (d : TableDescriptor) (options : CodecOptions) (existing : TableDefinition) :
    Prop where
  types : ∀ m, d.Plays options existing m → ∃ found,
    Member.storedAs? options (d.foundMembers options existing) (m.storedName options) = some found ∧
      found.scalarType? options = m.scalarType? options
  names : ∀ found ∈ d.foundMembers options existing, ∃ m, d.Plays options existing m ∧
    m.storedName options = found.storedName options

/-- An update defines the attribute of a name with the type of the first found member that is stored
under it. -/
theorem mem_definitions_of_toUpdate (h : d.toUpdate options existing = .ok update)
    {definition : AttributeDefinition} :
    definition ∈ update.attributeDefinitions ↔ ∃ found,
      Member.storedAs? options (d.foundMembers options existing) definition.attributeName =
          some found ∧
        found.scalarType? options = some definition.attributeType := by
  obtain ⟨definitions, hdefinitions, rfl⟩ := toUpdate_eq_ok.mp h
  rw [mem_attributeDefinitions hdefinitions]
  exact and_iff_right List.not_mem_nil

/-- An update defines the names under which the found members are stored. -/
theorem mem_definedNames_of_toUpdate (h : d.toUpdate options existing = .ok update)
    {name : String} :
    name ∈ update.attributeDefinitions.map (·.attributeName) ↔
      ∃ found ∈ d.foundMembers options existing, found.storedName options = name := by
  constructor
  · intro hname
    obtain ⟨definition, hdefinition, rfl⟩ := List.mem_map.mp hname
    obtain ⟨found, hfound, -⟩ := (mem_definitions_of_toUpdate h).mp hdefinition
    exact ⟨found, Member.mem_of_storedAs? hfound, Member.storedName_of_storedAs? hfound⟩
  · rintro ⟨found, hfound, rfl⟩
    obtain ⟨first, hfirst⟩ := Member.exists_storedAs? options hfound
    obtain ⟨definitions, hdefinitions, -⟩ := toUpdate_eq_ok.mp h
    obtain ⟨type, htype⟩ := Option.isSome_iff_exists.mp
      (exists_attributeDefinitions.mp ⟨definitions, hdefinitions⟩ _ List.not_mem_nil first hfirst)
    exact List.mem_map.mpr ⟨⟨found.storedName options, type⟩,
      (mem_definitions_of_toUpdate h).mpr ⟨first, hfirst, htype⟩, rfl⟩

/-- No update defines an attribute twice. -/
theorem nodup_definitions_of_toUpdate (h : d.toUpdate options existing = .ok update) :
    (update.attributeDefinitions.map (·.attributeName)).Nodup := by
  obtain ⟨definitions, hdefinitions, rfl⟩ := toUpdate_eq_ok.mp h
  exact nodup_attributeDefinitions hdefinitions

theorem DefinesKeys.findsParts (hkeys : d.DefinesKeys options update)
    (h : d.toUpdate options existing = .ok update) : d.FindsParts options existing := by
  have hplayed : ∀ name, name ∈ update.attributeDefinitions.map (·.attributeName) ↔
      ∃ m, d.Plays options existing m ∧ m.storedName options = name := by
    intro name
    rw [hkeys.names, exists_plays_iff]
    simp only [create_mem_iff h]
  refine ⟨fun m hm => ?_, fun found hfound => ?_⟩
  · obtain ⟨definition, hdefinition, hname⟩ := List.mem_map.mp ((hplayed _).mpr ⟨m, hm, rfl⟩)
    obtain ⟨found, hfound, htype⟩ := (mem_definitions_of_toUpdate h).mp hdefinition
    obtain ⟨ordinal, hordinal, index, hmissing, hindex, hmember⟩ := hm
    have hsame := hkeys.types ordinal hordinal index hindex ((create_mem_iff h).mpr hmissing) m
      hmember definition hdefinition hname
    exact ⟨found, hname ▸ hfound, htype.trans hsame.symm⟩
  · exact (hplayed _).mp ((mem_definedNames_of_toUpdate h).mpr ⟨found, hfound, rfl⟩)

theorem FindsParts.definesKeys (hparts : d.FindsParts options existing)
    (h : d.toUpdate options existing = .ok update) : d.DefinesKeys options update := by
  refine ⟨nodup_definitions_of_toUpdate h, fun name => ?_, ?_⟩
  · simp only [create_mem_iff h]
    rw [mem_definedNames_of_toUpdate h, ← exists_plays_iff]
    constructor
    · rintro ⟨found, hfound, rfl⟩
      exact hparts.names found hfound
    · rintro ⟨m, hm, rfl⟩
      obtain ⟨found, hfound, -⟩ := hparts.types m hm
      exact ⟨found, Member.mem_of_storedAs? hfound, Member.storedName_of_storedAs? hfound⟩
  · intro ordinal hordinal index hindex hcreated m hmember definition hdefinition hname
    have hm : d.Plays options existing m :=
      ⟨ordinal, hordinal, index, (create_mem_iff h).mp hcreated, hindex, hmember⟩
    obtain ⟨found, hfound, htype⟩ := (mem_definitions_of_toUpdate h).mp hdefinition
    obtain ⟨first, hfirst, hsame⟩ := hparts.types m hm
    rw [hname, hfirst] at hfound
    cases hfound
    exact hsame.symm.trans htype

/-! ### Members that are found back -/

/-- The lookup of the stored name of a member finds it, or one that is stored alike. -/
def FindsBack (d : TableDescriptor) (options : CodecOptions) (m : Member) : Prop :=
  ∃ found, (d.schema.lookup? (m.storedName options) options).map (·.2) = some found ∧
    found.storedName options = m.storedName options ∧
    found.scalarType? options = m.scalarType? options

/-- A member is found back where every member that is declared or stored under its stored name is stored
under it too, with the same type. -/
theorem findsBack_of_apart {s : Schema} (hd : ofSchema s = .ok d) {m : Member}
    (hm : m ∈ d.keyMembers)
    (hapart : ∀ other ∈ s.members,
      other.name = m.storedName options ∨ other.storedName options = m.storedName options →
        other.storedName options = m.storedName options ∧
          other.scalarType? options = m.scalarType? options) :
    d.FindsBack options m := by
  obtain ⟨position, hposition, -⟩ := exists_member_of_mem_keyMembers hd hm
  obtain ⟨⟨i, found⟩, hfound⟩ := Schema.exists_lookup? options (List.mem_of_getElem? hposition)
  obtain ⟨hmem, hname⟩ := Schema.mem_of_lookup? hfound
  refine ⟨found, ?_, hapart found hmem hname⟩
  rw [(exists_member_of_ofSchema hd).1, hfound, Option.map_some]

theorem storedAs?_foundMembers (hall : ∀ m, d.Plays options existing m → d.FindsBack options m)
    {name : String} {found : Member}
    (h : Member.storedAs? options (d.foundMembers options existing) name = some found) :
    ∃ m, d.Plays options existing m ∧ m.storedName options = name ∧
      (d.schema.lookup? name options).map (·.2) = some found ∧
      found.scalarType? options = m.scalarType? options := by
  obtain ⟨m, hm, hlookup⟩ := mem_foundMembers.mp (Member.mem_of_storedAs? h)
  obtain ⟨back, hback, hstored, htype⟩ := hall m hm
  obtain rfl := Option.some.inj (hlookup.symm.trans hback)
  have hname : m.storedName options = name :=
    hstored.symm.trans (Member.storedName_of_storedAs? h)
  exact ⟨m, hm, hname, hname ▸ hlookup, htype⟩

theorem findsParts_of_findsBack
    (hall : ∀ m, d.Plays options existing m → d.FindsBack options m) :
    d.FindsParts options existing := by
  refine ⟨fun m hm => ?_, fun found hfound => ?_⟩
  · obtain ⟨back, hback, hstored, htype⟩ := hall m hm
    obtain ⟨first, hfirst⟩ :=
      Member.exists_storedAs? options (mem_foundMembers.mpr ⟨m, hm, hback⟩)
    rw [hstored] at hfirst
    obtain ⟨other, -, -, hlookup, -⟩ := storedAs?_foundMembers hall hfirst
    obtain rfl := Option.some.inj (hback.symm.trans hlookup)
    exact ⟨back, hfirst, htype⟩
  · obtain ⟨m, hm, hlookup⟩ := mem_foundMembers.mp hfound
    obtain ⟨back, hback, hstored, -⟩ := hall m hm
    obtain rfl := Option.some.inj (hlookup.symm.trans hback)
    exact ⟨m, hm, hstored.symm⟩

theorem canBeKey_of_plays {s : Schema} (hd : ofSchema s = .ok d) {m : Member}
    (hm : d.Plays options existing m) : Claims.canBeKey m = true := by
  obtain ⟨ordinal, hordinal, -, -, -, hmember⟩ := hm
  obtain ⟨-, -, hkind⟩ :=
    exists_member_of_mem_keyMembers hd (mem_keyMembers_of_mem_globalKeyMembers hordinal hmember)
  exact hkind

/-- Where the members of all missing indexes are found back, a valid table has an update, and it defines
the attributes of the indexes that it creates. -/
theorem toUpdate_of_findsBack {s : Schema} (hd : ofSchema s = .ok d)
    (hall : ∀ m, d.Plays options existing m → d.FindsBack options m) :
    ∃ update, d.toUpdate options existing = .ok update ∧ d.DefinesKeys options update := by
  have htypes : ∀ name ∉ ([] : List String), ∀ found,
      Member.storedAs? options (d.foundMembers options existing) name = some found →
        (found.scalarType? options).isSome := by
    intro name _ found hfound
    obtain ⟨m, hm, -, -, htype⟩ := storedAs?_foundMembers hall hfound
    rw [htype]
    exact Member.isSome_scalarType?_iff.mpr (canBeKey_of_plays hd hm)
  obtain ⟨definitions, hdefinitions⟩ := exists_attributeDefinitions.mpr htypes
  have h := toUpdate_eq_ok.mpr ⟨definitions, hdefinitions, rfl⟩
  exact ⟨_, h, (findsParts_of_findsBack hall).definesKeys h⟩

/-- An update defines every attribute at most once. It defines the attributes of the indexes that it
creates exactly if the lookup finds their members, or such as are stored alike; it does where every
member is found back. -/
theorem definesKeys_iff (h : d.toUpdate options existing = .ok update) :
    (update.attributeDefinitions.map (·.attributeName)).Nodup ∧
      (d.DefinesKeys options update ↔ d.FindsParts options existing) ∧
      ((∀ m, d.Plays options existing m → d.FindsBack options m) → d.DefinesKeys options update) :=
  ⟨nodup_definitions_of_toUpdate h,
    ⟨fun hkeys => hkeys.findsParts h, fun hparts => hparts.definesKeys h⟩,
    fun hall => (findsParts_of_findsBack hall).definesKeys h⟩

/-- The owner's attribute is the key of the index by owner, and it is not defined. -/
theorem definesKeys_iff_sampleTeams :
    ofSchema (sampleTeams .number) = .ok (sampleTeamsTable .number) ∧
      (sampleTeamsTable .number).toUpdate .initial sampleTeamsBefore = .ok sampleTeamsUpdate ∧
      ¬ (sampleTeamsTable .number).DefinesKeys .initial sampleTeamsUpdate ∧
      ¬ (sampleTeamsTable .number).FindsParts .initial sampleTeamsBefore := by
  have hkeys : ¬ (sampleTeamsTable .number).DefinesKeys .initial sampleTeamsUpdate := by
    intro hkeys
    have hdefined : "team" ∈ sampleTeamsUpdate.attributeDefinitions.map (·.attributeName) :=
      (hkeys.names "team").mpr ⟨⟨"by-owner", [⟨"team", .hash⟩], .all⟩, by decide,
        ⟨"team", .hash⟩, by decide, rfl⟩
    exact absurd hdefined (by decide)
  exact ⟨ofSchema_sampleTeams .number, toUpdate_sampleTeams, hkeys,
    mt (definesKeys_iff toUpdate_sampleTeams).2.1.mpr hkeys⟩

end ItemMapper.TableDescriptor
