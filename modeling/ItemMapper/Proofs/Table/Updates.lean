import Mathlib
import ItemMapper.Proofs.Table.Definitions

/-!
# Bringing a table in line

The changes of an update are applied to the global indexes of a table one after the other: an index is
deleted by its name, and created under a name that is free. An update deletes first, so the name of an
index with another key is free when the index is created again. What is left are the indexes that are
wanted, and nothing has to be changed about them.

There is no update where a member without a type in keys is found under the name of an attribute;
`ItemMapper.Proofs.Table.NewAttributes` is about how that can happen.

## Main definitions

* `TableUpdate.indexesAfter?`: the global indexes of a table after an update.
* `TableDescriptor.staleIndexes`, `TableDescriptor.missingIndexes`: what is deleted and created.
* `TableDescriptor.Converges`: an update that brings a table in line.

## Main statements

* `TableDescriptor.toUpdate_of_perm`: a table with the wanted indexes needs no update.
* `TableDescriptor.toUpdate_converges`: when there is an update, and that it brings the table in line.
-/

namespace ItemMapper

/-- Two indexes are the same to an update if their names and their keys are. -/
def SecondaryIndex.nameAndKey (index : SecondaryIndex) : String × List KeySchemaElement :=
  (index.indexName, index.keySchema)

theorem TableDescriptor.sameIndex_iff {a b : SecondaryIndex} :
    sameIndex a b = true ↔ a.nameAndKey = b.nameAndKey := by
  rw [sameIndex, Bool.and_eq_true, beq_iff_eq, beq_iff_eq, SecondaryIndex.nameAndKey,
    SecondaryIndex.nameAndKey, Prod.mk.injEq]

/-! ### Applying an update -/

/-- The global indexes after a change: only an index that is there can be deleted, and only a name that
is free can be given to a new one. -/
def GlobalIndexUpdate.indexesAfter? (indexes : List SecondaryIndex) :
    GlobalIndexUpdate → Option (List SecondaryIndex)
  | .delete name =>
    if name ∈ indexes.map (·.indexName) then
      some (indexes.filter fun index => decide (index.indexName ≠ name))
    else none
  | .create index =>
    if index.indexName ∈ indexes.map (·.indexName) then none else some (indexes ++ [index])

/-- The global indexes of a table after an update. -/
def TableUpdate.indexesAfter? (update : TableUpdate) (indexes : List SecondaryIndex) :
    Option (List SecondaryIndex) :=
  update.globalIndexUpdates.foldlM GlobalIndexUpdate.indexesAfter? indexes

namespace GlobalIndexUpdate

/-- Deleting indexes under different names leaves those with other names. -/
theorem foldlM_delete {names : List String} (hnames : names.Nodup) {indexes : List SecondaryIndex}
    (hthere : ∀ name ∈ names, name ∈ indexes.map (·.indexName)) :
    (names.map .delete).foldlM indexesAfter? indexes =
      some (indexes.filter fun index => decide (index.indexName ∉ names)) := by
  induction names generalizing indexes with
  | nil => exact congrArg some (List.filter_true indexes).symm
  | cons name rest ih =>
    obtain ⟨hfresh, hrest⟩ := List.nodup_cons.mp hnames
    have hlater : ∀ later ∈ rest, later ∈
        (indexes.filter fun index => decide (index.indexName ≠ name)).map (·.indexName) := by
      intro later hmem
      obtain ⟨index, hindex, rfl⟩ := List.mem_map.mp (hthere later (List.mem_cons_of_mem _ hmem))
      refine List.mem_map.mpr ⟨index, List.mem_filter.mpr ⟨hindex, ?_⟩, rfl⟩
      exact decide_eq_true fun heq => hfresh (heq ▸ hmem)
    rw [List.map_cons, List.foldlM_cons, indexesAfter?, if_pos (hthere name List.mem_cons_self),
      Option.bind_eq_bind, Option.bind_some, ih hrest hlater, List.filter_filter]
    refine congrArg some (List.filter_congr fun index _ => ?_)
    rw [← Bool.decide_and]
    exact decide_eq_decide.mpr (by rw [List.mem_cons, not_or, and_comm])

/-- Creating indexes under different names that are free adds them. -/
theorem foldlM_create {created : List SecondaryIndex} (hnames : (created.map (·.indexName)).Nodup)
    {indexes : List SecondaryIndex}
    (hfree : ∀ index ∈ created, index.indexName ∉ indexes.map (·.indexName)) :
    (created.map .create).foldlM indexesAfter? indexes = some (indexes ++ created) := by
  induction created generalizing indexes with
  | nil => simp
  | cons first rest ih =>
    rw [List.map_cons, List.nodup_cons] at hnames
    have hlater : ∀ index ∈ rest, index.indexName ∉ (indexes ++ [first]).map (·.indexName) := by
      intro index hindex hmem
      rw [List.map_append, List.mem_append, List.map_singleton, List.mem_singleton] at hmem
      rcases hmem with hmem | heq
      · exact hfree index (List.mem_cons_of_mem _ hindex) hmem
      · exact hnames.1 (heq ▸ List.mem_map_of_mem hindex)
    rw [List.map_cons, List.foldlM_cons, indexesAfter?, if_neg (hfree first List.mem_cons_self),
      Option.bind_eq_bind, Option.bind_some, ih hnames.2 hlater, List.append_assoc,
      List.singleton_append]

end GlobalIndexUpdate

namespace TableDescriptor

variable {d : TableDescriptor} {options : CodecOptions} {existing : TableDefinition}
  {update : TableUpdate}

/-! ### The parts of an update -/

/-- The indexes of a table that are not wanted, or are wanted with another key. -/
def staleIndexes (d : TableDescriptor) (options : CodecOptions) (existing : TableDefinition) :
    List SecondaryIndex :=
  existing.globalIndexes.filter fun current =>
    !(d.globalIndexes options).any fun index => sameIndex index current

/-- The indexes that are wanted and that a table does not have. -/
def missingIndexes (d : TableDescriptor) (options : CodecOptions) (existing : TableDefinition) :
    List SecondaryIndex :=
  (d.globalIndexes options).filter fun index =>
    !existing.globalIndexes.any fun current => sameIndex current index

/-- The members that are found under the names of the attributes of the missing indexes. -/
def foundMembers (d : TableDescriptor) (options : CodecOptions) (existing : TableDefinition) :
    List Member :=
  (d.missingIndexes options existing).flatMap fun index =>
    index.keySchema.filterMap fun element =>
      (d.schema.lookup? element.attributeName options).map (·.2)

theorem toUpdate_eq_ok :
    d.toUpdate options existing = .ok update ↔
      ∃ definitions, d.attributeDefinitions options [] (d.foundMembers options existing) =
          .ok definitions ∧
        update = ⟨existing.tableName, definitions,
          (d.staleIndexes options existing).map (fun index => .delete index.indexName) ++
            (d.missingIndexes options existing).map .create⟩ := by
  unfold toUpdate
  rw [except_bind_eq_ok]
  refine exists_congr fun definitions => and_congr_right fun _ => ?_
  constructor
  · intro h
    exact (Except.ok.inj h).symm
  · rintro rfl
    rfl

theorem mem_staleIndexes {index : SecondaryIndex} :
    index ∈ d.staleIndexes options existing ↔ index ∈ existing.globalIndexes ∧
      ∀ wanted ∈ d.globalIndexes options, wanted.nameAndKey ≠ index.nameAndKey := by
  simp only [staleIndexes, List.mem_filter, Bool.not_eq_true', List.any_eq_false, sameIndex_iff,
    ne_eq]

theorem mem_missingIndexes {index : SecondaryIndex} :
    index ∈ d.missingIndexes options existing ↔ index ∈ d.globalIndexes options ∧
      ∀ current ∈ existing.globalIndexes, current.nameAndKey ≠ index.nameAndKey := by
  simp only [missingIndexes, List.mem_filter, Bool.not_eq_true', List.any_eq_false, sameIndex_iff,
    ne_eq]

theorem create_mem_iff (h : d.toUpdate options existing = .ok update) {index : SecondaryIndex} :
    .create index ∈ update.globalIndexUpdates ↔ index ∈ d.missingIndexes options existing := by
  obtain ⟨definitions, -, rfl⟩ := toUpdate_eq_ok.mp h
  simp

theorem delete_mem_iff (h : d.toUpdate options existing = .ok update) {name : String} :
    .delete name ∈ update.globalIndexUpdates ↔
      name ∈ (d.staleIndexes options existing).map (·.indexName) := by
  obtain ⟨definitions, -, rfl⟩ := toUpdate_eq_ok.mp h
  simp

/-! ### What an update leaves -/

/-- The indexes of a table that are wanted as they are. -/
def keptIndexes (d : TableDescriptor) (options : CodecOptions) (existing : TableDefinition) :
    List SecondaryIndex :=
  existing.globalIndexes.filter fun index =>
    decide (index.indexName ∉ (d.staleIndexes options existing).map (·.indexName))

/-- An index is kept exactly if one with its name and key is wanted. -/
theorem mem_keptIndexes (hexisting : (existing.globalIndexes.map (·.indexName)).Nodup)
    {index : SecondaryIndex} :
    index ∈ d.keptIndexes options existing ↔ index ∈ existing.globalIndexes ∧
      ∃ wanted ∈ d.globalIndexes options, wanted.nameAndKey = index.nameAndKey := by
  rw [keptIndexes, List.mem_filter, decide_eq_true_eq]
  refine and_congr_right fun hindex => ?_
  constructor
  · intro hname
    by_contra hunwanted
    refine hname (List.mem_map_of_mem (mem_staleIndexes.mpr ⟨hindex, fun wanted hwanted heq => ?_⟩))
    exact hunwanted ⟨wanted, hwanted, heq⟩
  · rintro ⟨wanted, hwanted, heq⟩ hname
    obtain ⟨stale, hstale, hsame⟩ := List.mem_map.mp hname
    obtain ⟨hthere, hunwanted⟩ := mem_staleIndexes.mp hstale
    obtain rfl := List.inj_on_of_nodup_map hexisting hthere hindex hsame
    exact hunwanted wanted hwanted heq

variable (hdesired : ((d.globalIndexes options).map (·.indexName)).Nodup)
  (hexisting : (existing.globalIndexes.map (·.indexName)).Nodup)

include hdesired hexisting

/-- The name of a missing index is not that of an index that is kept. -/
theorem indexName_missing_ne_kept {missing kept : SecondaryIndex}
    (hmissing : missing ∈ d.missingIndexes options existing)
    (hkept : kept ∈ d.keptIndexes options existing) : missing.indexName ≠ kept.indexName := by
  intro hname
  obtain ⟨hwanted, hnew⟩ := mem_missingIndexes.mp hmissing
  obtain ⟨hthere, wanted, hother, heq⟩ := (mem_keptIndexes hexisting).mp hkept
  have hsame : wanted.indexName = missing.indexName := (congrArg Prod.fst heq).trans hname.symm
  obtain rfl := List.inj_on_of_nodup_map hdesired hother hwanted hsame
  exact hnew kept hthere heq.symm

theorem nodup_names_applied :
    ((d.keptIndexes options existing ++ d.missingIndexes options existing).map
      (·.indexName)).Nodup := by
  rw [List.map_append, List.nodup_append']
  refine ⟨hexisting.sublist (List.filter_sublist.map _),
    hdesired.sublist (List.filter_sublist.map _), fun name hname hmissing => ?_⟩
  obtain ⟨kept, hkept, rfl⟩ := List.mem_map.mp hname
  obtain ⟨missing, hmissing, hsame⟩ := List.mem_map.mp hmissing
  exact indexName_missing_ne_kept hdesired hexisting hmissing hkept hsame

/-- An update deletes what is stale and adds what is missing. -/
theorem indexesAfter?_of_toUpdate (h : d.toUpdate options existing = .ok update) :
    update.indexesAfter? existing.globalIndexes =
      some (d.keptIndexes options existing ++ d.missingIndexes options existing) := by
  obtain ⟨definitions, -, rfl⟩ := toUpdate_eq_ok.mp h
  have hdeleted : ((d.staleIndexes options existing).map (·.indexName)).Nodup :=
    hexisting.sublist (List.filter_sublist.map _)
  have hthere : ∀ name ∈ (d.staleIndexes options existing).map (·.indexName),
      name ∈ existing.globalIndexes.map (·.indexName) := fun name hname =>
    (List.filter_sublist.map _).subset hname
  have hcreated : ((d.missingIndexes options existing).map (·.indexName)).Nodup :=
    hdesired.sublist (List.filter_sublist.map _)
  have hfree : ∀ index ∈ d.missingIndexes options existing,
      index.indexName ∉ (d.keptIndexes options existing).map (·.indexName) := by
    intro index hindex hname
    obtain ⟨kept, hkept, heq⟩ := List.mem_map.mp hname
    exact indexName_missing_ne_kept hdesired hexisting hindex hkept heq.symm
  have hnames : (d.staleIndexes options existing).map
        (fun index => GlobalIndexUpdate.delete index.indexName) =
      ((d.staleIndexes options existing).map (·.indexName)).map .delete := by
    rw [List.map_map]
    rfl
  rw [TableUpdate.indexesAfter?, List.foldlM_append, hnames,
    GlobalIndexUpdate.foldlM_delete hdeleted hthere]
  exact GlobalIndexUpdate.foldlM_create hcreated hfree

/-- After an update the names and keys of the indexes are those that are wanted. -/
theorem nameAndKey_applied_perm :
    ((d.keptIndexes options existing ++ d.missingIndexes options existing).map
        SecondaryIndex.nameAndKey).Perm
      ((d.globalIndexes options).map SecondaryIndex.nameAndKey) := by
  have hfst : ∀ indexes : List SecondaryIndex, (indexes.map (·.indexName)).Nodup →
      (indexes.map SecondaryIndex.nameAndKey).Nodup := by
    intro indexes hnodup
    refine List.Nodup.of_map Prod.fst ?_
    rwa [List.map_map]
  refine (List.perm_ext_iff_of_nodup (hfst _ (nodup_names_applied hdesired hexisting))
    (hfst _ hdesired)).mpr fun pair => ?_
  simp only [List.mem_map, List.mem_append]
  constructor
  · rintro ⟨index, hkept | hmissing, rfl⟩
    · obtain ⟨-, wanted, hwanted, heq⟩ := (mem_keptIndexes hexisting).mp hkept
      exact ⟨wanted, hwanted, heq⟩
    · exact ⟨index, (mem_missingIndexes.mp hmissing).1, rfl⟩
  · rintro ⟨wanted, hwanted, rfl⟩
    by_cases hthere : ∃ current ∈ existing.globalIndexes, current.nameAndKey = wanted.nameAndKey
    · obtain ⟨current, hcurrent, heq⟩ := hthere
      exact ⟨current, .inl ((mem_keptIndexes hexisting).mpr
        ⟨hcurrent, wanted, hwanted, heq.symm⟩), heq⟩
    · refine ⟨wanted, .inr (mem_missingIndexes.mpr ⟨hwanted, fun current hcurrent heq => ?_⟩), rfl⟩
      exact hthere ⟨current, hcurrent, heq⟩

omit hdesired hexisting

/-- A table whose indexes have the names and keys that are wanted needs no update. -/
theorem toUpdate_of_perm {table : TableDefinition}
    (h : (table.globalIndexes.map SecondaryIndex.nameAndKey).Perm
      ((d.globalIndexes options).map SecondaryIndex.nameAndKey)) :
    d.toUpdate options table = .ok ⟨table.tableName, [], []⟩ := by
  have hstale : d.staleIndexes options table = [] := by
    refine List.eq_nil_iff_forall_not_mem.mpr fun index hindex => ?_
    obtain ⟨hthere, hunwanted⟩ := mem_staleIndexes.mp hindex
    obtain ⟨wanted, hwanted, heq⟩ :=
      List.mem_map.mp (h.mem_iff.mp (List.mem_map_of_mem (f := SecondaryIndex.nameAndKey) hthere))
    exact hunwanted wanted hwanted heq
  have hmissing : d.missingIndexes options table = [] := by
    refine List.eq_nil_iff_forall_not_mem.mpr fun index hindex => ?_
    obtain ⟨hwanted, hnew⟩ := mem_missingIndexes.mp hindex
    obtain ⟨current, hcurrent, heq⟩ :=
      List.mem_map.mp (h.mem_iff.mpr (List.mem_map_of_mem (f := SecondaryIndex.nameAndKey) hwanted))
    exact hnew current hcurrent heq
  refine toUpdate_eq_ok.mpr ⟨[], ?_, ?_⟩
  · rw [foundMembers, hmissing]
    rfl
  · rw [hstale, hmissing]
    rfl

/-- An update that brings a table in line. -/
structure Converges (d : TableDescriptor) (options : CodecOptions) (existing : TableDefinition)
    (update : TableUpdate) : Prop where
  /-- What is deleted is deleted before anything is created. -/
  deletesFirst : ∃ (names : List String) (created : List SecondaryIndex), update.globalIndexUpdates =
    names.map GlobalIndexUpdate.delete ++ created.map GlobalIndexUpdate.create
  /-- The changes can be made, what is left is what is wanted, and it needs no update. -/
  inLine : ∃ indexes, update.indexesAfter? existing.globalIndexes = some indexes ∧
    (indexes.map SecondaryIndex.nameAndKey).Perm
      ((d.globalIndexes options).map SecondaryIndex.nameAndKey) ∧
    ∀ table : TableDefinition, table.globalIndexes = indexes →
      d.toUpdate options table = .ok ⟨table.tableName, [], []⟩
  /-- An index that is there as it is wanted is neither deleted nor created. -/
  leavesAlone : ∀ current ∈ existing.globalIndexes, ∀ wanted ∈ d.globalIndexes options,
    current.nameAndKey = wanted.nameAndKey →
      .delete current.indexName ∉ update.globalIndexUpdates ∧
      .create wanted ∉ update.globalIndexUpdates

/-! ### Teams with an owner -/

/-- The owner of a team, who is stored as the team, and another member that is called the team. -/
def sampleTeams (kind : Kind) : Schema where
  typeName := "Teams"
  members :=
    [⟨"id", none, [⟨.primary, .partition, 0, none⟩], false, none, none, ⟨"String", .text, none, none⟩⟩,
      ⟨"owner", some "team", [⟨.globalIndex, .partition, 1, some "by-owner"⟩], false, none, none,
        ⟨"String", .text, none, none⟩⟩,
      ⟨"level", none, [⟨.globalIndex, .partition, 2, some "by-level"⟩], false, none, none,
        ⟨"u32", .number, none, none⟩⟩,
      ⟨"team", some "t", [], false, none, none, ⟨"T", kind, none, none⟩⟩]

/-- The places of the teams. -/
def sampleTeamsTable (kind : Kind) : TableDescriptor where
  schema := sampleTeams kind
  partition := 0
  sort := none
  version := none
  locals := List.replicate maxLocalIndexes .empty
  globals := ⟨some 1, none, some "by-owner"⟩ :: ⟨some 2, none, some "by-level"⟩ ::
    List.replicate 18 .empty

theorem ofSchema_sampleTeams (kind : Kind) :
    ofSchema (sampleTeams kind) = .ok (sampleTeamsTable kind) := by cbv

/-- A table with an index of another key, one that is as it should be, and one that is no more. -/
def sampleTeamsBefore : TableDefinition where
  tableName := "teams"
  keySchema := [⟨"id", .hash⟩]
  attributeDefinitions := [⟨"id", .text⟩, ⟨"day", .text⟩, ⟨"level", .number⟩]
  localIndexes := []
  globalIndexes := [⟨"by-day", [⟨"day", .hash⟩], .all⟩, ⟨"by-level", [⟨"level", .hash⟩], .all⟩,
    ⟨"by-owner", [⟨"day", .hash⟩], .all⟩]
  billingMode := .payPerRequest

/-- The changes of the table where the team is a number: its attribute is defined, not the owner's. -/
def sampleTeamsUpdate : TableUpdate where
  tableName := "teams"
  attributeDefinitions := [⟨"t", .number⟩]
  globalIndexUpdates := [.delete "by-day", .delete "by-owner",
    .create ⟨"by-owner", [⟨"team", .hash⟩], .all⟩]

theorem toUpdate_sampleTeams :
    (sampleTeamsTable .number).toUpdate .initial sampleTeamsBefore = .ok sampleTeamsUpdate := by cbv

/-- There is an update exactly if the first of the members found under each stored name has a type, and
any update brings the table in line. -/
theorem toUpdate_converges (hdesired : ((d.globalIndexes options).map (·.indexName)).Nodup)
    (hexisting : (existing.globalIndexes.map (·.indexName)).Nodup) :
    ((∃ update, d.toUpdate options existing = .ok update) ↔
      ∀ name m, Member.storedAs? options (d.foundMembers options existing) name = some m →
        (m.scalarType? options).isSome) ∧
    ∀ update, d.toUpdate options existing = .ok update →
      d.Converges options existing update := by
  constructor
  · have hdefinitions : (∃ definitions, d.attributeDefinitions options []
        (d.foundMembers options existing) = .ok definitions) ↔
          ∀ name m, Member.storedAs? options (d.foundMembers options existing) name = some m →
            (m.scalarType? options).isSome := by
      simp [exists_attributeDefinitions]
    rw [← hdefinitions]
    constructor
    · rintro ⟨update, h⟩
      obtain ⟨definitions, h, -⟩ := toUpdate_eq_ok.mp h
      exact ⟨definitions, h⟩
    · rintro ⟨definitions, h⟩
      exact ⟨_, toUpdate_eq_ok.mpr ⟨definitions, h, rfl⟩⟩
  · intro update h
    refine ⟨?_, ?_, ?_⟩
    · obtain ⟨definitions, -, rfl⟩ := toUpdate_eq_ok.mp h
      refine ⟨(d.staleIndexes options existing).map (·.indexName),
        d.missingIndexes options existing, ?_⟩
      rw [List.map_map]
      rfl
    · have hperm := nameAndKey_applied_perm hdesired hexisting
      refine ⟨_, indexesAfter?_of_toUpdate hdesired hexisting h, hperm, fun table htable => ?_⟩
      exact toUpdate_of_perm (htable ▸ hperm)
    · intro current hcurrent wanted hwanted heq
      rw [delete_mem_iff h, create_mem_iff h]
      refine ⟨fun hdeleted => ?_, fun hcreated => ?_⟩
      · have hkept : current ∈ d.keptIndexes options existing :=
          (mem_keptIndexes hexisting).mpr ⟨hcurrent, wanted, hwanted, heq.symm⟩
        exact of_decide_eq_true (List.mem_filter.mp hkept).2 hdeleted
      · exact (mem_missingIndexes.mp hcreated).2 current hcurrent heq

/-- Where the team is a number the table is brought in line; where it is a list there is no update,
though nothing is wrong with the indexes. -/
theorem toUpdate_converges_sampleTeams :
    (sampleTeamsTable .number).Converges .initial sampleTeamsBefore sampleTeamsUpdate ∧
      ofSchema (sampleTeams .list) = .ok (sampleTeamsTable .list) ∧
      ¬ ∃ update, (sampleTeamsTable .list).toUpdate .initial sampleTeamsBefore = .ok update := by
  have hdesired : ∀ kind,
      (((sampleTeamsTable kind).globalIndexes .initial).map (·.indexName)).Nodup := by
    intro kind
    have hnames : ((sampleTeamsTable kind).globalIndexes .initial).map (·.indexName) =
        ["by-owner", "by-level"] := by cbv
    rw [hnames]
    decide
  have hexisting : (sampleTeamsBefore.globalIndexes.map (·.indexName)).Nodup := by decide
  refine ⟨(toUpdate_converges (hdesired .number) hexisting).2 _ toUpdate_sampleTeams,
    ofSchema_sampleTeams .list, fun hupdate => ?_⟩
  have htypes := (toUpdate_converges (hdesired .list) hexisting).1.mp hupdate
  have hfound : Member.storedAs? .initial
      ((sampleTeamsTable .list).foundMembers .initial sampleTeamsBefore) "t" =
        (sampleTeams .list).members[3]? := by cbv
  exact absurd (htypes "t" _ hfound) (by decide)

end TableDescriptor

end ItemMapper
