import ItemMapper.Proofs.Computation
import ItemMapper.Table.Resolution

/-!
# The keys of a table

A table has its own key, one for each local index and one for each global index. The choice of a key
for two members yields one of them, and its partition and sort members are the two, in one of the two
orders.

## Main definitions

* `TableDescriptor.keys`: the keys of a table.
* `TableDescriptor.keyPartition?`, `TableDescriptor.keySort?`: the members of a key.

## Main statements

* `TableDescriptor.mem_partitionRoles`: the keys with some partition member.
* `TableDescriptor.keyOf?_eq_some`: the key that is chosen.
* `TableDescriptor.indexName?_eq_none`: only the table's own key has no index name.
-/

namespace ItemMapper.TableDescriptor

/-- The keys of a table: its own, then those of local and of global indexes. -/
def keys (d : TableDescriptor) : List KeyChoice :=
  .table :: ((d.localOrdinals.map fun o => ⟨.localIndex, o⟩) ++
    d.globalOrdinals.map fun o => ⟨.globalIndex, o⟩)

/-- The position of the partition member of a key. -/
def keyPartition? (d : TableDescriptor) (key : KeyChoice) : Option Nat :=
  match key.kind with
  | .primary | .localIndex => some d.partition
  | .globalIndex => d.globalPartition? key.ordinal

/-- The position of the sort member of a key, if it has one. -/
def keySort? (d : TableDescriptor) (key : KeyChoice) : Option Nat :=
  match key.kind with
  | .primary => d.sort
  | .localIndex => d.localSort? key.ordinal
  | .globalIndex => d.globalSort? key.ordinal

variable {d : TableDescriptor} {key : KeyChoice}

/-- **The roles of a member as a partition are the keys whose partition it is.** -/
theorem mem_partitionRoles {position : Nat} :
    key ∈ d.partitionRoles position ↔ key ∈ d.keys ∧ d.keyPartition? key = some position := by
  constructor
  · intro h
    rcases List.mem_append.mp h with hown | hglobal
    · by_cases hposition : position = d.partition
      · rw [if_pos hposition] at hown
        rcases List.mem_cons.mp hown with rfl | hlocal
        · exact ⟨List.mem_cons_self, congrArg some hposition.symm⟩
        · obtain ⟨o, ho, rfl⟩ := List.mem_map.mp hlocal
          refine ⟨List.mem_cons_of_mem _ (List.mem_append_left _ ?_),
            congrArg some hposition.symm⟩
          exact List.mem_map.mpr ⟨o, ho, rfl⟩
      · rw [if_neg hposition] at hown
        cases hown
    · obtain ⟨o, ho, rfl⟩ := List.mem_map.mp hglobal
      obtain ⟨ho, hpartition⟩ := List.mem_filter.mp ho
      refine ⟨List.mem_cons_of_mem _ (List.mem_append_right _ ?_), beq_iff_eq.mp hpartition⟩
      exact List.mem_map.mpr ⟨o, ho, rfl⟩
  · rintro ⟨h, hpartition⟩
    rcases List.mem_cons.mp h with rfl | h
    · cases hpartition
      refine List.mem_append_left _ ?_
      rw [if_pos rfl]
      exact List.mem_cons_self
    · rcases List.mem_append.mp h with h | h
      · obtain ⟨o, ho, rfl⟩ := List.mem_map.mp h
        cases hpartition
        refine List.mem_append_left _ ?_
        rw [if_pos rfl]
        exact List.mem_cons_of_mem _ (List.mem_map.mpr ⟨o, ho, rfl⟩)
      · obtain ⟨o, ho, rfl⟩ := List.mem_map.mp h
        refine List.mem_append_right _ (List.mem_map.mpr ⟨o, List.mem_filter.mpr ⟨ho, ?_⟩, rfl⟩)
        exact beq_iff_eq.mpr hpartition

theorem sorts_eq_true {position : Nat} :
    d.sorts position key = true ↔ d.keySort? key = some position := by
  obtain ⟨kind, o⟩ := key
  cases kind with
  | primary => exact beq_iff_eq
  | localIndex => exact beq_iff_eq
  | globalIndex => exact beq_iff_eq

/-- The key for a partition and a sort member has them as its members. -/
theorem matchingKey?_eq_some {partition sort : Nat} (h : d.matchingKey? partition sort = some key) :
    key ∈ d.keys ∧ d.keyPartition? key = some partition ∧ d.keySort? key = some sort := by
  obtain ⟨hkey, hpartition⟩ := mem_partitionRoles.mp (List.mem_of_find?_eq_some h)
  exact ⟨hkey, hpartition, sorts_eq_true.mp (List.find?_some h)⟩

/-- **The key that is chosen**: its partition is the first member, or the second one where the first is
then the sort member. -/
theorem keyOf?_eq_some {first : Nat} {second : Option Nat} (h : d.keyOf? first second = some key) :
    key ∈ d.keys ∧
      (d.keyPartition? key = some first ∧ (∀ sort, second = some sort → d.keySort? key = some sort) ∨
        ∃ partition, second = some partition ∧ d.keyPartition? key = some partition ∧
          d.keySort? key = some first) := by
  unfold keyOf? at h
  split at h
  · obtain ⟨hkey, hpartition⟩ := mem_partitionRoles.mp (List.mem_of_mem_head? h)
    exact ⟨hkey, .inl ⟨hpartition, nofun⟩⟩
  · rename_i second
    split at h
    · rename_i found hfound
      cases h
      obtain ⟨hkey, hpartition, hsort⟩ := matchingKey?_eq_some hfound
      refine ⟨hkey, .inl ⟨hpartition, fun sort heq => ?_⟩⟩
      cases heq
      exact hsort
    · obtain ⟨hkey, hpartition, hsort⟩ := matchingKey?_eq_some h
      exact ⟨hkey, .inr ⟨second, rfl, hpartition, hsort⟩⟩

/-- **Only the table's own key has no index name.** -/
theorem indexName?_eq_none (h : key ∈ d.keys) : d.indexName? key = none ↔ key = .table := by
  rcases List.mem_cons.mp h with rfl | h
  · exact iff_of_true rfl rfl
  · rcases List.mem_append.mp h with h | h
    · obtain ⟨o, ho, rfl⟩ := List.mem_map.mp h
      have hsort : (d.localSort? o).isSome = true := (List.mem_filter.mp ho).2
      refine iff_of_false ?_ nofun
      rw [indexName?, localIndexName?, Option.map_eq_none_iff]
      exact Option.isSome_iff_ne_none.mp hsort
    · obtain ⟨o, ho, rfl⟩ := List.mem_map.mp h
      have hpartition : (d.globalPartition? o).isSome = true := (List.mem_filter.mp ho).2
      refine iff_of_false ?_ nofun
      rw [indexName?, globalIndexName?, Option.map_eq_none_iff]
      exact Option.isSome_iff_ne_none.mp hpartition

/-- The index that two members resolve to is that of a key with these members. -/
theorem resolve_eq_ok {partition : String} {sort index : Option String}
    (h : d.resolve partition sort = .ok index) :
    ∃ first second, d.position partition = .ok first ∧
      (sort = none ∧ second = none ∨
        ∃ name i, sort = some name ∧ d.position name = .ok i ∧ second = some i) ∧
      ∃ key, d.keyOf? first second = some key ∧ d.indexName? key = index := by
  obtain ⟨first, hfirst, h⟩ := except_bind_eq_ok.mp h
  cases sort with
  | none =>
    obtain ⟨second, hsecond, h⟩ := except_bind_eq_ok.mp h
    cases hsecond
    dsimp only at h
    split at h
    · rename_i key hkey
      cases h
      exact ⟨first, none, hfirst, .inl ⟨rfl, rfl⟩, key, hkey, rfl⟩
    · cases h
  | some name =>
    obtain ⟨second, hsecond, h⟩ := except_bind_eq_ok.mp h
    obtain ⟨i, hi, rfl⟩ := except_map_eq_ok.mp hsecond
    dsimp only at h
    split at h
    · rename_i key hkey
      cases h
      exact ⟨first, some i, hfirst, .inr ⟨name, i, rfl, hi, rfl⟩, key, hkey, rfl⟩
    · cases h

end ItemMapper.TableDescriptor
