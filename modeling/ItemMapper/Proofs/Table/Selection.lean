import Mathlib
import ItemMapper.Proofs.Table.Definitions
import ItemMapper.Proofs.Table.Resolution

/-!
# Which index is selected

The keys of a table stand in an order: its own, then those of local indexes, then those of global ones,
each kind by ordinal. Two members are looked for as partition and sort in the order in which they are
given, and only if no key has them so they are looked for the other way round; the first key that is
found is selected. Every key other than the table's own is that of an index in the definition of the
table. Where each of two members is the partition of one key and the sort of another, the selection
depends on the order in which they are given.

## Main definitions

* `KeyChoice.Precedes`: the order of keys.
* `TableDescriptor.IsFirst`: the first of the keys with a property.
* `TableDescriptor.Pairs`: a key with a partition and a sort member.
* `TableDescriptor.indexOf?`: the index of a key.

## Main statements

* `TableDescriptor.matchingKey?_eq_some_iff`: the key that is found for two members in one order.
* `TableDescriptor.mem_indexes_iff`: the indexes of the definition are those of the keys.
-/

namespace ItemMapper

/-- The place of a kind in the order of keys. -/
def IndexKind.rank : IndexKind → Nat
  | .primary => 0
  | .localIndex => 1
  | .globalIndex => 2

/-- The first key is preferred to the second: keys of local indexes come after the table's own and before
those of global indexes, and keys of one kind come by their ordinals. -/
def KeyChoice.Precedes (a b : KeyChoice) : Prop :=
  a.kind.rank < b.kind.rank ∨ a.kind = b.kind ∧ a.ordinal < b.ordinal

theorem KeyChoice.Precedes.asymm {a b : KeyChoice} (h : a.Precedes b) : ¬b.Precedes a := by
  rcases h with h | ⟨hkind, h⟩
  · rintro (h' | ⟨hkind, -⟩)
    · omega
    · rw [hkind] at h
      omega
  · rintro (h' | ⟨-, h'⟩)
    · rw [hkind] at h'
      omega
    · omega

/-- In a list in which some elements come before others, the first with a property is found. -/
theorem find?_eq_some_iff_of_pairwise {α : Type} {before : α → α → Prop}
    (hasymm : ∀ a b, before a b → ¬before b a) {l : List α} (hl : l.Pairwise before) {p : α → Bool}
    {a : α} :
    l.find? p = some a ↔ a ∈ l ∧ p a = true ∧ ∀ b ∈ l, p b = true → b = a ∨ before a b := by
  induction l with
  | nil => exact iff_of_false nofun nofun
  | cons x rest ih =>
    rw [List.pairwise_cons] at hl
    rw [List.find?_cons]
    cases hx : p x with
    | true =>
      dsimp only
      constructor
      · rintro ⟨⟩
        refine ⟨List.mem_cons_self, hx, fun b hb _ => ?_⟩
        rcases List.mem_cons.mp hb with rfl | hb
        · exact .inl rfl
        · exact .inr (hl.1 b hb)
      · rintro ⟨ha, -, hfirst⟩
        rcases hfirst x List.mem_cons_self hx with rfl | hbefore
        · rfl
        · rcases List.mem_cons.mp ha with rfl | ha
          · rfl
          · exact absurd hbefore (hasymm _ _ (hl.1 a ha))
    | false =>
      dsimp only
      rw [ih hl.2]
      constructor
      · rintro ⟨ha, hpa, hfirst⟩
        refine ⟨List.mem_cons_of_mem x ha, hpa, fun b hb hpb => ?_⟩
        rcases List.mem_cons.mp hb with rfl | hb
        · exact absurd hpb (by rw [hx]; nofun)
        · exact hfirst b hb hpb
      · rintro ⟨ha, hpa, hfirst⟩
        rcases List.mem_cons.mp ha with rfl | ha
        · exact absurd hpa (by rw [hx]; nofun)
        · exact ⟨ha, hpa, fun b hb hpb => hfirst b (List.mem_cons_of_mem x hb) hpb⟩

namespace TableDescriptor

variable {s : Schema} {d : TableDescriptor} {key : KeyChoice} {p q : Nat}

/-! ### The order of keys -/

/-- The first of the keys with a property. -/
structure IsFirst (d : TableDescriptor) (has : KeyChoice → Prop) (key : KeyChoice) : Prop where
  mem : key ∈ d.keys
  holds : has key
  first : ∀ other ∈ d.keys, has other → other = key ∨ key.Precedes other

/-- The key has its partition member at one position and its sort member at another. -/
def Pairs (d : TableDescriptor) (p q : Nat) (key : KeyChoice) : Prop :=
  d.keyPartition? key = some p ∧ d.keySort? key = some q

theorem IsFirst.unique {has : KeyChoice → Prop} {other : KeyChoice} (h : d.IsFirst has key)
    (hother : d.IsFirst has other) : key = other := by
  rcases h.first other hother.mem hother.holds with heq | hbefore
  · exact heq.symm
  · rcases hother.first key h.mem h.holds with heq | hafter
    · exact heq
    · exact absurd hafter hbefore.asymm

theorem pairwise_ordinals (count : Nat) (wanted : Nat → Bool) :
    (((List.range count).map (· + 1)).filter wanted).Pairwise (· < ·) := by
  refine List.Pairwise.filter _ (List.pairwise_map.mpr ?_)
  exact List.pairwise_lt_range.imp fun h => by omega

/-- The keys stand in their order. -/
theorem pairwise_keys (d : TableDescriptor) : d.keys.Pairwise KeyChoice.Precedes := by
  have hkind : ∀ (kind : IndexKind) (ordinals : List Nat), ordinals.Pairwise (· < ·) →
      (ordinals.map fun o => KeyChoice.mk kind o).Pairwise KeyChoice.Precedes := by
    intro kind ordinals hordinals
    exact List.pairwise_map.mpr (hordinals.imp fun h => .inr ⟨rfl, h⟩)
  refine List.pairwise_cons.mpr ⟨fun key hkey => ?_, List.pairwise_append.mpr ⟨?_, ?_, ?_⟩⟩
  · rcases List.mem_append.mp hkey with h | h
    · obtain ⟨o, -, rfl⟩ := List.mem_map.mp h
      exact .inl Nat.zero_lt_one
    · obtain ⟨o, -, rfl⟩ := List.mem_map.mp h
      exact .inl Nat.zero_lt_two
  · exact hkind .localIndex _ (pairwise_ordinals _ _)
  · exact hkind .globalIndex _ (pairwise_ordinals _ _)
  · intro a ha b hb
    obtain ⟨o, -, rfl⟩ := List.mem_map.mp ha
    obtain ⟨o', -, rfl⟩ := List.mem_map.mp hb
    exact .inl Nat.one_lt_two

/-- The first key with a property is found. -/
theorem find?_keys_eq_some_iff {test : KeyChoice → Bool} {has : KeyChoice → Prop}
    (htest : ∀ key, test key = true ↔ has key) :
    d.keys.find? test = some key ↔ d.IsFirst has key := by
  rw [find?_eq_some_iff_of_pairwise (fun _ _ h => h.asymm) d.pairwise_keys]
  simp only [htest]
  exact ⟨fun h => ⟨h.1, h.2.1, h.2.2⟩, fun h => ⟨h.mem, h.holds, h.first⟩⟩

/-! ### Keys with given members -/

/-- The roles of a member as a partition are the keys that it is the partition of, in their order. -/
theorem partitionRoles_eq (d : TableDescriptor) (p : Nat) :
    d.partitionRoles p = d.keys.filter (d.keyPartition? · == some p) := by
  have hglobal : (d.globalOrdinals.map fun o => KeyChoice.mk .globalIndex o).filter
      (d.keyPartition? · == some p) =
        (d.globalOrdinals.filter fun o => d.globalPartition? o == some p).map fun o =>
          KeyChoice.mk .globalIndex o := List.filter_map
  have hlocal : (d.localOrdinals.map fun o => KeyChoice.mk .localIndex o).filter
      (d.keyPartition? · == some p) =
        if p = d.partition then d.localOrdinals.map fun o => KeyChoice.mk .localIndex o else [] := by
    split
    next h => 
      subst h
      refine List.filter_eq_self.mpr fun key hkey => ?_
      obtain ⟨o, -, rfl⟩ := List.mem_map.mp hkey
      exact beq_self_eq_true _
    next h =>
      refine List.filter_eq_nil_iff.mpr fun key hkey => ?_
      obtain ⟨o, -, rfl⟩ := List.mem_map.mp hkey
      exact fun heq => h (Option.some.inj (beq_iff_eq.mp heq)).symm
  have htable : (d.keyPartition? .table == some p) = decide (p = d.partition) := by
    rw [Bool.eq_iff_iff, beq_iff_eq, decide_eq_true_iff, eq_comm]
    exact Option.some_inj
  rw [partitionRoles, keys, List.filter_cons, List.filter_append, hglobal, hlocal, htable]
  by_cases h : p = d.partition
  · simp [h]
  · simp [h]

theorem test_pairs_iff :
    decide ((d.keyPartition? key == some p) = true ∧ d.sorts q key = true) = true ↔
      d.Pairs p q key := by
  rw [decide_eq_true_iff, beq_iff_eq, sorts_eq_true]
  rfl

/-- The key that two members are the partition and the sort of is the first such key. -/
theorem matchingKey?_eq_some_iff : d.matchingKey? p q = some key ↔ d.IsFirst (d.Pairs p q) key := by
  rw [matchingKey?, partitionRoles_eq, List.find?_filter]
  exact find?_keys_eq_some_iff fun key => test_pairs_iff

theorem matchingKey?_eq_none_iff :
    d.matchingKey? p q = none ↔ ∀ key ∈ d.keys, ¬d.Pairs p q key := by
  rw [matchingKey?, partitionRoles_eq, List.find?_filter, List.find?_eq_none]
  exact forall₂_congr fun key _ => not_congr test_pairs_iff

/-- The key of two members is the first with the first of them as partition and the second as sort, or
if there is none such the first that has them the other way round. -/
theorem keyOf?_some_eq_some_iff :
    d.keyOf? p (some q) = some key ↔
      d.IsFirst (d.Pairs p q) key ∨
        (∀ other ∈ d.keys, ¬d.Pairs p q other) ∧ d.IsFirst (d.Pairs q p) key := by
  rw [← matchingKey?_eq_some_iff, ← matchingKey?_eq_some_iff, ← matchingKey?_eq_none_iff]
  unfold keyOf?
  dsimp only
  cases d.matchingKey? p q with
  | some found => simp
  | none => simp

theorem keyOf?_some_eq_none_iff :
    d.keyOf? p (some q) = none ↔ ∀ key ∈ d.keys, ¬d.Pairs p q key ∧ ¬d.Pairs q p key := by
  simp only [forall_and, ← matchingKey?_eq_none_iff]
  unfold keyOf?
  dsimp only
  cases d.matchingKey? p q with
  | some found => simp
  | none => simp

/-- The key of one member is the first that it is the partition of. -/
theorem keyOf?_none_eq_some_iff :
    d.keyOf? p none = some key ↔ d.IsFirst (d.keyPartition? · = some p) key := by
  rw [keyOf?, partitionRoles_eq, List.head?_filter]
  exact find?_keys_eq_some_iff fun key => beq_iff_eq

theorem keyOf?_none_eq_none_iff :
    d.keyOf? p none = none ↔ ∀ key ∈ d.keys, d.keyPartition? key ≠ some p := by
  rw [keyOf?, partitionRoles_eq, List.head?_filter, List.find?_eq_none]
  exact forall₂_congr fun key _ => not_congr beq_iff_eq

/-! ### Indexes of keys -/

/-- The index of a key; the table's own key has none. -/
def indexOf? (d : TableDescriptor) (options : CodecOptions) (key : KeyChoice) :
    Option SecondaryIndex := do
  let partition ← d.keyPartition? key
  let name ← d.indexName? key
  pure ⟨name,
    keySchema options (d.memberAt partition) ((d.keySort? key).map d.memberAt), .all⟩

theorem indexOf?_local (d : TableDescriptor) (options : CodecOptions) (ordinal : Nat) :
    (do
      let sort ← d.localSort? ordinal
      let name ← d.localIndexName? ordinal
      pure (⟨name, keySchema options d.partitionMember (some (d.memberAt sort)), .all⟩ :
        SecondaryIndex)) = d.indexOf? options ⟨.localIndex, ordinal⟩ := by
  have hsort : d.keySort? ⟨.localIndex, ordinal⟩ = d.localSort? ordinal := rfl
  have hname : d.indexName? ⟨.localIndex, ordinal⟩ = d.localIndexName? ordinal := rfl
  rw [indexOf?, hsort, hname, localIndexName?]
  cases d.localSort? ordinal <;> rfl

/-- The indexes of the table are those of its keys, in their order. -/
theorem indexes_eq (d : TableDescriptor) (options : CodecOptions) :
    d.localIndexes options ++ d.globalIndexes options = d.keys.filterMap (d.indexOf? options) := by
  rw [keys, List.filterMap_cons_none rfl, List.filterMap_append, List.filterMap_map,
    List.filterMap_map, localIndexes, globalIndexes]
  congr 1
  exact congrArg (d.localOrdinals.filterMap ·) (funext (d.indexOf?_local options))

/-- The definition of the table has the index of each of its keys, and no others. -/
theorem mem_indexes_iff {options : CodecOptions} {tableName : String} {definition : TableDefinition}
    (h : d.toDefinition options tableName = .ok definition) {index : SecondaryIndex} :
    index ∈ definition.localIndexes ++ definition.globalIndexes ↔
      ∃ key ∈ d.keys, d.indexOf? options key = some index := by
  obtain ⟨definitions, -, heq⟩ := except_bind_eq_ok.mp h
  cases heq
  rw [indexes_eq, List.mem_filterMap]

/-! ### Selection -/

/-- Two declared members select the index of their key. -/
theorem resolve_some_eq {first second : String} (hp : d.position first = .ok p)
    (hq : d.position second = .ok q) :
    d.resolve first (some second) =
      match d.keyOf? p (some q) with
      | some key => .ok (d.indexName? key)
      | none => .error (Cause.keyIndexMismatch first second) := by
  simp only [resolve, hp, hq]
  rfl

/-- One declared member selects the index of its key. -/
theorem resolve_none_eq {first : String} (hp : d.position first = .ok p) :
    d.resolve first none =
      match d.keyOf? p none with
      | some key => .ok (d.indexName? key)
      | none => .error (Cause.keyIndexMismatch first "<none>") := by
  simp only [resolve, hp]
  rfl

theorem resolve_some_eq_ok_iff {first second : String} (hp : d.position first = .ok p)
    (hq : d.position second = .ok q) {answer : Option String} :
    d.resolve first (some second) = .ok answer ↔
      ∃ key, d.keyOf? p (some q) = some key ∧ d.indexName? key = answer := by
  rw [resolve_some_eq hp hq]
  cases d.keyOf? p (some q) <;> simp

theorem resolve_some_eq_error_iff {first second : String} (hp : d.position first = .ok p)
    (hq : d.position second = .ok q) {e : Error} :
    d.resolve first (some second) = .error e ↔
      e = Cause.keyIndexMismatch first second ∧
        ∀ key ∈ d.keys, ¬d.Pairs p q key ∧ ¬d.Pairs q p key := by
  rw [resolve_some_eq hp hq, ← keyOf?_some_eq_none_iff]
  cases d.keyOf? p (some q) with
  | none => simp [eq_comm]
  | some key => simp

theorem resolve_none_eq_ok_iff {first : String} (hp : d.position first = .ok p)
    {answer : Option String} :
    d.resolve first none = .ok answer ↔
      ∃ key, d.keyOf? p none = some key ∧ d.indexName? key = answer := by
  rw [resolve_none_eq hp]
  cases d.keyOf? p none <;> simp

theorem resolve_none_eq_error_iff {first : String} (hp : d.position first = .ok p) {e : Error} :
    d.resolve first none = .error e ↔
      e = Cause.keyIndexMismatch first "<none>" ∧
        ∀ key ∈ d.keys, d.keyPartition? key ≠ some p := by
  rw [resolve_none_eq hp, ← keyOf?_none_eq_none_iff]
  cases d.keyOf? p none with
  | none => simp [eq_comm]
  | some key => simp

/-- A key other than the table's own belongs to an index in the definition. -/
theorem exists_index_of_name {options : CodecOptions} {tableName : String}
    {definition : TableDefinition} (h : d.toDefinition options tableName = .ok definition)
    (hkey : key ∈ d.keys) {name : String} (hname : d.indexName? key = some name)
    (hp : d.keyPartition? key = some p) :
    ∃ index ∈ definition.localIndexes ++ definition.globalIndexes,
      d.indexOf? options key = some index ∧ index.indexName = name ∧
        index.keySchema =
          keySchema options (d.memberAt p) ((d.keySort? key).map d.memberAt) := by
  refine ⟨⟨name, keySchema options (d.memberAt p) ((d.keySort? key).map d.memberAt), .all⟩, ?_⟩
  have hindex : d.indexOf? options key =
      some ⟨name, keySchema options (d.memberAt p) ((d.keySort? key).map d.memberAt), .all⟩ := by
    rw [indexOf?, hp, hname]
    rfl
  exact ⟨(mem_indexes_iff h).mpr ⟨key, hkey, hindex⟩, hindex, rfl, rfl⟩

/-- No key precedes the table's own. -/
theorem not_precedes_table : ¬key.Precedes .table := by
  rintro (h | ⟨-, h⟩)
  · exact Nat.not_lt_zero _ h
  · exact Nat.not_lt_zero _ h

theorem table_mem_keys : .table ∈ d.keys := List.mem_cons_self

theorem global_mem_keys_iff {ordinal : Nat} :
    ⟨.globalIndex, ordinal⟩ ∈ d.keys ↔ ordinal ∈ d.globalOrdinals := by
  simp [keys, KeyChoice.table]

/-- The first key that a member is the partition of is the table's own, or that of the global index with
the lowest ordinal. -/
theorem isFirst_keyPartition_iff :
    d.IsFirst (d.keyPartition? · = some p) key ↔
      p = d.partition ∧ key = .table ∨
        p ≠ d.partition ∧ ∃ ordinal ∈ d.globalOrdinals, key = ⟨.globalIndex, ordinal⟩ ∧
          d.globalPartition? ordinal = some p ∧
            ∀ other ∈ d.globalOrdinals, d.globalPartition? other = some p → ordinal ≤ other := by
  constructor
  · intro h
    by_cases hp : p = d.partition
    · refine .inl ⟨hp, ?_⟩
      rcases h.first .table table_mem_keys (congrArg some hp.symm) with heq | hbefore
      · exact heq.symm
      · exact absurd hbefore not_precedes_table
    · refine .inr ⟨hp, ?_⟩
      obtain ⟨kind, ordinal⟩ := key
      have hholds := h.holds
      cases kind with
      | primary | localIndex => exact absurd (Option.some.inj hholds).symm hp
      | globalIndex =>
        refine ⟨ordinal, global_mem_keys_iff.mp h.mem, rfl, hholds, fun other hother hpart => ?_⟩
        rcases h.first ⟨.globalIndex, other⟩ (global_mem_keys_iff.mpr hother) hpart with
          heq | hbefore | ⟨-, hbefore⟩
        · cases heq
          exact Nat.le_refl _
        · exact absurd hbefore (Nat.lt_irrefl _)
        · exact Nat.le_of_lt hbefore
  · rintro (⟨rfl, rfl⟩ | ⟨hp, ordinal, hordinal, rfl, hpart, hlowest⟩)
    · refine ⟨table_mem_keys, rfl, fun other hother _ => ?_⟩
      rcases List.mem_cons.mp hother with rfl | hother
      · exact .inl rfl
      · exact .inr ((List.pairwise_cons.mp d.pairwise_keys).1 other hother)
    · refine ⟨global_mem_keys_iff.mpr hordinal, hpart, fun other hother hsame => ?_⟩
      obtain ⟨kind, o⟩ := other
      cases kind with
      | primary | localIndex => exact absurd (Option.some.inj hsame).symm hp
      | globalIndex =>
        rcases Nat.eq_or_lt_of_le (hlowest o (global_mem_keys_iff.mp hother) hsame) with rfl | hlt
        · exact .inl rfl
        · exact .inr (.inr ⟨rfl, hlt⟩)

/-- What two declared members, or the first of them alone, select from a table with a definition. -/
structure Selects (d : TableDescriptor) (options : CodecOptions) (definition : TableDefinition)
    (first second : String) (p q : Nat) : Prop where
  /-- Only the members of its own key select the table. -/
  table : d.resolve first (some second) = .ok none → d.Pairs p q .table ∨ d.Pairs q p .table
  /-- What is selected by name is an index in the definition with the two members as its key. -/
  index : ∀ name, d.resolve first (some second) = .ok (some name) →
    ∃ index ∈ definition.localIndexes ++ definition.globalIndexes, index.indexName = name ∧
      ∃ key, d.indexOf? options key = some index ∧
        (d.Pairs p q key ∧ index.keySchema =
            keySchema options (d.memberAt p) (some (d.memberAt q)) ∨
          d.Pairs q p key ∧ index.keySchema =
            keySchema options (d.memberAt q) (some (d.memberAt p)))
  /-- Nothing is selected only where no key has the two members. -/
  mismatch : ∀ e, d.resolve first (some second) = .error e ↔
    e = Cause.keyIndexMismatch first second ∧
      ∀ key ∈ d.keys, ¬d.Pairs p q key ∧ ¬d.Pairs q p key
  /-- Keys with the members in the given order are preferred to those that have them in the other, and
  among keys with the same order the first is selected. -/
  order : ∀ answer, d.resolve first (some second) = .ok answer ↔
    ∃ key, d.indexName? key = answer ∧
      (d.IsFirst (d.Pairs p q) key ∨
        (∀ other ∈ d.keys, ¬d.Pairs p q other) ∧ d.IsFirst (d.Pairs q p) key)
  /-- The first key with the two members in any order is selected, unless it has them in the other order
  and a later one has them in the given order. -/
  preferred : ∀ key, d.IsFirst (fun key => d.Pairs p q key ∨ d.Pairs q p key) key →
    (d.Pairs p q key ∨ ∀ other ∈ d.keys, ¬d.Pairs p q other) →
      d.resolve first (some second) = .ok (d.indexName? key)
  /-- Alone, the partition of the table selects it, and another member selects the first global index of
  which it is the partition. -/
  alone : ∀ answer, d.resolve first none = .ok answer ↔
    p = d.partition ∧ answer = none ∨
      p ≠ d.partition ∧ ∃ ordinal ∈ d.globalOrdinals, d.globalIndexName? ordinal = answer ∧
        d.globalPartition? ordinal = some p ∧
          ∀ other ∈ d.globalOrdinals, d.globalPartition? other = some p → ordinal ≤ other
  /-- Alone, a member selects nothing only where it is the partition of no key. -/
  alone_mismatch : ∀ e, d.resolve first none = .error e ↔
    e = Cause.keyIndexMismatch first "<none>" ∧ ∀ key ∈ d.keys, d.keyPartition? key ≠ some p

/-- The key that two members select is one of the two, in one of the two orders. -/
theorem pairs_of_keyOf? (h : d.keyOf? p (some q) = some key) :
    key ∈ d.keys ∧ (d.Pairs p q key ∨ d.Pairs q p key) := by
  rcases keyOf?_some_eq_some_iff.mp h with hfirst | ⟨-, hfirst⟩
  · exact ⟨hfirst.mem, .inl hfirst.holds⟩
  · exact ⟨hfirst.mem, .inr hfirst.holds⟩

/-- The first key with two members in any order is selected, unless it has them in the other order and
another key has them in the given one. -/
theorem keyOf?_of_isFirst
    (hfirst : d.IsFirst (fun key => d.Pairs p q key ∨ d.Pairs q p key) key)
    (hgiven : d.Pairs p q key ∨ ∀ other ∈ d.keys, ¬d.Pairs p q other) :
    d.keyOf? p (some q) = some key := by
  refine keyOf?_some_eq_some_iff.mpr ?_
  rcases hgiven with hpairs | hnone
  · exact .inl ⟨hfirst.mem, hpairs, fun other hother h => hfirst.first other hother (.inl h)⟩
  · refine .inr ⟨hnone, hfirst.mem, hfirst.holds.resolve_left (hnone key hfirst.mem), ?_⟩
    exact fun other hother h => hfirst.first other hother (.inr h)

/-- **The selection of an index** is sound and complete for the definition of the table. -/
theorem exists_definition_selects (h : ofSchema s = .ok d) (options : CodecOptions)
    (tableName : String) {first second : String} (hp : d.position first = .ok p)
    (hq : d.position second = .ok q) :
    ∃ definition, d.toDefinition options tableName = .ok definition ∧
      d.Selects options definition first second p q := by
  obtain ⟨definition, hdefinition, -⟩ := exists_toDefinition h options tableName
  refine ⟨definition, hdefinition, ?_⟩
  constructor
  case table =>
    intro hanswer
    obtain ⟨key, hkey, hname⟩ := (resolve_some_eq_ok_iff hp hq).mp hanswer
    obtain ⟨hmem, hpairs⟩ := pairs_of_keyOf? hkey
    obtain rfl := (indexName?_eq_none hmem).mp hname
    exact hpairs
  case index =>
    intro name hanswer
    obtain ⟨key, hkey, hname⟩ := (resolve_some_eq_ok_iff hp hq).mp hanswer
    obtain ⟨hmem, hpairs⟩ := pairs_of_keyOf? hkey
    rcases hpairs with hpairs | hpairs
    · obtain ⟨index, hindex, hkeyed, hnamed, hschema⟩ :=
        exists_index_of_name hdefinition hmem hname hpairs.1
      rw [hpairs.2] at hschema
      exact ⟨index, hindex, hnamed, key, hkeyed, .inl ⟨hpairs, hschema⟩⟩
    · obtain ⟨index, hindex, hkeyed, hnamed, hschema⟩ :=
        exists_index_of_name hdefinition hmem hname hpairs.1
      rw [hpairs.2] at hschema
      exact ⟨index, hindex, hnamed, key, hkeyed, .inr ⟨hpairs, hschema⟩⟩
  case mismatch => exact fun e => resolve_some_eq_error_iff hp hq
  case order =>
    intro answer
    rw [resolve_some_eq_ok_iff hp hq]
    simp only [keyOf?_some_eq_some_iff, and_comm]
  case preferred =>
    intro key hfirst hgiven
    exact (resolve_some_eq_ok_iff hp hq).mpr ⟨key, keyOf?_of_isFirst hfirst hgiven, rfl⟩
  case alone =>
    intro answer
    rw [resolve_none_eq_ok_iff hp]
    simp only [keyOf?_none_eq_some_iff, isFirst_keyPartition_iff]
    constructor
    · rintro ⟨_, ⟨hown, rfl⟩ | ⟨hother, ordinal, hordinal, rfl, hpart, hlowest⟩, rfl⟩
      · exact .inl ⟨hown, rfl⟩
      · exact .inr ⟨hother, ordinal, hordinal, rfl, hpart, hlowest⟩
    · rintro (⟨hown, rfl⟩ | ⟨hother, ordinal, hordinal, rfl, hpart, hlowest⟩)
      · exact ⟨_, .inl ⟨hown, rfl⟩, rfl⟩
      · exact ⟨_, .inr ⟨hother, ordinal, hordinal, rfl, hpart, hlowest⟩, rfl⟩
  case alone_mismatch => exact fun e => resolve_none_eq_error_iff hp

/-! ### Members that are each the partition of the other -/

/-- Matches between teams, with an index that has the members of the table's key the other way round. -/
def sampleMatches : Schema where
  typeName := "Matches"
  members :=
    [⟨"home", none, [⟨.primary, .partition, 0, none⟩, ⟨.globalIndex, .sort, 1, none⟩], false, none,
        none, ⟨"String", .text, none, none⟩⟩,
      ⟨"away", none, [⟨.primary, .sort, 0, none⟩, ⟨.globalIndex, .partition, 1, none⟩], false, none,
        none, ⟨"String", .text, none, none⟩⟩]

/-- The places of the teams. -/
def sampleMatchesTable : TableDescriptor where
  schema := sampleMatches
  partition := 0
  sort := some 1
  version := none
  locals := List.replicate maxLocalIndexes .empty
  globals := ⟨some 1, some 0, none⟩ :: List.replicate 19 .empty

theorem ofSchema_sampleMatches : ofSchema sampleMatches = .ok sampleMatchesTable := by cbv

theorem position_sampleMatches :
    sampleMatchesTable.position "home" = .ok 0 ∧ sampleMatchesTable.position "away" = .ok 1 := by
  constructor <;> cbv

/-- The away team and the home team select the index, though the key of the table has both. -/
theorem exists_definition_selects_sampleMatches :
    (∃ definition, sampleMatchesTable.toDefinition .initial "matches" = .ok definition ∧
      sampleMatchesTable.Selects .initial definition "away" "home" 1 0) ∧
      sampleMatchesTable.Pairs 0 1 .table ∧
      sampleMatchesTable.resolve "away" (some "home") = .ok (some "gsi-1-away-home") := by
  obtain ⟨hhome, haway⟩ := position_sampleMatches
  refine ⟨?_, ⟨rfl, rfl⟩, by cbv⟩
  exact exists_definition_selects ofSchema_sampleMatches .initial "matches" haway hhome

/-- Where no key has two members in one order, the order in which they are given does not matter. -/
theorem keyOf?_swap (h : ∀ key ∈ d.keys, ¬d.Pairs p q key) :
    d.keyOf? p (some q) = d.keyOf? q (some p) := by
  have hnone := matchingKey?_eq_none_iff.mpr h
  unfold keyOf?
  dsimp only
  rw [hnone]
  cases d.matchingKey? q p <;> rfl

/-- **Two members in either order** both select something, or nothing. They select the same unless some
key has them in the given order and another has them in the other, and then each order selects the first
of the keys that have them in that order. -/
theorem resolve_swap {first second : String} (hp : d.position first = .ok p)
    (hq : d.position second = .ok q) :
    ((∃ e, d.resolve first (some second) = .error e) ↔
        ∃ e, d.resolve second (some first) = .error e) ∧
      ((∀ key ∈ d.keys, ¬d.Pairs p q key) ∨ (∀ key ∈ d.keys, ¬d.Pairs q p key) →
        ∀ answer, d.resolve first (some second) = .ok answer ↔
          d.resolve second (some first) = .ok answer) ∧
      ∀ key other, d.IsFirst (d.Pairs p q) key → d.IsFirst (d.Pairs q p) other →
        d.resolve first (some second) = .ok (d.indexName? key) ∧
          d.resolve second (some first) = .ok (d.indexName? other) ∧ (key = other ↔ p = q) := by
  refine ⟨?_, fun hnone answer => ?_, fun key other hkey hother => ⟨?_, ?_, ?_⟩⟩
  · simp only [resolve_some_eq_error_iff hp hq, resolve_some_eq_error_iff hq hp,
      exists_eq_left, and_comm]
  · rw [resolve_some_eq_ok_iff hp hq, resolve_some_eq_ok_iff hq hp]
    rcases hnone with hnone | hnone
    · rw [keyOf?_swap hnone]
    · rw [keyOf?_swap hnone]
  · exact (resolve_some_eq_ok_iff hp hq).mpr ⟨key, keyOf?_some_eq_some_iff.mpr (.inl hkey), rfl⟩
  · exact (resolve_some_eq_ok_iff hq hp).mpr
      ⟨other, keyOf?_some_eq_some_iff.mpr (.inl hother), rfl⟩
  · constructor
    · rintro rfl
      exact Option.some.inj (hkey.holds.1.symm.trans hother.holds.1)
    · rintro rfl
      exact hkey.unique hother

/-- The two teams select the table in the order of its key and the index in the other. -/
theorem resolve_swap_sampleMatches :
    ofSchema sampleMatches = .ok sampleMatchesTable ∧
      sampleMatchesTable.resolve "home" (some "away") = .ok none ∧
        sampleMatchesTable.resolve "away" (some "home") = .ok (some "gsi-1-away-home") := by
  obtain ⟨hhome, haway⟩ := position_sampleMatches
  have hown : sampleMatchesTable.IsFirst (sampleMatchesTable.Pairs 0 1) .table :=
    matchingKey?_eq_some_iff.mp (by cbv)
  have hindex : sampleMatchesTable.IsFirst (sampleMatchesTable.Pairs 1 0) ⟨.globalIndex, 1⟩ :=
    matchingKey?_eq_some_iff.mp (by cbv)
  obtain ⟨hgiven, hswapped, -⟩ := (resolve_swap hhome haway).2.2 _ _ hown hindex
  have hname : sampleMatchesTable.indexName? ⟨.globalIndex, 1⟩ = some "gsi-1-away-home" := by cbv
  exact ⟨ofSchema_sampleMatches, hgiven, hname ▸ hswapped⟩

end TableDescriptor

end ItemMapper
