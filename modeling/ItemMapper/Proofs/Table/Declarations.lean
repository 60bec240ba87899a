import Mathlib.Logic.Equiv.Defs
import ItemMapper.Table.Descriptor

/-!
# What the members of a schema declare

Members claim places in a table, and name its indexes, by their roles. A schema is consistent where
every role is well-formed and no two members contradict each other. Where the members stand, and in
which order a member has its roles, has no part in this.

## Main definitions

* `TablePlace`, `TableIndex`: the places that a member may hold, and the indexes that may be named.
* `Schema.Declares`, `Schema.NamesIndex`: what is declared of a place and of an index.
* `Schema.Consistent`: declarations that do not contradict each other.
* `Schema.Reordered`: a schema that declares the same in another order.

## Main statements

* `Schema.Reordered.declares_iff`: the members of a reordered schema claim the same places.
* `Schema.Reordered.consistent`: consistency does not depend on the order.
-/

namespace ItemMapper

/-! ### What is declared -/

/-- An index of a table. -/
inductive TableIndex where
  | localIndex (ordinal : Nat)
  | globalIndex (ordinal : Nat)
deriving DecidableEq, Repr

/-- A place that one member of a schema may hold. -/
inductive TablePlace where
  /-- The member that counts versions. -/
  | version
  /-- A part of the table's own key. -/
  | own (part : KeyPart)
  /-- A part of the key of an index. -/
  | index (index : TableIndex) (part : KeyPart)
deriving DecidableEq, Repr

/-- The index that a role belongs to. -/
def KeyRole.index? (role : KeyRole) : Option TableIndex :=
  match role.kind with
  | .primary => none
  | .localIndex => some (.localIndex role.ordinal)
  | .globalIndex => some (.globalIndex role.ordinal)

/-- The place that a role claims. -/
def KeyRole.place (role : KeyRole) : TablePlace :=
  match role.index? with
  | none => .own role.part
  | some index => .index index role.part

theorem KeyRole.place_ne_version (role : KeyRole) : role.place ≠ .version := by
  unfold place
  split <;> nofun

theorem KeyRole.place_eq_index_iff (role : KeyRole) {index : TableIndex} {part : KeyPart} :
    role.place = .index index part ↔ role.index? = some index ∧ role.part = part := by
  unfold place
  cases role.index? with
  | none => exact iff_of_false nofun nofun
  | some other => rw [TablePlace.index.injEq, Option.some.injEq]

/-- The member claims a place. -/
def Member.Declares (m : Member) (place : TablePlace) : Prop :=
  place = .version ∧ m.version = true ∨ ∃ role ∈ m.roles, role.place = place

/-- The member names an index. -/
def Member.NamesIndex (m : Member) (index : TableIndex) (name : String) : Prop :=
  ∃ role ∈ m.roles, role.index? = some index ∧ role.indexName = some name

/-- The member at a position claims a place. -/
def Schema.Declares (s : Schema) (place : TablePlace) (position : Nat) : Prop :=
  ∃ m, s.members[position]? = some m ∧ m.Declares place

/-- Some member names an index. -/
def Schema.NamesIndex (s : Schema) (index : TableIndex) (name : String) : Prop :=
  ∃ m ∈ s.members, m.NamesIndex index name

/-- A role that says which place it claims: local indexes have the partition of the table, and there are
only so many indexes of each kind. -/
structure KeyRole.WellFormed (role : KeyRole) : Prop where
  shared : ¬(role.kind = .localIndex ∧ role.part = .partition)
  localOrdinal : role.kind = .localIndex → 1 ≤ role.ordinal ∧ role.ordinal ≤ 5
  globalOrdinal : role.kind = .globalIndex → 1 ≤ role.ordinal ∧ role.ordinal ≤ 20

/-- A member that has roles only where keys can hold its values, and well-formed ones. -/
structure Member.WellFormed (m : Member) : Prop where
  kind : m.roles ≠ [] → m.type.kind ∈ [Kind.text, .number, .binary, .enumeration]
  roles : ∀ role ∈ m.roles, role.WellFormed

/-- Declarations that make a table: there is a partition key, all members are well-formed, no two members
claim one place, no index has two names, and local indexes come with a sort key of the table. -/
structure Schema.Consistent (s : Schema) : Prop where
  partition : ∃ i, s.Declares (.own .partition) i
  members : ∀ m ∈ s.members, m.WellFormed
  holders : ∀ place i j, s.Declares place i → s.Declares place j → i = j
  names : ∀ index a b, s.NamesIndex index a → s.NamesIndex index b → a = b
  sort : ∀ ordinal i, s.Declares (.index (.localIndex ordinal) .sort) i →
    ∃ j, s.Declares (.own .sort) j

theorem KeyRole.wellFormed_primary {part : KeyPart} {ordinal : Nat} {name : Option String} :
    KeyRole.WellFormed ⟨.primary, part, ordinal, name⟩ :=
  ⟨nofun, nofun, nofun⟩

theorem KeyRole.not_wellFormed_localPartition {ordinal : Nat} {name : Option String} :
    ¬KeyRole.WellFormed ⟨.localIndex, .partition, ordinal, name⟩ :=
  fun h => h.shared ⟨rfl, rfl⟩

theorem KeyRole.wellFormed_localSort_iff {ordinal : Nat} {name : Option String} :
    KeyRole.WellFormed ⟨.localIndex, .sort, ordinal, name⟩ ↔
      1 ≤ ordinal ∧ ordinal ≤ maxLocalIndexes :=
  ⟨fun h => h.localOrdinal rfl, fun h => ⟨nofun, fun _ => h, nofun⟩⟩

theorem KeyRole.wellFormed_global_iff {part : KeyPart} {ordinal : Nat} {name : Option String} :
    KeyRole.WellFormed ⟨.globalIndex, part, ordinal, name⟩ ↔
      1 ≤ ordinal ∧ ordinal ≤ maxGlobalIndexes :=
  ⟨fun h => h.globalOrdinal rfl, fun h => ⟨nofun, nofun, fun _ => h⟩⟩
/-! ### The order of declarations -/

/-- A member that declares the same, perhaps with its roles in another order. -/
structure Member.DeclaresAlike (m m' : Member) : Prop where
  kind : m'.type.kind = m.type.kind
  version : m'.version = m.version
  roles : m'.roles.Perm m.roles

/-- Schemas whose members declare the same, though each may be at another position and have its roles in
another order. -/
def Schema.Reordered (s : Schema) (moved : Equiv.Perm Nat) (s' : Schema) : Prop :=
  ∀ i, Option.Rel Member.DeclaresAlike s.members[i]? s'.members[moved i]?

theorem Member.DeclaresAlike.symm {m m' : Member} (h : m.DeclaresAlike m') :
    m'.DeclaresAlike m :=
  ⟨h.kind.symm, h.version.symm, h.roles.symm⟩

theorem Member.DeclaresAlike.declares {m m' : Member} (h : m.DeclaresAlike m') {place : TablePlace}
    (hm : m.Declares place) : m'.Declares place := by
  rcases hm with ⟨rfl, hversion⟩ | ⟨role, hrole, rfl⟩
  · exact .inl ⟨rfl, h.version.trans hversion⟩
  · exact .inr ⟨role, h.roles.mem_iff.mpr hrole, rfl⟩

theorem Member.DeclaresAlike.namesIndex {m m' : Member} (h : m.DeclaresAlike m')
    {index : TableIndex} {name : String} (hm : m.NamesIndex index name) :
    m'.NamesIndex index name := by
  obtain ⟨role, hrole, hnames⟩ := hm
  exact ⟨role, h.roles.mem_iff.mpr hrole, hnames⟩

theorem Member.DeclaresAlike.wellFormed {m m' : Member} (h : m.DeclaresAlike m')
    (hm : m.WellFormed) : m'.WellFormed where
  kind hsome := h.kind ▸ hm.kind fun hnil => hsome (h.roles.trans (hnil ▸ .refl _)).eq_nil
  roles role hrole := hm.roles role (h.roles.mem_iff.mp hrole)

namespace Schema.Reordered

variable {s s' : Schema} {moved : Equiv.Perm Nat}

theorem exists_member (h : s.Reordered moved s') {i : Nat} {m : Member}
    (hm : s.members[i]? = some m) :
    ∃ m', s'.members[moved i]? = some m' ∧ m.DeclaresAlike m' := by
  have hrel := h i
  rw [hm] at hrel
  cases hm' : s'.members[moved i]? with
  | none =>
    rw [hm'] at hrel
    cases hrel
  | some m' =>
    rw [hm'] at hrel
    cases hrel with
    | some halike => exact ⟨m', rfl, halike⟩

theorem symm (h : s.Reordered moved s') : s'.Reordered moved.symm s := by
  intro i
  have hrel := h (moved.symm i)
  rw [Equiv.apply_symm_apply] at hrel
  generalize s.members[moved.symm i]? = first at hrel ⊢
  generalize s'.members[i]? = second at hrel ⊢
  cases hrel with
  | none => exact .none
  | some halike => exact .some halike.symm

theorem declares (h : s.Reordered moved s') {place : TablePlace} {i : Nat}
    (hi : s.Declares place i) : s'.Declares place (moved i) := by
  obtain ⟨m, hm, hdeclares⟩ := hi
  obtain ⟨m', hm', halike⟩ := h.exists_member hm
  exact ⟨m', hm', halike.declares hdeclares⟩

theorem declares_iff (h : s.Reordered moved s') {place : TablePlace} {i : Nat} :
    s'.Declares place i ↔ s.Declares place (moved.symm i) := by
  constructor
  · exact h.symm.declares
  · intro hi
    have hmoved := h.declares hi
    rwa [Equiv.apply_symm_apply] at hmoved

theorem namesIndex (h : s.Reordered moved s') {index : TableIndex} {name : String}
    (hs : s.NamesIndex index name) : s'.NamesIndex index name := by
  obtain ⟨m, hm, hnames⟩ := hs
  obtain ⟨i, hi⟩ := List.mem_iff_getElem?.mp hm
  obtain ⟨m', hm', halike⟩ := h.exists_member hi
  exact ⟨m', List.mem_of_getElem? hm', halike.namesIndex hnames⟩

theorem namesIndex_iff (h : s.Reordered moved s') {index : TableIndex} {name : String} :
    s'.NamesIndex index name ↔ s.NamesIndex index name :=
  ⟨h.symm.namesIndex, h.namesIndex⟩

/-- Consistency does not depend on the order of declarations. -/
theorem consistent (h : s.Reordered moved s') (hs : s.Consistent) : s'.Consistent where
  partition := by
    obtain ⟨i, hi⟩ := hs.partition
    exact ⟨moved i, h.declares hi⟩
  members m' hm' := by
    obtain ⟨i, hi⟩ := List.mem_iff_getElem?.mp hm'
    obtain ⟨m, hm, halike⟩ := h.symm.exists_member hi
    exact halike.symm.wellFormed (hs.members m (List.mem_of_getElem? hm))
  holders place i j hi hj :=
    moved.symm.injective (hs.holders place _ _ (h.declares_iff.mp hi) (h.declares_iff.mp hj))
  names index a b ha hb :=
    hs.names index a b (h.namesIndex_iff.mp ha) (h.namesIndex_iff.mp hb)
  sort ordinal i hi := by
    obtain ⟨j, hj⟩ := hs.sort ordinal _ (h.declares_iff.mp hi)
    exact ⟨moved j, h.declares hj⟩

end Schema.Reordered

end ItemMapper
