import ItemMapper.Proofs.Table.Facts

/-!
# Which declarations make a table

A schema has a descriptor exactly where its declarations are consistent. The descriptor says what has
been declared and nothing else, so it does not matter in which order the members declare it.

## Main statements

* `Claims.views_of_addMembers`: what is claimed is what has been declared.
* `TableDescriptor.ofSchema_eq_ok_iff`: the claims that make a table.
* `TableDescriptor.ofSchema_accepts`: which schemas have a descriptor, and what it says.
-/

namespace ItemMapper

namespace Claims

theorem shaped_empty : Shaped empty := ⟨List.length_replicate, List.length_replicate⟩

theorem slotAt_replicate_empty (count ordinal : Nat) :
    TableDescriptor.slotAt (List.replicate count .empty) ordinal = .empty := by
  unfold TableDescriptor.slotAt
  split
  · rfl
  · rw [List.getD_eq_getElem?_getD, List.getElem?_replicate]
    split <;> rfl

theorem facts_empty : facts empty = ∅ := by
  have hslot : ∀ index, empty.slot index = .empty := by
    intro index
    cases index <;> exact slotAt_replicate_empty _ _
  ext fact
  refine iff_of_false (fun hstated => ?_) (Set.notMem_empty fact)
  cases fact with
  | held place i =>
    cases place with
    | version => cases hstated
    | own part => cases part <;> cases hstated
    | index index part =>
      change (empty.slot index).holder? part = some i at hstated
      rw [hslot] at hstated
      cases part <;> cases hstated
  | named index name =>
    change (empty.slot index).name = some name at hstated
    rw [hslot] at hstated
    cases hstated

end Claims

/-! ### Descriptors -/

variable {s : Schema} {d : TableDescriptor}

theorem held_mem_memberFacts_iff {place : TablePlace} {position : Nat} :
    .held place position ∈ memberFacts 0 s.members ↔ s.Declares place position := by
  constructor
  · rintro ⟨i, m, hm, hdeclares, rfl⟩
    rw [Nat.zero_add]
    exact ⟨m, hm, hdeclares⟩
  · rintro ⟨m, hm, hdeclares⟩
    exact ⟨position, m, hm, hdeclares, (Nat.zero_add position).symm⟩

theorem named_mem_memberFacts_iff {index : TableIndex} {name : String} :
    .named index name ∈ memberFacts 0 s.members ↔ s.NamesIndex index name := by
  constructor
  · rintro ⟨i, m, hm, hnames⟩
    exact ⟨m, List.mem_of_getElem? hm, hnames⟩
  · rintro ⟨m, hm, hnames⟩
    obtain ⟨i, hi⟩ := List.mem_iff_getElem?.mp hm
    exact ⟨i, m, hi, hnames⟩

/-- The claims of all members succeed where the members are well-formed and what they declare agrees. -/
theorem Claims.exists_addMembers_iff :
    (∃ claims, Claims.addMembers s .empty 0 s.members = .ok claims) ↔
      (∀ m ∈ s.members, m.WellFormed) ∧
        (∀ place i j, s.Declares place i → s.Declares place j → i = j) ∧
          ∀ index a b, s.NamesIndex index a → s.NamesIndex index b → a = b := by
  rw [(records_addMembers s 0 s.members).succeeds .empty shaped_empty, facts_empty,
    Set.empty_union]
  refine and_congr_right fun _ => ?_
  simp only [← held_mem_memberFacts_iff, ← named_mem_memberFacts_iff]
  exact ⟨fun h => ⟨h.holders, h.names⟩, fun h => ⟨h.1, h.2⟩⟩

/-- The claims of all members record what has been declared. -/
theorem Claims.views_of_addMembers {claims : Claims}
    (h : Claims.addMembers s .empty 0 s.members = .ok claims) :
    (∀ place i, claims.holder? place = some i ↔ s.Declares place i) ∧
      ∀ index name, claims.name? index = some name ↔ s.NamesIndex index name := by
  obtain ⟨-, hfacts⟩ := (records_addMembers s 0 s.members).records .empty claims shaped_empty h
  rw [facts_empty, Set.empty_union] at hfacts
  simp only [← held_mem_memberFacts_iff, ← named_mem_memberFacts_iff, ← hfacts]
  exact ⟨fun _ _ => Iff.rfl, fun _ _ => Iff.rfl⟩

/-- An index has an entry, or nothing is declared of it. -/
theorem TableDescriptor.exists_slotAt_iff {slots : List IndexSlot} :
    (∃ slot ∈ slots, slot.sort.isSome) ↔ ∃ ordinal i, (slotAt slots ordinal).sort = some i := by
  constructor
  · rintro ⟨slot, hslot, hsort⟩
    obtain ⟨o, ho⟩ := List.mem_iff_getElem?.mp hslot
    obtain ⟨i, hi⟩ := Option.isSome_iff_exists.mp hsort
    refine ⟨o + 1, i, ?_⟩
    rw [Claims.slotAt_of_pos (Nat.le_add_left 1 o), Nat.add_sub_cancel,
      List.getD_eq_getElem?_getD, ho]
    exact hi
  · rintro ⟨ordinal, i, hi⟩
    unfold slotAt at hi
    split at hi
    · cases hi
    · rw [List.getD_eq_getElem?_getD] at hi
      cases hslot : slots[ordinal - 1]? with
      | none =>
        rw [hslot] at hi
        cases hi
      | some slot =>
        rw [hslot] at hi
        exact ⟨slot, List.mem_of_getElem? hslot, Option.isSome_iff_exists.mpr ⟨i, hi⟩⟩

theorem TableDescriptor.lacksSort_iff {sort : Option Nat} {slots : List IndexSlot} :
    (sort.isNone && slots.any (·.sort.isSome)) = true ↔
      ¬((∃ ordinal i, (slotAt slots ordinal).sort = some i) → ∃ i, sort = some i) := by
  rw [← exists_slotAt_iff, Classical.not_imp, Bool.and_eq_true, List.any_eq_true, and_comm,
    Option.isNone_iff_eq_none, Option.eq_none_iff_forall_ne_some, not_exists]

/-- A table is made of claims to all of its places, where local indexes come with a sort key. -/
theorem TableDescriptor.ofSchema_eq_ok_iff :
    ofSchema s = .ok d ↔
      Claims.addMembers s .empty 0 s.members = .ok d.claims ∧ d.schema = s ∧
        ((∃ ordinal i, d.holder? (.index (.localIndex ordinal) .sort) = some i) →
          ∃ i, d.holder? (.own .sort) = some i) := by
  unfold ofSchema
  rw [except_bind_eq_ok]
  constructor
  · rintro ⟨⟨partition, sort, version, locals, globals⟩, hclaims, h⟩
    cases partition with
    | none => cases h
    | some partition =>
      dsimp only at h
      split at h
      · cases h
      next hsort =>
        cases h
        rw [lacksSort_iff, not_not] at hsort
        exact ⟨hclaims, rfl, hsort⟩
  · rintro ⟨hclaims, rfl, hsort⟩
    refine ⟨d.claims, hclaims, ?_⟩
    exact if_neg (lacksSort_iff.not.mpr (not_not.mpr hsort))

/-- A table says what has been declared. -/
theorem TableDescriptor.views_of_ofSchema (h : ofSchema s = .ok d) :
    (∀ place i, d.holder? place = some i ↔ s.Declares place i) ∧
      ∀ index name, d.chosenName? index = some name ↔ s.NamesIndex index name :=
  Claims.views_of_addMembers (ofSchema_eq_ok_iff.mp h).1

/-- The declarations that make a table are the consistent ones. -/
theorem TableDescriptor.exists_ofSchema_iff : (∃ d, ofSchema s = .ok d) ↔ s.Consistent := by
  constructor
  · rintro ⟨d, h⟩
    obtain ⟨hheld, -⟩ := views_of_ofSchema h
    obtain ⟨hclaims, -, hsort⟩ := ofSchema_eq_ok_iff.mp h
    obtain ⟨hmembers, hholders, hnames⟩ := Claims.exists_addMembers_iff.mp ⟨_, hclaims⟩
    refine ⟨⟨d.partition, (hheld (.own .partition) _).mp rfl⟩, hmembers, hholders, hnames, ?_⟩
    intro ordinal i hi
    obtain ⟨j, hj⟩ := hsort ⟨ordinal, i, (hheld _ i).mpr hi⟩
    exact ⟨j, (hheld _ j).mp hj⟩
  · intro h
    obtain ⟨claims, hclaims⟩ := Claims.exists_addMembers_iff.mpr ⟨h.members, h.holders, h.names⟩
    obtain ⟨hheld, -⟩ := Claims.views_of_addMembers hclaims
    obtain ⟨i, hi⟩ := h.partition
    have hpartition : claims.partition = some i := (hheld (.own .partition) i).mpr hi
    let d : TableDescriptor :=
      ⟨s, i, claims.sort, claims.version, claims.locals, claims.globals⟩
    have hd : d.claims = claims := by
      rw [TableDescriptor.claims, ← hpartition]
    refine ⟨d, ofSchema_eq_ok_iff.mpr ⟨hd ▸ hclaims, rfl, ?_⟩⟩
    simp only [holder?, hd, hheld]
    rintro ⟨ordinal, i, hi⟩
    exact h.sort ordinal i hi
/-- **The declarations that make a table** are those that are consistent: there is a partition key, only
members that keys can hold have roles, no index is out of range or has a partition that it must share,
no place is given to two members and no index two names, and local indexes come with a sort key. Each
place of the table then has the member that has been declared for it and each index its name, and if
the same is declared in another order the same members have the same places. -/
theorem TableDescriptor.ofSchema_accepts (s : Schema) :
    ((∃ d, ofSchema s = .ok d) ↔ s.Consistent) ∧
      ∀ d, ofSchema s = .ok d → d.schema = s ∧
        (∀ place i, d.holder? place = some i ↔ s.Declares place i) ∧
        (∀ index name, d.chosenName? index = some name ↔ s.NamesIndex index name) ∧
        ∀ s' moved, s.Reordered moved s' → ∃ d', ofSchema s' = .ok d' ∧
          (∀ place, d'.holder? place = (d.holder? place).map moved) ∧
          ∀ index, d'.chosenName? index = d.chosenName? index := by
  refine ⟨exists_ofSchema_iff, fun d h => ?_⟩
  obtain ⟨hheld, hnamed⟩ := views_of_ofSchema h
  refine ⟨(ofSchema_eq_ok_iff.mp h).2.1, hheld, hnamed, fun s' moved hmoved => ?_⟩
  obtain ⟨d', h'⟩ := exists_ofSchema_iff.mpr (hmoved.consistent (exists_ofSchema_iff.mp ⟨d, h⟩))
  obtain ⟨hheld', hnamed'⟩ := views_of_ofSchema h'
  refine ⟨d', h', fun place => ?_, fun index => ?_⟩
  · ext i
    rw [hheld', hmoved.declares_iff, ← hheld, Option.map_eq_some_iff]
    constructor
    · intro hi
      exact ⟨_, hi, moved.apply_symm_apply i⟩
    · rintro ⟨j, hj, rfl⟩
      rwa [moved.symm_apply_apply]
  · ext name
    rw [hnamed', hmoved.namesIndex_iff, ← hnamed]

end ItemMapper
