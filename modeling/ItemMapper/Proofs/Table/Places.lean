import ItemMapper.Proofs.Table.Claims
import ItemMapper.Table.Generation

/-!
# Who holds the places of a table

Whatever place a position has claimed, in the table's own key or in an index, its member is of a kind
that keys can hold. A role in an index of which only the sort member is declared makes the partition
of the table a partition of the index too, so that no index has a member that nobody declared.

## Main definitions

* `Claims.All`: a property of all positions that have claimed a place in a key.
* `TableDescriptor.All`: a property of all positions in the places of a table.
* `TableDescriptor.globalKeyMembers`: the members of the key of a global index.

## Main statements

* `Claims.All.addMembers`: the positions that claim a place are those of members that keys can hold.
* `TableDescriptor.exists_member_of_mem_keyMembers`: the members of the keys are declared, and of a
  kind that keys can hold.
-/

namespace ItemMapper

/-- A property of the positions in the places of an index. -/
structure IndexSlot.All (P : Nat → Prop) (slot : IndexSlot) : Prop where
  partition : ∀ p ∈ slot.partition, P p
  sort : ∀ p ∈ slot.sort, P p

theorem IndexSlot.all_empty (P : Nat → Prop) : IndexSlot.empty.All P := by
  constructor <;> nofun

theorem IndexSlot.All.getD {P : Nat → Prop} {slots : List IndexSlot}
    (h : ∀ slot ∈ slots, slot.All P) (i : Nat) : (slots.getD i .empty).All P := by
  rw [List.getD_eq_getElem?_getD]
  cases hslot : slots[i]? with
  | none => exact all_empty P
  | some slot => exact h slot (List.mem_of_getElem? hslot)

theorem IndexSlot.All.set {P : Nat → Prop} {slots : List IndexSlot} {slot : IndexSlot}
    (h : ∀ slot ∈ slots, slot.All P) (hslot : slot.All P) (i : Nat) :
    ∀ other ∈ slots.set i slot, other.All P := by
  intro other hother
  rcases List.mem_or_eq_of_mem_set hother with hother | heq
  · exact h other hother
  · exact heq ▸ hslot

namespace Claims

/-- A property of all positions that have claimed a place in a key. -/
structure All (P : Nat → Prop) (claims : Claims) : Prop where
  partition : ∀ p ∈ claims.partition, P p
  sort : ∀ p ∈ claims.sort, P p
  locals : ∀ slot ∈ claims.locals, slot.All P
  globals : ∀ slot ∈ claims.globals, slot.All P

theorem all_empty (P : Nat → Prop) : empty.All P where
  partition := by nofun
  sort := by nofun
  locals := by
    intro slot hslot
    rw [List.eq_of_mem_replicate hslot]
    exact IndexSlot.all_empty P
  globals := by
    intro slot hslot
    rw [List.eq_of_mem_replicate hslot]
    exact IndexSlot.all_empty P

variable {P : Nat → Prop} {s : Schema} {position : Nat} {member : Member} {claims claims' : Claims}

/-- A place that has been claimed is the place of the member that has claimed it. -/
theorem forall_mem_of_claim {what : String} {slot result : Option Nat} (hp : P position)
    (h : claim s what position slot = .ok result) : ∀ p ∈ result, P p := by
  intro p hresult
  rw [(claim_eq_ok_iff.mp h).2, Option.mem_some_iff] at hresult
  exact hresult ▸ hp

theorem All.addRole (hall : claims.All P) (hp : P position) {role : KeyRole}
    (h : addRole s position member claims role = .ok claims') : claims'.All P := by
  obtain ⟨kind, part, ordinal, indexName⟩ := role
  unfold Claims.addRole at h
  cases kind with
  | primary =>
    cases part with
    | partition =>
      obtain ⟨granted, hgranted, heq⟩ := except_bind_eq_ok.mp h
      cases heq
      exact { hall with partition := forall_mem_of_claim hp hgranted }
    | sort =>
      obtain ⟨granted, hgranted, heq⟩ := except_bind_eq_ok.mp h
      cases heq
      exact { hall with sort := forall_mem_of_claim hp hgranted }
  | localIndex =>
    cases part with
    | partition => cases h
    | sort =>
      obtain ⟨i, -, h⟩ := except_bind_eq_ok.mp h
      obtain ⟨granted, hgranted, h⟩ := except_bind_eq_ok.mp h
      obtain ⟨name, -, heq⟩ := except_bind_eq_ok.mp h
      cases heq
      have hslot := IndexSlot.All.getD hall.locals i
      refine { hall with locals := IndexSlot.All.set hall.locals ?_ i }
      exact ⟨hslot.partition, forall_mem_of_claim hp hgranted⟩
  | globalIndex =>
    cases part with
    | partition =>
      obtain ⟨i, -, h⟩ := except_bind_eq_ok.mp h
      obtain ⟨granted, hgranted, h⟩ := except_bind_eq_ok.mp h
      obtain ⟨name, -, heq⟩ := except_bind_eq_ok.mp h
      cases heq
      have hslot := IndexSlot.All.getD hall.globals i
      refine { hall with globals := IndexSlot.All.set hall.globals ?_ i }
      exact ⟨forall_mem_of_claim hp hgranted, hslot.sort⟩
    | sort =>
      obtain ⟨i, -, h⟩ := except_bind_eq_ok.mp h
      obtain ⟨granted, hgranted, h⟩ := except_bind_eq_ok.mp h
      obtain ⟨name, -, heq⟩ := except_bind_eq_ok.mp h
      cases heq
      have hslot := IndexSlot.All.getD hall.globals i
      refine { hall with globals := IndexSlot.All.set hall.globals ?_ i }
      exact ⟨hslot.partition, forall_mem_of_claim hp hgranted⟩

theorem All.addRoles (hall : claims.All P) (hp : P position) {roles : List KeyRole}
    (h : roles.foldlM (Claims.addRole s position member) claims = .ok claims') :
    claims'.All P := by
  induction roles generalizing claims with
  | nil =>
    cases h
    exact hall
  | cons role rest ih =>
    rw [List.foldlM_cons] at h
    obtain ⟨next, hrole, hrest⟩ := except_bind_eq_ok.mp h
    exact ih (hall.addRole hp hrole) hrest

/-- A member claims places in keys only where it is of a kind that keys can hold. -/
theorem All.addMember (hall : claims.All P) (hp : canBeKey member = true → P position)
    (h : addMember s claims position member = .ok claims') : claims'.All P := by
  obtain ⟨hkind, version, h⟩ := addRoles_of_addMember h
  have hversion : All P { claims with version := version } :=
    ⟨hall.partition, hall.sort, hall.locals, hall.globals⟩
  cases hroles : member.roles with
  | nil =>
    rw [hroles] at h
    cases h
    exact hversion
  | cons role rest =>
    have hsome : member.roles ≠ [] := hroles ▸ List.cons_ne_nil role rest
    exact hversion.addRoles (hp (hkind hsome)) h

/-- The positions that have claimed a place after all members have been looked at are those of members
of a kind that keys can hold. -/
theorem All.addMembers {members : List Member} (hall : claims.All P)
    (hp : ∀ i m, members[i]? = some m → canBeKey m = true → P (position + i))
    (h : addMembers s claims position members = .ok claims') : claims'.All P := by
  induction members generalizing claims position with
  | nil =>
    cases h
    exact hall
  | cons first rest ih =>
    obtain ⟨next, hfirst, hrest⟩ := except_bind_eq_ok.mp h
    refine ih (hall.addMember (hp 0 first rfl) hfirst) (fun i m hm hkind => ?_) hrest
    have := hp (i + 1) m hm hkind
    rwa [Nat.add_comm i 1, ← Nat.add_assoc] at this

end Claims

namespace TableDescriptor

variable {s : Schema} {d : TableDescriptor} {P : Nat → Prop}

/-- A property of all positions in the places of a table. -/
structure All (P : Nat → Prop) (d : TableDescriptor) : Prop where
  partition : P d.partition
  sort : ∀ p ∈ d.sort, P p
  locals : ∀ slot ∈ d.locals, slot.All P
  globals : ∀ slot ∈ d.globals, slot.All P

theorem all_of_ofSchema (h : ofSchema s = .ok d)
    (hp : ∀ i m, s.members[i]? = some m → Claims.canBeKey m = true → P i) : d.All P := by
  obtain ⟨claims, hclaims, h⟩ := except_bind_eq_ok.mp h
  have hall : claims.All P :=
    (Claims.all_empty P).addMembers (fun i m hm hkind => (Nat.zero_add i).symm ▸ hp i m hm hkind)
      hclaims
  cases hpartition : claims.partition with
  | none =>
    rw [hpartition] at h
    cases h
  | some partition =>
    rw [hpartition] at h
    dsimp only at h
    split at h
    · cases h
    · cases h
      exact ⟨hall.partition partition hpartition, hall.sort, hall.locals, hall.globals⟩

theorem all_slotAt {slots : List IndexSlot} (h : ∀ slot ∈ slots, slot.All P) (ordinal : Nat) :
    (slotAt slots ordinal).All P := by
  unfold slotAt
  split
  · exact IndexSlot.all_empty P
  · exact IndexSlot.All.getD h _

theorem All.localSort (h : d.All P) {ordinal p : Nat} (hp : d.localSort? ordinal = some p) : P p :=
  (all_slotAt h.locals ordinal).sort p hp

theorem All.globalSort (h : d.All P) {ordinal p : Nat} (hp : d.globalSort? ordinal = some p) :
    P p :=
  (all_slotAt h.globals ordinal).sort p hp

theorem All.globalPartition (h : d.All P) {ordinal p : Nat}
    (hp : d.globalPartition? ordinal = some p) : P p := by
  have hslot := all_slotAt h.globals ordinal
  unfold globalPartition? at hp
  dsimp only at hp
  cases hpartition : (slotAt d.globals ordinal).partition with
  | some position =>
    rw [hpartition] at hp
    cases hp
    exact hslot.partition p hpartition
  | none =>
    -- an index of which only the sort member is declared has the partition of the table
    rw [hpartition] at hp
    split at hp
    next heq => cases heq
    next =>
      cases hp
      exact h.partition
    next => cases hp

/-- The members of the key of a global index: its partition member and then perhaps its sort member. -/
def globalKeyMembers (d : TableDescriptor) (ordinal : Nat) : List Member :=
  match d.globalPartition? ordinal with
  | some partition => d.memberAt partition :: ((d.globalSort? ordinal).map d.memberAt).toList
  | none => []

theorem keyMembers_eq (d : TableDescriptor) :
    d.keyMembers = d.partitionMember :: d.sortMember?.toList ++
      d.localOrdinals.filterMap (fun o => (d.localSort? o).map d.memberAt) ++
      d.globalOrdinals.flatMap d.globalKeyMembers := rfl

theorem exists_position_of_mem_globalKeyMembers (h : d.All P) {ordinal : Nat} {m : Member}
    (hm : m ∈ d.globalKeyMembers ordinal) : ∃ p, P p ∧ d.memberAt p = m := by
  unfold globalKeyMembers at hm
  split at hm
  next partition hpartition =>
    rcases List.mem_cons.mp hm with rfl | hm
    · exact ⟨partition, h.globalPartition hpartition, rfl⟩
    · obtain ⟨sort, hsort, rfl⟩ := Option.map_eq_some_iff.mp (Option.mem_toList.mp hm)
      exact ⟨sort, h.globalSort hsort, rfl⟩
  next => cases hm

/-- The members of the keys are members in the places of the table. -/
theorem exists_position_of_mem_keyMembers (h : d.All P) {m : Member} (hm : m ∈ d.keyMembers) :
    ∃ p, P p ∧ d.memberAt p = m := by
  rw [keyMembers_eq, List.mem_append, List.mem_append, List.mem_cons] at hm
  rcases hm with ((rfl | hm) | hm) | hm
  · exact ⟨d.partition, h.partition, rfl⟩
  · obtain ⟨sort, hsort, rfl⟩ := Option.map_eq_some_iff.mp (Option.mem_toList.mp hm)
    exact ⟨sort, h.sort sort hsort, rfl⟩
  · obtain ⟨o, -, ho⟩ := List.mem_filterMap.mp hm
    obtain ⟨sort, hsort, rfl⟩ := Option.map_eq_some_iff.mp ho
    exact ⟨sort, h.localSort hsort, rfl⟩
  · obtain ⟨o, -, ho⟩ := List.mem_flatMap.mp hm
    exact exists_position_of_mem_globalKeyMembers h ho

theorem mem_keyMembers_of_mem_globalKeyMembers {ordinal : Nat} {m : Member}
    (ho : ordinal ∈ d.globalOrdinals) (hm : m ∈ d.globalKeyMembers ordinal) : m ∈ d.keyMembers := by
  rw [keyMembers_eq]
  exact List.mem_append_right _ (List.mem_flatMap.mpr ⟨ordinal, ho, hm⟩)

/-- The members of the keys are declared members of a kind that keys can hold. -/
theorem exists_member_of_mem_keyMembers (h : ofSchema s = .ok d) {m : Member}
    (hm : m ∈ d.keyMembers) :
    ∃ position : Nat, s.members[position]? = some m ∧ Claims.canBeKey m = true := by
  have hall : d.All fun p => ∃ m, s.members[p]? = some m ∧ Claims.canBeKey m = true :=
    all_of_ofSchema h fun i m hi hkind => ⟨m, hi, hkind⟩
  obtain ⟨p, ⟨found, hfound, hkind⟩, rfl⟩ := exists_position_of_mem_keyMembers hall hm
  have hmember : d.memberAt p = found := by
    rw [memberAt, (exists_member_of_ofSchema h).1, List.getD_eq_getElem?_getD, hfound,
      Option.getD_some]
  exact ⟨p, hmember.symm ▸ hfound, hmember.symm ▸ hkind⟩

end TableDescriptor

end ItemMapper
