import ItemMapper.Key.Building
import ItemMapper.Proofs.Computation

/-!
# Where the key of a table comes from

The descriptor of a schema names the members of the table's key by their positions. Each of these
positions is one of a member that has declared the part, and that is of a kind which keys can hold: no
claim of another member, and no role in an index, changes what the table's own key consists of.

## Main definitions

* `Member.HasPart`: whether a member has declared a part in the table's own key.
* `Claims.part?`: the position that has claimed a part.
* `TableDescriptor.keyPositions`: the positions of the members of the key.

## Main statements

* `Claims.addMembers_part?`: who may have claimed a part.
* `Codec.exists_field_of_descriptor`: the declared members that the key of a document consists of.
-/

namespace ItemMapper

/-- Whether the member has declared a part in the table's own key. -/
def Member.HasPart (m : Member) (part : KeyPart) : Prop :=
  ∃ role ∈ m.roles, role.kind = .primary ∧ role.part = part

theorem Member.HasPart.isKey {m : Member} {part : KeyPart} (h : m.HasPart part) : m.isKey = true := by
  obtain ⟨role, hrole, hkind, -⟩ := h
  exact List.any_eq_true.mpr ⟨role, hrole, beq_iff_eq.mpr hkind⟩

namespace Claims

/-- The position that has claimed a part in the table's own key. -/
def part? (claims : Claims) : KeyPart → Option Nat
  | .partition => claims.partition
  | .sort => claims.sort

variable {s : Schema} {position : Nat} {member : Member} {claims claims' : Claims} {part : KeyPart}
  {p : Nat}

/-- A claim is granted where nobody else has the place, and gives it to the member that makes it. -/
theorem claim_eq_ok_iff {what : String} {slot result : Option Nat} :
    claim s what position slot = .ok result ↔
      (∀ i, slot = some i → i = position) ∧ result = some position := by
  unfold claim
  cases slot with
  | none => simp [eq_comm]
  | some other =>
    dsimp only
    by_cases h : other = position
    · simp [h, eq_comm]
    · simp [h]

/-- A role gives away at most its own part, and to the member that has the role. -/
theorem addRole_part? {role : KeyRole} (h : addRole s position member claims role = .ok claims')
    (hp : claims'.part? part = some p) :
    claims.part? part = some p ∨ p = position ∧ role.kind = .primary ∧ role.part = part := by
  obtain ⟨kind, rolePart, ordinal, indexName⟩ := role
  unfold addRole at h
  cases kind with
  | primary =>
    cases rolePart with
    | partition =>
      obtain ⟨granted, hgranted, heq⟩ := except_bind_eq_ok.mp h
      cases heq
      cases (claim_eq_ok_iff.mp hgranted).2
      cases part with
      | partition => exact .inr ⟨(Option.some.inj hp).symm, rfl, rfl⟩
      | sort => exact .inl hp
    | sort =>
      obtain ⟨granted, hgranted, heq⟩ := except_bind_eq_ok.mp h
      cases heq
      cases (claim_eq_ok_iff.mp hgranted).2
      cases part with
      | partition => exact .inl hp
      | sort => exact .inr ⟨(Option.some.inj hp).symm, rfl, rfl⟩
  | localIndex =>
    cases rolePart with
    | partition => cases h
    | sort =>
      obtain ⟨i, -, h⟩ := except_bind_eq_ok.mp h
      obtain ⟨granted, -, h⟩ := except_bind_eq_ok.mp h
      obtain ⟨name, -, heq⟩ := except_bind_eq_ok.mp h
      cases heq
      cases part <;> exact .inl hp
  | globalIndex =>
    cases rolePart with
    | partition | sort =>
      obtain ⟨i, -, h⟩ := except_bind_eq_ok.mp h
      obtain ⟨granted, -, h⟩ := except_bind_eq_ok.mp h
      obtain ⟨name, -, heq⟩ := except_bind_eq_ok.mp h
      cases heq
      cases part <;> exact .inl hp

theorem addRoles_part? {roles : List KeyRole}
    (h : roles.foldlM (addRole s position member) claims = .ok claims')
    (hp : claims'.part? part = some p) :
    claims.part? part = some p ∨
      p = position ∧ ∃ role ∈ roles, role.kind = .primary ∧ role.part = part := by
  induction roles generalizing claims with
  | nil =>
    cases h
    exact .inl hp
  | cons role rest ih =>
    rw [List.foldlM_cons] at h
    obtain ⟨next, hrole, hrest⟩ := except_bind_eq_ok.mp h
    rcases ih hrest with hnext | ⟨rfl, later, hlater, hprimary⟩
    · rcases addRole_part? hrole hnext with hbefore | ⟨rfl, hprimary⟩
      · exact .inl hbefore
      · exact .inr ⟨rfl, role, List.mem_cons_self, hprimary⟩
    · exact .inr ⟨rfl, later, List.mem_cons_of_mem role hlater, hprimary⟩

/-- A member that is taken has its roles taken, and if it has any it is of a kind that keys can hold. -/
theorem addRoles_of_addMember (h : addMember s claims position member = .ok claims') :
    (member.roles ≠ [] → canBeKey member = true) ∧ ∃ version,
      member.roles.foldlM (addRole s position member) { claims with version := version } =
        .ok claims' := by
  have hroles : ∃ version, (if !member.roles.isEmpty && !canBeKey member then
        .error (Cause.invalidMetadata s.typeName
          s!"key member '{member.name}' must be a string, number or binary")
      else member.roles.foldlM (addRole s position member) { claims with version := version }) =
        .ok claims' := by
    unfold addMember at h
    dsimp only at h
    split at h
    all_goals
      obtain ⟨version, -, h⟩ := except_bind_eq_ok.mp h
      exact ⟨version, h⟩
  obtain ⟨version, h⟩ := hroles
  split at h
  · cases h
  · rename_i hkind
    refine ⟨fun hsome => ?_, version, h⟩
    rw [← List.isEmpty_eq_false_iff] at hsome
    simpa [hsome] using hkind

/-- A member claims a part of the key only where it has declared it and is of a kind that keys can
hold. -/
theorem addMember_part? (h : addMember s claims position member = .ok claims')
    (hp : claims'.part? part = some p) :
    claims.part? part = some p ∨ p = position ∧ member.HasPart part ∧ canBeKey member = true := by
  obtain ⟨hkind, version, h⟩ := addRoles_of_addMember h
  have hbefore : Claims.part? { claims with version := version } part = claims.part? part := by
    cases part <;> rfl
  rcases addRoles_part? h hp with hold | ⟨rfl, role, hrole, hprimary⟩
  · exact .inl (hbefore ▸ hold)
  · exact .inr ⟨rfl, ⟨role, hrole, hprimary⟩, hkind (List.ne_nil_of_mem hrole)⟩

/-- Whoever has claimed a part after all members have been looked at had claimed it before, or is one
of the members. -/
theorem addMembers_part? {members : List Member}
    (h : addMembers s claims position members = .ok claims') (hp : claims'.part? part = some p) :
    claims.part? part = some p ∨
      ∃ i m, members[i]? = some m ∧ p = position + i ∧ m.HasPart part ∧ canBeKey m = true := by
  induction members generalizing claims position with
  | nil =>
    cases h
    exact .inl hp
  | cons first rest ih =>
    obtain ⟨next, hfirst, hrest⟩ := except_bind_eq_ok.mp h
    rcases ih hrest with hnext | ⟨i, m, hm, rfl, hpart⟩
    · rcases addMember_part? hfirst hnext with hbefore | ⟨rfl, hpart⟩
      · exact .inl hbefore
      · exact .inr ⟨0, first, rfl, rfl, hpart⟩
    · exact .inr ⟨i + 1, m, hm, by omega, hpart⟩

end Claims

/-- The positions of the members of the key. -/
def TableDescriptor.keyPositions (d : TableDescriptor) : List Nat := d.partition :: d.sort.toList

theorem TableDescriptor.mem_keyPositions {d : TableDescriptor} {position : Nat} :
    position ∈ d.keyPositions ↔ position = d.partition ∨ d.sort = some position := by
  rw [keyPositions, List.mem_cons, Option.mem_toList]

/-- The members of the key of a schema have declared a part in it, and are of a kind that keys can
hold. -/
theorem TableDescriptor.exists_member_of_ofSchema {s : Schema} {d : TableDescriptor}
    (h : ofSchema s = .ok d) :
    d.schema = s ∧ ∀ position ∈ d.keyPositions, ∃ m, s.members[position]? = some m ∧
      m.isKey = true ∧ Claims.canBeKey m = true := by
  obtain ⟨claims, hclaims, h⟩ := except_bind_eq_ok.mp h
  have hclaimed : ∀ part position, claims.part? part = some position →
      ∃ m, s.members[position]? = some m ∧ m.isKey = true ∧ Claims.canBeKey m = true := by
    intro part position hposition
    rcases Claims.addMembers_part? hclaims hposition with hempty | ⟨i, m, hm, rfl, hpart, hkind⟩
    · cases part <;> cases hempty
    · rw [Nat.zero_add]
      exact ⟨m, hm, hpart.isKey, hkind⟩
  cases hpartition : claims.partition with
  | none =>
    rw [hpartition] at h
    cases h
  | some partition =>
    rw [hpartition] at h
    dsimp only at h
    split at h
    · cases h
    · cases h
      refine ⟨rfl, fun position hposition => ?_⟩
      rcases mem_keyPositions.mp hposition with rfl | hsort
      · exact hclaimed .partition _ hpartition
      · exact hclaimed .sort _ hsort

/-- The members of the key of a document are declared with a part in it, and are of a kind that keys can
hold. -/
theorem Codec.exists_field_of_descriptor {c : Codec} {id : DocumentId} {d : TableDescriptor}
    (h : c.descriptor id = .ok d) {position : Nat} (hposition : position ∈ d.keyPositions) :
    ∃ f, (c.documents id).fields[position]? = some f ∧ d.memberAt position = f.member c.typeName ∧
      isKey f = true ∧ Claims.canBeKey (f.member c.typeName) = true := by
  obtain ⟨schema, hschema, h⟩ := except_bind_eq_ok.mp h
  obtain ⟨-, -, hfields⟩ := except_bind_eq_ok.mp hschema
  cases hfields
  obtain ⟨hsame, hmembers⟩ := TableDescriptor.exists_member_of_ofSchema h
  obtain ⟨m, hm, hkey, hkind⟩ := hmembers position hposition
  have hmember : d.memberAt position = m := by
    rw [TableDescriptor.memberAt, hsame, List.getD_eq_getElem?_getD, hm, Option.getD_some]
  obtain ⟨f, hf, rfl⟩ := Option.map_eq_some_iff.mp (List.getElem?_map ▸ hm)
  exact ⟨f, hf, hmember, hkey, hkind⟩

end ItemMapper
