import ItemMapper.Proofs.Table.Places

/-!
# The attributes that a table defines

An attribute is defined once, with the type of the first of the members that are stored under its
name. The only way to fail is a member without a type that is the first of its name, and the members
of the keys of a table all have types.

## Main definitions

* `Member.scalarType?`: the type of the attribute of a member in a key.
* `Member.storedAs?`: the first of some members that is stored under a name.

## Main statements

* `TableDescriptor.mem_attributeDefinitions`: what is defined.
* `TableDescriptor.exists_attributeDefinitions`: when something is.
* `TableDescriptor.exists_toDefinition`: a valid table has a definition.
-/

namespace ItemMapper

namespace Member

/-- The type of the attribute of the member in a key. -/
def scalarType? (m : Member) (options : CodecOptions) : Option ScalarType :=
  m.type.kind.scalarType? options.enumEncoding

/-- The first of the members that is stored under a name. -/
def storedAs? (options : CodecOptions) (members : List Member) (name : String) : Option Member :=
  members.find? (·.storedName options == name)

variable {options : CodecOptions} {m : Member} {members : List Member} {name : String}

theorem storedAs?_cons (first : Member) (rest : List Member) :
    storedAs? options (first :: rest) name =
      if first.storedName options = name then some first else storedAs? options rest name := by
  rw [storedAs?, List.find?_cons]
  by_cases h : first.storedName options = name
  · rw [if_pos h, beq_iff_eq.mpr h]
  · rw [if_neg h, beq_eq_false_iff_ne.mpr h]
    rfl

theorem storedName_of_storedAs? (h : storedAs? options members name = some m) :
    m.storedName options = name := by
  have hfound := List.find?_some h
  exact beq_iff_eq.mp hfound

theorem mem_of_storedAs? (h : storedAs? options members name = some m) : m ∈ members :=
  List.mem_of_find?_eq_some h

theorem exists_storedAs? (options : CodecOptions) (h : m ∈ members) :
    ∃ found, storedAs? options members (m.storedName options) = some found := by
  rw [← Option.isSome_iff_exists, storedAs?, List.find?_isSome]
  exact ⟨m, h, beq_self_eq_true _⟩

/-- What can be in a key is what has a type there, whatever the encoding of variants. -/
theorem isSome_scalarType?_iff : (m.scalarType? options).isSome = true ↔ Claims.canBeKey m = true := by
  unfold Claims.canBeKey scalarType?
  cases m.type.kind with
  | enumeration => cases options.enumEncoding <;> exact Iff.rfl
  | _ => exact Iff.rfl

end Member

namespace TableDescriptor

variable {d : TableDescriptor} {options : CodecOptions} {seen : List String} {members : List Member}
  {definitions : List AttributeDefinition}

theorem attributeDefinitions_cons_seen {first : Member} {rest : List Member}
    (h : first.storedName options ∈ seen) :
    d.attributeDefinitions options seen (first :: rest) =
      d.attributeDefinitions options seen rest := by
  rw [attributeDefinitions, if_pos (List.contains_iff_mem.mpr h)]

theorem attributeDefinitions_cons_eq_ok {first : Member} {rest : List Member}
    (hnew : first.storedName options ∉ seen) :
    d.attributeDefinitions options seen (first :: rest) = .ok definitions ↔
      ∃ type others, first.scalarType? options = some type ∧
        d.attributeDefinitions options (first.storedName options :: seen) rest = .ok others ∧
        definitions = ⟨first.storedName options, type⟩ :: others := by
  rw [attributeDefinitions, if_neg (mt List.contains_iff_mem.mp hnew), Member.scalarType?]
  cases first.type.kind.scalarType? options.enumEncoding with
  | none =>
    constructor
    · nofun
    · rintro ⟨_, _, ⟨⟩, _⟩
  | some type =>
    dsimp only
    rw [except_bind_eq_ok]
    constructor
    · rintro ⟨others, hothers, heq⟩
      exact ⟨type, others, rfl, hothers, (Except.ok.inj heq).symm⟩
    · rintro ⟨_, others, ⟨⟩, hothers, rfl⟩
      exact ⟨others, hothers, rfl⟩

/-- An attribute is defined with the type of the first member that is stored under its name. -/
theorem mem_attributeDefinitions
    (h : d.attributeDefinitions options seen members = .ok definitions) {x : AttributeDefinition} :
    x ∈ definitions ↔ x.attributeName ∉ seen ∧
      ∃ m, Member.storedAs? options members x.attributeName = some m ∧
        m.scalarType? options = some x.attributeType := by
  induction members generalizing seen definitions with
  | nil =>
    cases h
    constructor
    · nofun
    · rintro ⟨-, m, ⟨⟩, -⟩
  | cons first rest ih =>
    rw [Member.storedAs?_cons]
    by_cases hseen : first.storedName options ∈ seen
    · rw [attributeDefinitions_cons_seen hseen] at h
      rw [ih h]
      refine and_congr_right fun hx => ?_
      have hne : first.storedName options ≠ x.attributeName := fun heq => hx (heq ▸ hseen)
      rw [if_neg hne]
    · obtain ⟨type, others, htype, hothers, rfl⟩ := (attributeDefinitions_cons_eq_ok hseen).mp h
      rw [List.mem_cons, ih hothers, List.mem_cons, not_or]
      by_cases hname : first.storedName options = x.attributeName
      · rw [if_pos hname]
        constructor
        · rintro (rfl | ⟨⟨hne, -⟩, -⟩)
          · exact ⟨hseen, first, rfl, htype⟩
          · exact absurd hname.symm hne
        · rintro ⟨-, m, ⟨⟩, hm⟩
          refine .inl ?_
          obtain ⟨xname, xtype⟩ := x
          obtain rfl : first.storedName options = xname := hname
          rw [Option.some.inj (htype.symm.trans hm)]
      · rw [if_neg hname]
        constructor
        · rintro (rfl | ⟨⟨-, hx⟩, hm⟩)
          · exact absurd rfl hname
          · exact ⟨hx, hm⟩
        · rintro ⟨hx, hm⟩
          exact .inr ⟨⟨Ne.symm hname, hx⟩, hm⟩

/-- No attribute is defined twice. -/
theorem nodup_attributeDefinitions
    (h : d.attributeDefinitions options seen members = .ok definitions) :
    (definitions.map (·.attributeName)).Nodup := by
  induction members generalizing seen definitions with
  | nil =>
    cases h
    exact List.nodup_nil
  | cons first rest ih =>
    by_cases hseen : first.storedName options ∈ seen
    · rw [attributeDefinitions_cons_seen hseen] at h
      exact ih h
    · obtain ⟨type, others, -, hothers, rfl⟩ := (attributeDefinitions_cons_eq_ok hseen).mp h
      rw [List.map_cons, List.nodup_cons]
      refine ⟨fun hmem => ?_, ih hothers⟩
      obtain ⟨x, hx, hname⟩ := List.mem_map.mp hmem
      exact ((mem_attributeDefinitions hothers).mp hx).1 (hname ▸ List.mem_cons_self)

/-- There are definitions where the first member of each name has a type. -/
theorem exists_attributeDefinitions :
    (∃ definitions, d.attributeDefinitions options seen members = .ok definitions) ↔
      ∀ name ∉ seen, ∀ m, Member.storedAs? options members name = some m →
        (m.scalarType? options).isSome := by
  induction members generalizing seen with
  | nil =>
    constructor
    · intro _ name _ m hm
      cases hm
    · intro _
      exact ⟨[], rfl⟩
  | cons first rest ih =>
    by_cases hseen : first.storedName options ∈ seen
    · rw [attributeDefinitions_cons_seen hseen, ih]
      refine forall₂_congr fun name hname => ?_
      have hne : first.storedName options ≠ name := fun heq => hname (heq ▸ hseen)
      rw [Member.storedAs?_cons, if_neg hne]
    · simp only [attributeDefinitions_cons_eq_ok hseen]
      constructor
      · rintro ⟨_, type, others, htype, hothers, rfl⟩ name hname m hm
        rw [Member.storedAs?_cons] at hm
        split at hm
        · cases hm
          rw [htype]
          rfl
        · rename_i hne
          refine ih.mp ⟨others, hothers⟩ name (fun hmem => ?_) m hm
          rcases List.mem_cons.mp hmem with rfl | hmem
          · exact hne rfl
          · exact hname hmem
      · intro hall
        obtain ⟨type, htype⟩ := Option.isSome_iff_exists.mp
          (hall _ hseen first (by rw [Member.storedAs?_cons, if_pos rfl]))
        have hrest : ∀ name ∉ first.storedName options :: seen, ∀ m,
            Member.storedAs? options rest name = some m → (m.scalarType? options).isSome := by
          intro name hname m hm
          rw [List.mem_cons, not_or] at hname
          refine hall name hname.2 m ?_
          rw [Member.storedAs?_cons, if_neg (Ne.symm hname.1), hm]
        obtain ⟨others, hothers⟩ := ih.mpr hrest
        exact ⟨_, type, others, htype, hothers, rfl⟩

/-- A valid table has a definition, whose attributes are those of the first members of their names. -/
theorem exists_toDefinition {s : Schema} (h : ofSchema s = .ok d) (options : CodecOptions)
    (tableName : String) :
    ∃ definition, d.toDefinition options tableName = .ok definition ∧
      d.attributeDefinitions options [] d.keyMembers = .ok definition.attributeDefinitions := by
  have htypes : ∃ definitions, d.attributeDefinitions options [] d.keyMembers = .ok definitions := by
    refine exists_attributeDefinitions.mpr fun name _ m hm => ?_
    obtain ⟨-, -, hkind⟩ := exists_member_of_mem_keyMembers h (Member.mem_of_storedAs? hm)
    exact Member.isSome_scalarType?_iff.mpr hkind
  obtain ⟨definitions, hdefinitions⟩ := htypes
  rw [toDefinition, hdefinitions]
  exact ⟨_, rfl, rfl⟩

end TableDescriptor

end ItemMapper
