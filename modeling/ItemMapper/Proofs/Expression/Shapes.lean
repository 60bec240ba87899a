import ItemMapper.Proofs.Codec.Shapes
import ItemMapper.Proofs.Condition.Meaning
import ItemMapper.Proofs.Expression.Paths
import ItemMapper.Proofs.Expression.StoredVariants

/-!
# Paths and the shape of what is stored

A path over a document is written if each name is one of a member, declared or stored, of the document
that is known there, and if each index is a position or a text. What is known is the document that a type
is, holds, or is a list of at any depth, and it stays known from a list to its elements. Nothing compares
the number of lists with the number of positions: a name may follow a list at once, and a position may
follow what is no list.

A path follows the shape of what is stored if each name that is looked up stands behind a value that is a
document, and each position behind a list. This is so exactly if, since the last name, there are as many
positions before a name as there are lists around the document, and nowhere more positions than lists. In
the item of a document nothing is found by a name that does not stand behind a document.

## Main definitions

* `Expr.IsWritten`: the paths that are written.
* `Expr.base`, `Expr.positions`: an expression without the positions at its end, and their number.
* `Expr.found?`: what is found in an item.
* `Codec.LeadsTo`: the type of what an expression leads to.
* `Codec.FollowsShape`: paths that follow the shape of what is stored.
* `Codec.CountsLists`: paths with as many positions as there are lists.
* `Codec.HasShape`: items in which what is found has the shape that the types give.

## Main statements

* `Expr.exists_path_iff`: which paths are written.
* `Codec.nests_of_schemaOf?`: the document that is known is one that the expression leads to.
* `Codec.followsShape_iff_countsLists`: which paths follow the shape.
* `Codec.hasShape_of_toItem`: the items of documents have the shape.
* `Codec.followsShape_iff`: **which paths are written and which of them follow the shape**.
-/

namespace ItemMapper

/-! ### Steps in attribute values -/

namespace AttributeValue

/-- What stands in an attribute value at a step. -/
def at? : AttributeValue → Step → Option AttributeValue
  | map fields, .member name => Fields.get? fields name
  | list items, .element position => items[position]?
  | _, _ => none

variable {value found : AttributeValue}

theorem at?_member_eq_some {name : String} :
    value.at? (.member name) = some found ↔
      ∃ fields : Item, value = map fields ∧ fields.get? name = some found := by
  cases value <;> simp [at?]

theorem at?_element_eq_some {position : Nat} :
    value.at? (.element position) = some found ↔
      ∃ items, value = list items ∧ items[position]? = some found := by
  cases value <;> simp [at?]

end AttributeValue

/-! ### Paths that are written -/

namespace Expr

/-- The paths that are written: each name is one of the document that is known there, if one is, and each
index is a position or a text. The item itself is not indexed. -/
inductive IsWritten (scope : Scope) : Expr → Prop
  | first {name : String}
      (named : ∀ schema, scope.root = some schema →
        ∃ found, schema.lookup? name scope.options = some found) :
      IsWritten scope (.member .item name)
  | member {parent : Expr} {name : String} (above : IsWritten scope parent)
      (named : ∀ schema, parent.schemaOf? scope = some schema →
        ∃ found, schema.lookup? name scope.options = some found) :
      IsWritten scope (.member parent name)
  | element {parent : Expr} {i : Int} (above : IsWritten scope parent) (nonnegative : 0 ≤ i) :
      IsWritten scope (.index parent (.constant (.int i)))
  | entry {parent : Expr} {key : String} (above : IsWritten scope parent) :
      IsWritten scope (.index parent (.constant (.text key)))

variable {scope : Scope} {schema : Option Schema} {name : String} {a : Aliases} {e : Expr}

theorem IsWritten.ne_item (h : IsWritten scope e) : e ≠ .item := by
  rintro rfl
  cases h

theorem exists_memberNamed_iff : (∃ found, memberNamed scope schema name = .ok found) ↔
    ∀ known, schema = some known → ∃ found, known.lookup? name scope.options = some found := by
  cases schema with
  | none => exact ⟨fun _ => nofun, fun _ => ⟨_, rfl⟩⟩
  | some schema =>
    rw [memberNamed]
    cases hlookup : schema.lookup? name scope.options with
    | none => simp [hlookup]
    | some found =>
      obtain ⟨i, m⟩ := found
      simp [hlookup]

theorem exists_memberPath_iff (parent : Option String) :
    (∃ path b, memberPath scope parent schema name a = .ok path b) ↔
      ∀ known, schema = some known → ∃ found, known.lookup? name scope.options = some found := by
  rw [← exists_memberNamed_iff]
  constructor
  · rintro ⟨path, b, h⟩
    obtain ⟨found, hfound, -⟩ := AliasM.ofExcept_bind_eq_ok.mp h
    exact ⟨found, hfound⟩
  · rintro ⟨found, hfound⟩
    exact exists_memberPath hfound parent a

/-- **Which paths are written**, whatever placeholders there are. -/
theorem exists_path_iff : (∃ path b, e.path scope a = .ok path b) ↔ e.IsWritten scope := by
  constructor
  · rintro ⟨path, b, h⟩
    fun_induction Expr.path scope e generalizing a b path with
    | case1 name => exact .first ((exists_memberPath_iff none).mp ⟨path, b, h⟩)
    | case2 parent name _ ih =>
      obtain ⟨above, a₂, habove, h⟩ := bind_eq_ok.mp h
      rw [(path_known habove).2] at h
      exact .member (ih above a₂ habove) ((exists_memberPath_iff _).mp ⟨path, b, h⟩)
    | case4 parent key _ ih =>
      obtain ⟨above, a₂, habove, -⟩ := bind_eq_ok.mp h
      exact .entry (ih above a₂ habove)
    | case5 parent _ i hi _ ih =>
      obtain ⟨above, a₂, habove, -⟩ := bind_eq_ok.mp h
      exact .element (ih above a₂ habove) hi
    | case3 | case6 | case7 | case8 => cases h
  · intro h
    induction h generalizing a with
    | first named => exact (exists_memberPath_iff none).mpr named
    | member above named ih =>
      obtain ⟨path, b, hpath⟩ := ih (a := a)
      rw [← (path_known hpath).2] at named
      obtain ⟨path', b', hmember⟩ := (exists_memberPath_iff (some path.text) (a := b)).mpr named
      rw [path_member above.ne_item]
      exact ⟨path', b', bind_eq_ok.mpr ⟨path, b, hpath, hmember⟩⟩
    | element above nonnegative ih =>
      obtain ⟨path, b, hpath⟩ := ih (a := a)
      rw [path_element above.ne_item nonnegative]
      exact ⟨_, b, bind_eq_ok.mpr ⟨path, b, hpath, rfl⟩⟩
    | @entry _ key above ih =>
      obtain ⟨path, b, hpath⟩ := ih (a := a)
      obtain ⟨segment, b', hsegment⟩ := exists_escape key b
      rw [path_entry above.ne_item]
      refine ⟨⟨s!"{path.text}.{segment}", none, none⟩, b', bind_eq_ok.mpr ⟨path, b, hpath, ?_⟩⟩
      exact bind_eq_ok.mpr ⟨segment, b', hsegment, rfl⟩

/-- The expression without the positions at its end. -/
def base : Expr → Expr
  | .index parent (.constant (.int _)) => parent.base
  | other => other

/-- The number of positions at the end of the expression. -/
def positions : Expr → Nat
  | .index parent (.constant (.int _)) => parent.positions + 1
  | _ => 0

/-- What an expression leads to in an item, where its steps lead to something. -/
def found? (scope : Scope) (item : Item) (e : Expr) : Option AttributeValue :=
  (e.steps? scope).bind fun steps => steps.foldlM AttributeValue.at? (.map item)

section
variable {item : Item} {parent : Expr} {found : AttributeValue}

theorem found?_member_eq_some :
    (Expr.member parent name).found? scope item = some found ↔
      ∃ (fields : Item) (stored : String), parent.found? scope item = some (.map fields) ∧
        storedName? scope (parent.schemaOf? scope) name = some stored ∧
        fields.get? stored = some found := by
  rw [found?, found?, steps?]
  cases parent.steps? scope with
  | none => simp
  | some steps =>
    cases storedName? scope (parent.schemaOf? scope) name with
    | none => simp
    | some stored =>
      simp [List.foldlM_append, Option.bind_eq_some_iff, AttributeValue.at?_member_eq_some]

theorem found?_entry_eq_some {key : String} :
    (Expr.index parent (.constant (.text key))).found? scope item = some found ↔
      ∃ fields : Item, parent.found? scope item = some (.map fields) ∧
        fields.get? key = some found := by
  rw [found?, found?, steps?]
  cases parent.steps? scope with
  | none => simp
  | some steps =>
    simp [List.foldlM_append, Option.bind_eq_some_iff, AttributeValue.at?_member_eq_some]

theorem found?_element_eq_some {position : Int} :
    (Expr.index parent (.constant (.int position))).found? scope item = some found ↔
      ∃ items, parent.found? scope item = some (.list items) ∧ 0 ≤ position ∧
        items[position.toNat]? = some found := by
  rw [found?, found?, steps?]
  cases parent.steps? scope with
  | none => simp
  | some steps =>
    by_cases hnonnegative : 0 ≤ position
    · simp [hnonnegative, List.foldlM_append, Option.bind_eq_some_iff,
        AttributeValue.at?_element_eq_some]
    · simp [hnonnegative]

end

end Expr

/-! ### Types of what a path leads to -/

namespace Codec

variable {c : Codec} {id owner : DocumentId} {scope : Scope} {e holder parent : Expr} {name : String}
  {type type' : Ty}

/-- What an expression leads to has a type: it leads from a document, through members of the documents
that are known and through the elements of lists and the entries of maps. -/
inductive LeadsTo (c : Codec) (id : DocumentId) : Expr → Ty → Prop
  | item : LeadsTo c id .item (.document id)
  | member {holder : Expr} {owner : DocumentId} {name : String} {f : Field}
      (hholder : c.Nests id holder owner) (hf : c.Finds owner name f) :
      LeadsTo c id (.member holder name) f.type
  | element {holder : Expr} {type inner : Ty} (hholder : LeadsTo c id holder type)
      (hinner : type.element? = some inner) (position : Int) :
      LeadsTo c id (.index holder (.constant (.int position))) inner
  | entry {holder : Expr} {type inner : Ty} (hholder : LeadsTo c id holder type)
      (hinner : type.entry? = some inner) (key : String) :
      LeadsTo c id (.index holder (.constant (.text key))) inner

/-- A name means one member. -/
theorem Finds.unique {f f' : Field} (h : c.Finds owner name f) (h' : c.Finds owner name f') : f = f' := by
  obtain ⟨schema, i, hschema, hi, hlookup⟩ := h
  obtain ⟨schema', i', hschema', hi', hlookup'⟩ := h'
  cases hschema.symm.trans hschema'
  have hindex : i = i' := congrArg Prod.fst (Option.some.inj (hlookup.symm.trans hlookup'))
  subst hindex
  exact Option.some.inj (hi.symm.trans hi')

theorem Nests.unique {owner' : DocumentId} (h : c.Nests id e owner) (h' : c.Nests id e owner') :
    owner = owner' := by
  induction h generalizing owner' with
  | item =>
    cases h'
    rfl
  | member _ hf hinner ih =>
    cases h' with
    | member h' hf' hinner' =>
      obtain rfl := ih h'
      obtain rfl := hf.unique hf'
      exact Option.some.inj (hinner.symm.trans hinner')
  | element _ _ ih =>
    cases h' with
    | element h' _ => exact ih h'

theorem LeadsTo.unique (h : c.LeadsTo id e type) (h' : c.LeadsTo id e type') : type = type' := by
  induction h generalizing type' with
  | item =>
    cases h'
    rfl
  | member hholder hf =>
    cases h' with
    | member hholder' hf' =>
      obtain rfl := hholder.unique hholder'
      rw [hf.unique hf']
  | element _ hinner _ ih =>
    cases h' with
    | element h' hinner' _ =>
      obtain rfl := ih h'
      exact Option.some.inj (hinner.symm.trans hinner')
  | entry _ hinner _ ih =>
    cases h' with
    | entry h' hinner' _ =>
      obtain rfl := ih h'
      exact Option.some.inj (hinner.symm.trans hinner')

/-- The base of an expression that leads to documents has a type of these. -/
theorem exists_leadsTo_base (h : c.Nests id e owner) :
    ∃ type, c.LeadsTo id e.base type ∧ type.document? = some owner := by
  induction h with
  | item => exact ⟨_, .item, rfl⟩
  | member hholder hf hinner _ => exact ⟨_, .member hholder hf, hinner⟩
  | element _ _ ih => exact ih

/-- The elements at positions have a type if there are no more positions than lists. -/
theorem exists_leadsTo (h : c.LeadsTo id e.base type) (hle : e.positions ≤ type.lists) :
    ∃ inner, c.LeadsTo id e inner ∧ inner.lists + e.positions = type.lists ∧
      inner.core = type.core := by
  fun_induction Expr.base e with
  | case1 parent position ih =>
    rw [Expr.positions] at hle ⊢
    obtain ⟨inner, hinner, hlists, hcore⟩ := ih h (Nat.le_of_succ_le hle)
    have hpos : 0 < inner.lists := by omega
    obtain ⟨element, helement⟩ := Ty.exists_element? hpos
    obtain ⟨hlists', hcore', -⟩ := Ty.lists_of_element? helement
    exact ⟨element, .element hinner helement position, by omega, hcore'.symm.trans hcore⟩
  | case2 other hother =>
    have hzero : other.positions = 0 := by
      unfold Expr.positions
      split
      · exact (hother _ _ rfl).elim
      · rfl
    exact ⟨type, h, by rw [hzero, Nat.add_zero], rfl⟩

/-- Elements at positions are those of as many lists. -/
theorem LeadsTo.exists_base (h : c.LeadsTo id e type) :
    ∃ outer, c.LeadsTo id e.base outer ∧ type.lists + e.positions = outer.lists ∧
      type.core = outer.core := by
  induction h with
  | item => exact ⟨_, .item, rfl, rfl⟩
  | member hholder hf => exact ⟨_, .member hholder hf, rfl, rfl⟩
  | element _ hinner position ih =>
    obtain ⟨outer, houter, hlists, hcore⟩ := ih
    obtain ⟨hlists', hcore', -⟩ := Ty.lists_of_element? hinner
    refine ⟨outer, houter, ?_, hcore'.symm.trans hcore⟩
    rw [Expr.positions]
    omega
  | entry hholder hinner key => exact ⟨_, .entry hholder hinner key, rfl, rfl⟩

/-- The member that a name means in the schema of a document is one of its members. -/
theorem finds_of_lookup? {schema : Schema} {i : Nat} {m : Member}
    (hschema : (c.documents owner).schema c.typeName = .ok schema)
    (h : schema.lookup? name c.options = some (i, m)) :
    ∃ f, c.Finds owner name f ∧ f.member c.typeName = m := by
  have hmember : schema.members[i]? = some m := by
    rw [Schema.lookup?] at h
    split at h
    · rename_i found hdeclared
      cases h
      exact (Schema.findMember?_eq_some.mp hdeclared).1
    · exact (Schema.findMember?_eq_some.mp h).1
  have hfields : schema.members = (c.documents owner).fields.map (Field.member c.typeName) := by
    obtain ⟨_, -, heq⟩ := except_bind_eq_ok.mp hschema
    cases heq
    rfl
  rw [hfields, List.getElem?_map] at hmember
  obtain ⟨f, hf, rfl⟩ := Option.map_eq_some_iff.mp hmember
  exact ⟨f, ⟨schema, i, hschema, hf, h⟩, rfl⟩

section
variable (hscope : c.scope id = .ok scope)
include hscope

/-- **The document that is known is one that the expression leads to.** -/
theorem nests_of_schemaOf? {schema : Schema} (h : e.schemaOf? scope = some schema) :
    ∃ owner, c.Nests id e owner ∧ (c.documents owner).schema c.typeName = .ok schema := by
  obtain ⟨hoptions, hschemas, root, hroot, hrooted⟩ := scope_eq hscope
  rw [← Expr.knows_iff] at h
  induction h with
  | item h =>
    cases hrooted.symm.trans h
    exact ⟨id, .item, hroot⟩
  | member _ hlookup hinner ih =>
    obtain ⟨owner, howner, hschema⟩ := ih
    obtain ⟨f, hf, rfl⟩ := finds_of_lookup? hschema (hoptions ▸ hlookup)
    obtain ⟨inner, hdocument, hknown⟩ := Option.bind_eq_some_iff.mp hinner
    rw [hschemas] at hknown
    exact ⟨inner, .member howner hf hdocument, except_toOption_eq_some.mp hknown⟩
  | element _ position ih =>
    obtain ⟨owner, howner, hschema⟩ := ih
    exact ⟨owner, .element howner position, hschema⟩

/-- What is known is the schema of the document that the expression leads to. -/
theorem schemaOf?_eq_some_iff {schema : Schema} : e.schemaOf? scope = some schema ↔
    ∃ owner, c.Nests id e owner ∧ (c.documents owner).schema c.typeName = .ok schema :=
  ⟨nests_of_schemaOf? hscope, fun ⟨_, howner, hschema⟩ => schemaOf?_of_nests hscope howner hschema⟩

end

/-! ### The shape of what is stored -/

/-- A path that follows the shape of what is stored: what a name is looked up in is a document, where
members are known, and what is taken at a position is an element of a list, unless the type leaves open
what is stored. -/
def FollowsShape (c : Codec) (id : DocumentId) (scope : Scope) : Expr → Prop
  | .member parent _ => FollowsShape c id scope parent ∧
    (parent.schemaOf? scope ≠ none → ∃ type, c.LeadsTo id parent type ∧ type.kind = .document)
  | .index parent (.constant (.int _)) => FollowsShape c id scope parent ∧
    ∀ type, c.LeadsTo id parent type → type.kind = .list ∨ type.kind = .dynamic
  | .index parent _ => FollowsShape c id scope parent
  | _ => True

/-- A path that has, since the last name or key, as many positions as lists before a name where members
are known, and nowhere more positions than lists, unless the type of the innermost elements leaves open
what is stored. -/
def CountsLists (c : Codec) (id : DocumentId) (scope : Scope) : Expr → Prop
  | .member parent _ => CountsLists c id scope parent ∧
    (parent.schemaOf? scope ≠ none →
      ∀ type, c.LeadsTo id parent.base type → parent.positions = type.lists)
  | .index parent (.constant (.int _)) => CountsLists c id scope parent ∧
    ∀ type, c.LeadsTo id parent.base type →
      parent.positions < type.lists ∨ type.core.kind = .dynamic
  | .index parent _ => CountsLists c id scope parent
  | _ => True

/-- There are no more positions than lists at the end of a path that counts them. -/
theorem CountsLists.positions_le (h : c.CountsLists id scope e) (htype : c.LeadsTo id e.base type) :
    e.positions ≤ type.lists ∨ type.core.kind = .dynamic := by
  unfold Expr.positions
  split
  · exact (h.2 type htype).imp_left Nat.succ_le_of_lt
  · exact .inl (Nat.zero_le _)

/-- A name is looked up in a document just if there are as many positions as lists before it. -/
theorem kind_document_iff (h : c.Nests id parent owner) :
    (∃ type, c.LeadsTo id parent type ∧ type.kind = .document) ↔
      ∀ type, c.LeadsTo id parent.base type → parent.positions = type.lists := by
  obtain ⟨outer, houter, hdocument⟩ := exists_leadsTo_base h
  constructor
  · rintro ⟨type, htype, hkind⟩ outer' houter'
    obtain rfl := houter'.unique houter
    obtain ⟨outer'', houter'', hlists, hcore⟩ := htype.exists_base
    obtain rfl := houter''.unique houter
    have hzero : type.lists = 0 := Ty.lists_eq_zero (by rw [hkind]; exact nofun)
    omega
  · intro hcounts
    have heq := hcounts outer houter
    obtain ⟨type, htype, hlists, hcore⟩ := exists_leadsTo houter (Nat.le_of_eq heq)
    refine ⟨type, htype, ?_⟩
    rw [Ty.kind_of_lists_eq_zero (by omega), hcore, Ty.core_of_document? hdocument]
    rfl

/-- An element is taken from a list just if there are fewer positions than lists before it, provided that
there were not more before. -/
theorem kind_list_iff (h : c.CountsLists id scope parent) :
    (∀ type, c.LeadsTo id parent type → type.kind = .list ∨ type.kind = .dynamic) ↔
      ∀ type, c.LeadsTo id parent.base type →
        parent.positions < type.lists ∨ type.core.kind = .dynamic := by
  constructor
  · intro hkinds outer houter
    rcases h.positions_le houter with hle | hdynamic
    · obtain ⟨type, htype, hlists, hcore⟩ := exists_leadsTo houter hle
      rcases hkinds type htype with hkind | hkind
      · have hpos := Ty.kind_eq_list_iff.mp hkind
        exact .inl (by omega)
      · refine .inr ?_
        rw [← hcore, ← Ty.kind_of_lists_eq_zero (Ty.lists_eq_zero (by rw [hkind]; exact nofun)), hkind]
    · exact .inr hdynamic
  · intro hcounts type htype
    obtain ⟨outer, houter, hlists, hcore⟩ := htype.exists_base
    by_cases hpos : 0 < type.lists
    · exact .inl (Ty.kind_of_lists_pos hpos)
    · have hzero := Nat.eq_zero_of_not_pos hpos
      refine .inr ?_
      rw [Ty.kind_of_lists_eq_zero hzero, hcore]
      exact (hcounts outer houter).resolve_left (by omega)

/-- A path follows the shape just if it counts the lists. -/
theorem followsShape_iff_countsLists (hscope : c.scope id = .ok scope) (e : Expr) :
    c.FollowsShape id scope e ↔ c.CountsLists id scope e := by
  fun_induction FollowsShape c id scope e with
  | case1 parent name ih =>
    rw [CountsLists, ih]
    refine and_congr_right fun _ => imp_congr_right fun hknown => ?_
    obtain ⟨schema, hschema⟩ := Option.ne_none_iff_exists'.mp hknown
    obtain ⟨owner, howner, -⟩ := nests_of_schemaOf? hscope hschema
    exact kind_document_iff howner
  | case2 parent position ih =>
    rw [CountsLists, ih]
    exact and_congr_right kind_list_iff
  | case3 parent position hposition ih =>
    rw [CountsLists, ih]
    exact hposition
  | case4 other hmember helement hentry =>
    unfold CountsLists
    split
    · exact (hmember _ _ rfl).elim
    · exact (helement _ _ rfl).elim
    · exact (hentry _ _ rfl).elim
    · rfl

/-! ### What is found in items -/

section
variable {item : Item} {found : AttributeValue}

/-- The documents that are reached from a document have members with different names, and no hooks. -/
def ReachesPlain (c : Codec) (id : DocumentId) : Prop :=
  ∀ holder owner, c.Nests id holder owner →
    ((c.documents owner).fields.map c.storedName).Nodup ∧
      ∀ f ∈ (c.documents owner).fields, f.onWrite = []

theorem storedName?_of_finds (hscope : c.scope id = .ok scope) {f : Field}
    (hholder : c.Nests id holder owner) (hf : c.Finds owner name f) :
    Expr.storedName? scope (holder.schemaOf? scope) name = some (c.storedName f) := by
  obtain ⟨schema, i, hschema, -, hlookup⟩ := hf
  rw [schemaOf?_of_nests hscope hholder hschema, Expr.storedName?, (scope_eq hscope).1, hlookup]
  rfl

/-- A member that the document has which is known is found there. -/
theorem exists_lookup?_of_finds (hscope : c.scope id = .ok scope) {f : Field}
    (hholder : c.Nests id holder owner) (hf : c.Finds owner name f) :
    ∀ schema, holder.schemaOf? scope = some schema →
      ∃ found, schema.lookup? name scope.options = some found := by
  obtain ⟨known, i, hknown, -, hlookup⟩ := hf
  intro schema hschema
  cases (schemaOf?_of_nests hscope hholder hknown).symm.trans hschema
  rw [(scope_eq hscope).1]
  exact ⟨_, hlookup⟩

theorem Finds.mem_fields {f : Field} (h : c.Finds owner name f) : f ∈ (c.documents owner).fields := by
  obtain ⟨schema, i, -, hi, -⟩ := h
  exact List.mem_of_getElem? hi

variable (hscope : c.scope id = .ok scope) (hplaces : c.ConvertersPlace) (hplain : c.ReachesPlain id)
  (hitem : c.Writes (.document id) (.map item))
include hscope hplaces hplain hitem

/-- What is found where an expression leads to documents, or to lists of them, is written there. -/
theorem exists_writes (h : c.Nests id e owner) (hfound : e.found? scope item = some found) :
    ∃ type, c.LeadsTo id e type ∧ type.document? = some owner ∧ c.Writes type found := by
  induction h generalizing found with
  | item =>
    cases hfound
    exact ⟨_, .item, rfl, hitem⟩
  | member hholder hf hinner ih =>
    obtain ⟨fields, stored, hfields, hstored, hget⟩ := Expr.found?_member_eq_some.mp hfound
    cases (storedName?_of_finds hscope hholder hf).symm.trans hstored
    -- Something is found in a map only, so that it is one of the document and not of a list around it.
    obtain ⟨type, -, howner, hwrites⟩ := ih hfields
    obtain ⟨hnames, hhooks⟩ := hplain _ _ hholder
    exact ⟨_, .member hholder hf, hinner, writes_member hplaces (hwrites.of_map hplaces howner).2 hnames
      hf.mem_fields (hhooks _ hf.mem_fields) hget⟩
  | element _ position ih =>
    obtain ⟨items, hitems, -, hget⟩ := Expr.found?_element_eq_some.mp hfound
    obtain ⟨type, htype, howner, hwrites⟩ := ih hitems
    obtain ⟨inner, hinner, helements⟩ := hwrites.of_list hplaces howner
    exact ⟨inner, .element htype hinner position,
      (Ty.lists_of_element? hinner).2.2.symm.trans howner,
      helements found (List.mem_of_getElem? hget)⟩

/-- **What is found where an expression leads to is written of a value of its type.** -/
theorem LeadsTo.writes (h : c.LeadsTo id e type) (hfound : e.found? scope item = some found) :
    c.Writes type found := by
  induction h generalizing found with
  | item =>
    cases hfound
    exact hitem
  | member hholder hf =>
    obtain ⟨fields, stored, hfields, hstored, hget⟩ := Expr.found?_member_eq_some.mp hfound
    cases (storedName?_of_finds hscope hholder hf).symm.trans hstored
    obtain ⟨type, -, howner, hwrites⟩ := exists_writes hscope hplaces hplain hitem hholder hfields
    obtain ⟨hnames, hhooks⟩ := hplain _ _ hholder
    exact writes_member hplaces (hwrites.of_map hplaces howner).2 hnames hf.mem_fields
      (hhooks _ hf.mem_fields) hget
  | element _ hinner position ih =>
    obtain ⟨items, hitems, -, hget⟩ := Expr.found?_element_eq_some.mp hfound
    obtain hnull | ⟨items', heq, helements⟩ := (ih hitems).exists_items hplaces hinner
    · cases hnull
    · cases heq
      exact helements found (List.mem_of_getElem? hget)
  | entry _ hinner key ih =>
    obtain ⟨fields, hfields, hget⟩ := Expr.found?_entry_eq_some.mp hfound
    exact (ih hfields).entry hplaces hinner hget

end

/-- An item in which what is found has the shape that the types give: documents are maps and lists are
lists, if they are not null, and by a name something is found only behind a document, where members are
known. -/
structure HasShape (c : Codec) (id : DocumentId) (scope : Scope) (item : Item) : Prop where
  documents : ∀ e type found, c.LeadsTo id e type → e.found? scope item = some found →
    type.kind = .document → found = .null true ∨ ∃ fields, found = .map fields
  lists : ∀ e type found, c.LeadsTo id e type → e.found? scope item = some found →
    type.kind = .list → found = .null true ∨ ∃ items, found = .list items
  named : ∀ parent name found, parent.schemaOf? scope ≠ none →
    (Expr.member parent name).found? scope item = some found →
      ∃ type, c.LeadsTo id parent type ∧ type.kind = .document

/-- **The items of documents have the shape that the types give.** -/
theorem hasShape_of_toItem (hscope : c.scope id = .ok scope) (hplaces : c.ConvertersPlace)
    (hplain : c.ReachesPlain id) {value : Datum} {item : Item}
    (h : c.toItem (.document id) value = .ok item) : c.HasShape id scope item where
  documents e type found htype hfound hkind :=
    (htype.writes hscope hplaces hplain (writes_of_toItem hplaces h) hfound).exists_fields hplaces hkind
  lists e type found htype hfound hkind := by
    obtain ⟨inner, hinner⟩ := Ty.exists_element? (Ty.kind_eq_list_iff.mp hkind)
    have hwrites := htype.writes hscope hplaces hplain (writes_of_toItem hplaces h) hfound
    exact (hwrites.exists_items hplaces hinner).imp_right fun ⟨items, hitems, _⟩ => ⟨items, hitems⟩
  named parent name found hknown hfound := by
    obtain ⟨schema, hschema⟩ := Option.ne_none_iff_exists'.mp hknown
    obtain ⟨owner, howner, -⟩ := nests_of_schemaOf? hscope hschema
    obtain ⟨fields, stored, hfields, -, -⟩ := Expr.found?_member_eq_some.mp hfound
    obtain ⟨type, htype, hdocument, hwrites⟩ :=
      exists_writes hscope hplaces hplain (writes_of_toItem hplaces h) howner hfields
    refine ⟨type, htype, ?_⟩
    rw [Ty.kind_of_lists_eq_zero (hwrites.of_map hplaces hdocument).1, Ty.core_of_document? hdocument]
    rfl

/-- **Which paths are written and which of them follow the shape.** A path over a document is written,
whatever placeholders there are, exactly if each name behind which members are known is one of a member of
the document that is known there, and each index is a position that is not negative or a text. What is
known is the document that the types of the members along the path lead to, be it held or listed. A path
follows the shape exactly if it has, since the last name or key, as many positions as there are lists
before each of these names, and nowhere more positions than lists. In the item of a document whose members
have different names and no hooks, what is found at the documents and lists of a path are maps and lists,
and a name that does not stand behind a document finds nothing. -/
theorem followsShape_iff (hscope : c.scope id = .ok scope) (e : Expr) :
    (∀ a, (∃ path b, e.path scope a = .ok path b) ↔ e.IsWritten scope) ∧
      (∀ schema, e.schemaOf? scope = some schema ↔
        ∃ owner, c.Nests id e owner ∧ (c.documents owner).schema c.typeName = .ok schema) ∧
      (c.FollowsShape id scope e ↔ c.CountsLists id scope e) ∧
      (c.ConvertersPlace → c.ReachesPlain id →
        ∀ value item, c.toItem (.document id) value = .ok item → c.HasShape id scope item) :=
  ⟨fun _ => Expr.exists_path_iff, fun _ => schemaOf?_eq_some_iff hscope,
    followsShape_iff_countsLists hscope e,
    fun hplaces hplain _ _ hitem => hasShape_of_toItem hscope hplaces hplain hitem⟩

/-! ### Fleets -/

theorem scope_fleet : fleetCodec.scope 0 = .ok fleetScope := rfl

theorem finds_ships : fleetCodec.Finds 0 "ships" fleetShips := by
  have hfleet : (fleetCodec.documents 0).schema fleetCodec.typeName =
      .ok ⟨"Fleet", [fleetShips.member fleetCodec.typeName]⟩ := by rfl
  exact finds_name (f := fleetShips) hfleet List.mem_cons_self

theorem schema_ship : (fleetCodec.documents 1).schema fleetCodec.typeName =
    .ok ⟨"Ship", [shipRig.member fleetCodec.typeName]⟩ := rfl

theorem finds_rig : fleetCodec.Finds 1 "rig" shipRig :=
  finds_name (f := shipRig) schema_ship List.mem_cons_self

/-- The ships of a fleet are a list. -/
theorem leadsTo_ships : fleetCodec.LeadsTo 0 (.member .item "ships") fleetShips.type :=
  .member .item finds_ships

theorem isWritten_ships : (Expr.member .item "ships").IsWritten fleetScope :=
  .first (exists_lookup?_of_finds scope_fleet .item finds_ships)

theorem reachesPlain_fleet : fleetCodec.ReachesPlain 0 := by
  intro holder owner _
  match owner with
  | 0 => exact ⟨List.nodup_singleton _, List.forall_mem_singleton.mpr rfl⟩
  | _ + 1 => exact ⟨List.nodup_singleton _, List.forall_mem_singleton.mpr rfl⟩

/-- A fleet of one ship. -/
def oneShip : Datum :=
  .document [.list [.document [.present (.boxed (.enumeration 1))]]]

/-- The rig of the first ship of a fleet, and what is found there. -/
theorem followsShape_firstShip :
    (∃ path b, (Expr.member firstShip "rig").path fleetScope default = .ok path b) ∧
      fleetCodec.FollowsShape 0 fleetScope (.member firstShip "rig") ∧
      fleetCodec.HasShape 0 fleetScope
        [("ships", .list [.map [("Rig", .text "fore-and-aft")]])] ∧
      (Expr.member firstShip "rig").found? fleetScope
        [("ships", .list [.map [("Rig", .text "fore-and-aft")]])] = some (.text "fore-and-aft") := by
  obtain ⟨hwritten, -, hfollows, hshape⟩ := followsShape_iff scope_fleet (.member firstShip "rig")
  have hfirst : fleetCodec.Nests 0 firstShip 1 := .element (.member .item finds_ships rfl) 0
  have hitem : fleetCodec.toItem (.document 0) oneShip =
      .ok [("ships", .list [.map [("Rig", .text "fore-and-aft")]])] :=
    except_toOption_eq_some.mp (by decide +kernel)
  refine ⟨(hwritten default).mpr ?_, hfollows.mpr ⟨⟨⟨trivial, fun _ type htype => ?_⟩,
    fun type htype => .inl ?_⟩, fun _ type htype => ?_⟩,
    hshape (convertersPlace_of_builtins rfl) reachesPlain_fleet _ _ hitem, by decide +kernel⟩
  · exact .member (.element isWritten_ships (Int.le_refl 0))
      (exists_lookup?_of_finds scope_fleet hfirst finds_rig)
  · cases htype.unique .item
    rfl
  · cases htype.unique leadsTo_ships
    exact Nat.one_pos
  · cases htype.unique leadsTo_ships
    rfl

/-- The path to a rig of the ships of a fleet is written, though the ships are a list. -/
theorem not_forall_followsShape :
    ¬ ∀ (c : Codec) (id : DocumentId) (scope : Scope) (e : Expr) (a b : Aliases) (path : Path),
      c.scope id = .ok scope → e.path scope a = .ok path b → c.FollowsShape id scope e := by
  intro h
  have hships : fleetCodec.Nests 0 (.member .item "ships") 1 := .member .item finds_ships rfl
  have hrig := exists_lookup?_of_finds scope_fleet hships finds_rig
  obtain ⟨path, b, hpath⟩ := Expr.exists_path_iff (a := default).mpr (.member isWritten_ships hrig)
  obtain ⟨-, hdocument⟩ := h _ _ _ _ _ _ _ scope_fleet hpath
  have hknown : (Expr.member .item "ships").schemaOf? fleetScope ≠ none := by
    rw [schemaOf?_of_nests scope_fleet hships schema_ship]
    exact nofun
  obtain ⟨type, htype, hkind⟩ := hdocument hknown
  cases htype.unique leadsTo_ships
  cases hkind

end Codec

end ItemMapper
