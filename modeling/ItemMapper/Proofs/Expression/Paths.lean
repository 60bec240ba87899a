import ItemMapper.Proofs.Aliases.Compilation
import ItemMapper.Proofs.Aliases.Lookup

/-!
# What is known of paths

The type and the schema that come with the text of a path are those that the expression has without being
written, whatever the placeholder tables are. The path to a member that the schema knows is always
written, as asking for a placeholder never fails.

## Main definitions

* `Expr.Knows`: what is known of what an expression leads to.
* `Expr.IsDeclared`: the type that is declared for what an expression leads to.

## Main statements

* `Expr.path_known`: the type and the schema of a path that is written.
* `Expr.knows_iff`, `Expr.isDeclared_iff`: where a schema and a type are known.
* `Expr.exists_memberPath`: the path to a known member.
* `Expr.typeOf?_agrees`: **types and hints agree with paths**.
-/

namespace ItemMapper.Expr

variable {scope : Scope} {schema : Option Schema} {name : String} {a b : Aliases} {path : Path}

theorem exists_escape (name : String) (a : Aliases) : ∃ segment b, escape name a = .ok segment b := by
  rw [escape]
  split
  · obtain ⟨segment, b, hrun, -⟩ := Aliases.nameAlias_cases a name
    exact ⟨segment, b, hrun⟩
  · exact ⟨name, a, rfl⟩

theorem typeNamed?_of_memberNamed {stored : String} {type : Option TypeInfo}
    (h : memberNamed scope schema name = .ok (stored, type)) :
    typeNamed? scope schema name = type := by
  unfold memberNamed at h
  split at h
  · cases h
    rfl
  · split at h
    · rename_i schema _ found hlookup
      cases h
      rw [typeNamed?, Option.bind_some, hlookup]
      rfl
    · cases h

theorem memberPath_known {parent : Option String}
    (h : memberPath scope parent schema name a = .ok path b) :
    path.type = typeNamed? scope schema name ∧
      path.schema = (typeNamed? scope schema name).bind scope.schemaOf? := by
  obtain ⟨⟨stored, type⟩, hfound, h⟩ := AliasM.ofExcept_bind_eq_ok.mp h
  obtain ⟨segment, b, -, h⟩ := bind_eq_ok.mp h
  obtain ⟨rfl, rfl⟩ := pure_eq_ok.mp h
  cases typeNamed?_of_memberNamed hfound
  exact ⟨rfl, rfl⟩

/-- The type and the schema of a path that is written are those of the expression. -/
theorem path_known {e : Expr} (h : e.path scope a = .ok path b) :
    path.type = e.typeOf? scope ∧ path.schema = e.schemaOf? scope := by
  fun_induction Expr.path scope e generalizing a b path with
  | case1 name =>
    rw [typeOf?, schemaOf?, schemaOf?]
    exact memberPath_known h
  | case2 parent name _ ih =>
    obtain ⟨above, a₂, habove, h⟩ := bind_eq_ok.mp h
    rw [typeOf?, schemaOf?, ← (ih habove).2]
    exact memberPath_known h
  | case4 parent key _ ih =>
    obtain ⟨above, a₂, -, h⟩ := bind_eq_ok.mp h
    obtain ⟨segment, a₃, -, h⟩ := bind_eq_ok.mp h
    obtain ⟨rfl, rfl⟩ := pure_eq_ok.mp h
    exact ⟨rfl, rfl⟩
  | case5 parent _ _ i hi ih =>
    obtain ⟨above, a₂, habove, h⟩ := bind_eq_ok.mp h
    obtain ⟨rfl, rfl⟩ := pure_eq_ok.mp h
    exact ⟨rfl, (ih habove).2⟩
  | case3 | case6 | case7 | case8 => cases h

/-- What is known where: of the item, of members that are, hold or list documents, and of elements as of the
list before them. -/
inductive Knows (scope : Scope) : Expr → Schema → Prop
  | item {schema : Schema} (h : scope.root = some schema) : Knows scope .item schema
  | member {parent : Expr} {name : String} {above schema : Schema} {i : Nat} {m : Member}
      (habove : Knows scope parent above) (hm : above.lookup? name scope.options = some (i, m))
      (hinner : scope.schemaOf? m.type = some schema) : Knows scope (.member parent name) schema
  | element {parent : Expr} {schema : Schema} (habove : Knows scope parent schema) (position : Int) :
      Knows scope (.index parent (.constant (.int position))) schema

theorem knows_iff {e : Expr} {schema : Schema} :
    e.Knows scope schema ↔ e.schemaOf? scope = some schema := by
  constructor
  · intro h
    induction h with
    | item h => exact h
    | member _ hm hinner ih =>
      rw [schemaOf?, typeNamed?, ih, Option.bind_some, hm]
      exact hinner
    | element _ _ ih => exact ih
  · intro h
    fun_induction Expr.schemaOf? scope e generalizing schema with
    | case1 => exact .item h
    | case2 parent name ih =>
      obtain ⟨type, htype, hinner⟩ := Option.bind_eq_some_iff.mp h
      obtain ⟨above, habove, hfound⟩ := Option.bind_eq_some_iff.mp htype
      obtain ⟨⟨i, m⟩, hm, rfl⟩ := Option.map_eq_some_iff.mp hfound
      exact .member (ih habove) hm hinner
    | case3 parent position ih => exact .element (ih h) position
    | case4 => cases h

/-- The path to a member that the schema knows is written. -/
theorem exists_memberPath {found : String × Option TypeInfo}
    (h : memberNamed scope schema name = .ok found) (parent : Option String) (a : Aliases) :
    ∃ path b, memberPath scope parent schema name a = .ok path b := by
  obtain ⟨segment, b, hsegment⟩ := exists_escape found.1 a
  refine ⟨⟨parent.elim segment (s!"{·}.{segment}"), found.2, found.2.bind scope.schemaOf?⟩, b, ?_⟩
  refine AliasM.ofExcept_bind_eq_ok.mpr ⟨found, h, bind_eq_ok.mpr ⟨segment, b, hsegment, ?_⟩⟩
  cases parent <;> rfl

/-! ### Steps of paths -/

section
variable {parent : Expr}

theorem path_member (h : parent ≠ .item) (name : String) :
    (Expr.member parent name).path scope = (do
      let above ← parent.path scope
      memberPath scope (some above.text) above.schema name) := by
  cases parent with
  | item => exact (h rfl).elim
  | _ => rfl

theorem path_entry (h : parent ≠ .item) (key : String) :
    (Expr.index parent (.constant (.text key))).path scope = (do
      let above ← parent.path scope
      entryPath above key) := by
  cases parent with
  | item => exact (h rfl).elim
  | _ => rfl

theorem path_element (h : parent ≠ .item) {i : Int} (hi : 0 ≤ i) :
    (Expr.index parent (.constant (.int i))).path scope = (do
      let above ← parent.path scope
      pure (elementPath above i)) := by
  cases parent with
  | item => exact (h rfl).elim
  | _ => exact if_pos hi

/-- The positions in lists and maps. -/
def isPosition : Expr → Bool
  | .constant (.text _) => true
  | .constant (.int i) => decide (0 ≤ i)
  | _ => false

theorem path_index_fails (scope : Scope) (parent : Expr) {position : Expr}
    (h : position.isPosition = false) :
    ∃ error, (Expr.index parent position).path scope = throw error := by
  unfold Expr.path
  split
  · cases ‹Expr.index parent position = Expr.member _ _›
  · cases ‹Expr.index parent position = Expr.member _ _›
  · exact ⟨_, rfl⟩
  · cases ‹Expr.index parent position = _›
    cases h
  · rename_i heq
    cases heq
    split
    · rename_i i _ _
      exact ⟨_, if_neg (of_decide_eq_false h)⟩
    · exact ⟨_, rfl⟩
  · rename_i heq
    exact (heq _ _ rfl).elim

end

/-! ### Types and hints -/

/-- The type that is declared for what an expression leads to: that of the member that a name means, where
the document is known before the name. Elements of lists and entries of maps have no type of their own. -/
inductive IsDeclared (scope : Scope) : Expr → TypeInfo → Prop
  | member {parent : Expr} {name : String} {above : Schema} {i : Nat} {m : Member}
      (habove : Knows scope parent above) (hm : above.lookup? name scope.options = some (i, m)) :
      IsDeclared scope (.member parent name) m.type

theorem isDeclared_iff {e : Expr} {type : TypeInfo} :
    e.IsDeclared scope type ↔ e.typeOf? scope = some type := by
  constructor
  · rintro ⟨habove, hm⟩
    rw [typeOf?, typeNamed?, knows_iff.mp habove, Option.bind_some, hm]
    rfl
  · intro h
    cases e with
    | member parent name =>
      obtain ⟨above, habove, hfound⟩ := Option.bind_eq_some_iff.mp h
      obtain ⟨⟨i, m⟩, hm, rfl⟩ := Option.map_eq_some_iff.mp hfound
      exact .member (knows_iff.mpr habove) hm
    | _ => cases h

/-- The member of a path that is written has a type exactly where a schema is known. -/
theorem memberPath_type_eq_none_iff {parent : Option String}
    (h : memberPath scope parent schema name a = .ok path b) : path.type = none ↔ schema = none := by
  obtain ⟨⟨stored, type⟩, hfound, h⟩ := AliasM.ofExcept_bind_eq_ok.mp h
  obtain ⟨segment, b, -, h⟩ := bind_eq_ok.mp h
  obtain ⟨rfl, rfl⟩ := pure_eq_ok.mp h
  unfold memberNamed at hfound
  split at hfound
  · cases hfound
    exact iff_of_true rfl rfl
  · split at hfound
    · cases hfound
      exact iff_of_false nofun nofun
    · cases hfound

theorem path_type_eq_none_iff {parent : Expr}
    (h : (Expr.member parent name).path scope a = .ok path b) :
    path.type = none ↔ ∀ schema, ¬ parent.Knows scope schema := by
  have hunknown : parent.schemaOf? scope = none ↔ ∀ schema, ¬ parent.Knows scope schema := by
    simp only [knows_iff, Option.eq_none_iff_forall_ne_some, ne_eq]
  rw [← hunknown]
  by_cases hitem : parent = .item
  · subst hitem
    rw [schemaOf?]
    exact memberPath_type_eq_none_iff h
  · rw [path_member hitem] at h
    obtain ⟨above, a₂, habove, h⟩ := bind_eq_ok.mp h
    rw [← (path_known habove).2]
    exact memberPath_type_eq_none_iff h

/-- Only members and indexes are written as paths. -/
theorem isPath_of_path {e : Expr} (h : e.path scope a = .ok path b) : e.isPath = true := by
  cases e with
  | member | index => rfl
  | _ => cases h

theorem hint_of_isPath {e : Expr} (h : e.isPath = true) : e.hint scope = .ofType (e.typeOf? scope) := by
  cases e with
  | member | index => rfl
  | _ => cases h

/-- **Types and hints agree with paths.** Where an expression is written as a path, the type and the
schema that it has without being written are those that come with the path, and so is the hint that it
gives. A type is reported exactly where one is declared; and at the end of a name there is none exactly if
no document is known before the name. -/
theorem typeOf?_agrees {e : Expr} (h : e.path scope a = .ok path b) :
    e.typeOf? scope = path.type ∧ e.schemaOf? scope = path.schema ∧
      e.hint scope = .ofType path.type ∧
        (∀ type, path.type = some type ↔ e.IsDeclared scope type) ∧
          ∀ parent name, e = .member parent name →
            (path.type = none ↔ ∀ schema, ¬ parent.Knows scope schema) := by
  obtain ⟨htype, hschema⟩ := path_known h
  refine ⟨htype.symm, hschema.symm, ?_, fun type => ?_, ?_⟩
  · rw [htype]
    exact hint_of_isPath (isPath_of_path h)
  · rw [htype, isDeclared_iff]
  · rintro parent name rfl
    exact path_type_eq_none_iff h

/-- A convoy lists ships, each of which has a flag of an enumeration. -/
def convoyScope : Scope where
  options := CodecOptions.initial
  root := some ⟨"Convoy", [⟨"ships", none, [], false, none, none, ⟨"Ships", .list, none, some 1⟩⟩]⟩
  schemas := fun _ => some ⟨"Ship", [⟨"flag", some "Flag", [], false, none, none,
    ⟨"Signal", .enumeration, some [("Red", 0), ("Green", 1)], none⟩⟩]⟩

/-- The flag of a ship, by its stored name. -/
def shipFlag : Expr := .member (.index (.member .item "ships") (.constant (.int 2))) "Flag"

set_option maxRecDepth 4000 in
theorem typeOf?_agrees_shipFlag :
    ∃ path b, shipFlag.path convoyScope Aliases.empty = .ok path b ∧ path.text = "ships[2].Flag" ∧
      shipFlag.typeOf? convoyScope = path.type ∧
        shipFlag.hint convoyScope = .variant ⟨"Signal", [("Red", 0), ("Green", 1)]⟩ := by
  have hresult : (result? (shipFlag.path convoyScope) Aliases.empty).map (·.text) =
      some "ships[2].Flag" := by decide +kernel
  obtain ⟨path, hpath, htext⟩ := Option.map_eq_some_iff.mp hresult
  obtain ⟨b, h⟩ := result?_eq_some.mp hpath
  obtain ⟨htype, -, hhint, -⟩ := typeOf?_agrees h
  refine ⟨path, b, h, htext, htype, ?_⟩
  rw [hhint, ← htype]
  decide +kernel

end ItemMapper.Expr
