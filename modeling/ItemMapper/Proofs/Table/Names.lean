import Mathlib
import ItemMapper.Proofs.Aliases.Coherence
import ItemMapper.Proofs.Table.Facts
import ItemMapper.Proofs.Table.Selection

/-!
# The names of indexes

The name of an index is the one that its members choose, or else one that is made of its kind, its
ordinal and its members. Names that are made differ, since the kind and the ordinal can be read off
them. A chosen name is compared with nothing but other choices for the same index, so it can be the
name of another index as well, chosen or made. Apart from that every index has a name of its own.

## Main definitions

* `TableDefinition.indexNames`: the names of the indexes of a table.
* `TableDescriptor.givenName?`: the name that is chosen for the index of a key.
* `TableDescriptor.Repeats`: a name that is chosen for one index and belongs to another too.

## Main statements

* `TableDescriptor.key_eq_of_made`: a name that is made belongs to one key.
* `TableDescriptor.count_indexNames_le_one_iff`: the names that several indexes have.
* `TableDescriptor.indexNames_nodup_iff`: when the names are distinct, and when a name that two members
  resolve to is that of one index.
-/

namespace ItemMapper

/-- The index that a key belongs to; the table's own key belongs to none. -/
def KeyChoice.index? (key : KeyChoice) : Option TableIndex :=
  match key.kind with
  | .primary => none
  | .localIndex => some (.localIndex key.ordinal)
  | .globalIndex => some (.globalIndex key.ordinal)

/-- The names of the indexes of a table. -/
def TableDefinition.indexNames (definition : TableDefinition) : List String :=
  (definition.localIndexes ++ definition.globalIndexes).map (·.indexName)

namespace TableDescriptor

variable {s : Schema} {d : TableDescriptor} {options : CodecOptions} {tableName name : String}
  {definition : TableDefinition} {key other : KeyChoice}

/-- The name that is chosen for the index of a key. -/
def givenName? (d : TableDescriptor) (key : KeyChoice) : Option String :=
  key.index?.bind d.chosenName?

/-- A name is chosen for one index and belongs to another too. -/
def Repeats (d : TableDescriptor) (name : String) : Prop :=
  ∃ key ∈ d.keys, ∃ other ∈ d.keys,
    key ≠ other ∧ d.givenName? key = some name ∧ d.indexName? other = some name

/-- The name of an index is the one that is chosen for it. -/
theorem indexName?_of_givenName? {chosen : String} (hname : d.indexName? key = some name)
    (hchosen : d.givenName? key = some chosen) : name = chosen := by
  obtain ⟨kind, ordinal⟩ := key
  cases kind with
  | primary => cases hname
  | localIndex =>
    obtain ⟨sort, -, heq⟩ := Option.map_eq_some_iff.mp hname
    rw [← heq, show (slotAt d.locals ordinal).name = some chosen from hchosen]
    rfl
  | globalIndex =>
    obtain ⟨partition, -, heq⟩ := Option.map_eq_some_iff.mp hname
    rw [← heq, show (slotAt d.globals ordinal).name = some chosen from hchosen]
    rfl

/-- The index of each key but the table's own has a name. -/
theorem exists_indexName (hkey : key ∈ d.keys) (hother : key ≠ .table) :
    ∃ name, d.indexName? key = some name :=
  Option.ne_none_iff_exists'.mp (mt (indexName?_eq_none hkey).mp hother)

/-! ### Names that are made -/

/-- The letters that names of a kind of index begin with where they are made. -/
def kindMark : IndexKind → List Char
  | .primary => []
  | .localIndex => "lsi-".toList
  | .globalIndex => "gsi-".toList

/-- A name that is made begins with the kind and the ordinal of its index. -/
theorem toList_of_made (hname : d.indexName? key = some name) (hmade : d.givenName? key = none) :
    key.kind ≠ .primary ∧
      ∃ members, name.toList = kindMark key.kind ++ (Nat.toDigits 10 key.ordinal ++ '-' :: members) := by
  obtain ⟨kind, ordinal⟩ := key
  cases kind with
  | primary => cases hname
  | localIndex =>
    obtain ⟨sort, -, heq⟩ := Option.map_eq_some_iff.mp hname
    refine ⟨nofun, (kebabCase (d.memberAt sort).name).toList, ?_⟩
    rw [← heq, show (slotAt d.locals ordinal).name = none from hmade]
    simp [kindMark, toString, Nat.toList_repr]
  | globalIndex =>
    obtain ⟨partition, -, heq⟩ := Option.map_eq_some_iff.mp hname
    rw [show (slotAt d.globals ordinal).name = none from hmade, Option.getD_none] at heq
    refine ⟨nofun, ?_⟩
    rw [← heq]
    cases d.globalSort? ordinal with
    | none =>
      refine ⟨(kebabCase (d.memberAt partition).name).toList, ?_⟩
      simp [kindMark, toString, Nat.toList_repr]
    | some sort =>
      refine ⟨(kebabCase (d.memberAt partition).name).toList ++
        '-' :: (kebabCase (d.memberAt sort).name).toList, ?_⟩
      simp [kindMark, toString, Nat.toList_repr]

/-- **A name that is made belongs to one key**, among the names that are made. -/
theorem key_eq_of_made (hname : d.indexName? key = some name) (hmade : d.givenName? key = none)
    (hother : d.indexName? other = some name) (hothermade : d.givenName? other = none) :
    key = other := by
  obtain ⟨hkind, members, hlist⟩ := toList_of_made hname hmade
  obtain ⟨hotherkind, others, hotherlist⟩ := toList_of_made hother hothermade
  rw [hlist] at hotherlist
  obtain ⟨kind, ordinal⟩ := key
  obtain ⟨otherkind, otherordinal⟩ := other
  -- the ordinal is what stands between the kind and the next character that is no digit
  have hdigits : ∀ (n : Nat) (rest : List Char),
      (Nat.toDigits 10 n ++ '-' :: rest).takeWhile Char.isDigit = Nat.toDigits 10 n := by
    intro n rest
    rw [List.takeWhile_append_of_pos
      fun c hc => Nat.isDigit_of_mem_toDigits (by decide) (by decide) hc]
    exact List.append_nil _
  have hordinals : kindMark kind = kindMark otherkind → ordinal = otherordinal := by
    intro hmark
    rw [hmark, List.append_cancel_left_eq] at hotherlist
    have hread := congrArg (List.takeWhile Char.isDigit) hotherlist
    rw [hdigits, hdigits] at hread
    exact Aliases.toDigits_injective hread
  cases kind with
  | primary => exact absurd rfl hkind
  | localIndex =>
    cases otherkind with
    | primary => exact absurd rfl hotherkind
    | localIndex => rw [hordinals rfl]
    | globalIndex => exact absurd (List.cons.inj hotherlist).1 (by decide)
  | globalIndex =>
    cases otherkind with
    | primary => exact absurd rfl hotherkind
    | localIndex => exact absurd (List.cons.inj hotherlist).1 (by decide)
    | globalIndex => rw [hordinals rfl]

/-! ### The names in a definition -/

theorem indexName_indexOf? (d : TableDescriptor) (options : CodecOptions) (key : KeyChoice) :
    (d.indexOf? options key).map (·.indexName) = d.indexName? key := by
  obtain ⟨kind, ordinal⟩ := key
  cases kind with
  | primary => rfl
  | localIndex =>
    have hpartition : d.keyPartition? ⟨.localIndex, ordinal⟩ = some d.partition := rfl
    rw [indexOf?, hpartition]
    cases d.indexName? ⟨.localIndex, ordinal⟩ <;> rfl
  | globalIndex =>
    have hpartition : d.keyPartition? ⟨.globalIndex, ordinal⟩ = d.globalPartition? ordinal := rfl
    have hname : d.indexName? ⟨.globalIndex, ordinal⟩ = d.globalIndexName? ordinal := rfl
    rw [indexOf?, hpartition, hname, globalIndexName?]
    cases d.globalPartition? ordinal <;> rfl

/-- The names in the definition of a table are those of its keys, in their order. -/
theorem indexNames_eq (h : d.toDefinition options tableName = .ok definition) :
    definition.indexNames = d.keys.filterMap d.indexName? := by
  obtain ⟨definitions, -, heq⟩ := except_bind_eq_ok.mp h
  cases heq
  rw [TableDefinition.indexNames, indexes_eq, List.map_filterMap]
  exact congrArg (d.keys.filterMap ·) (funext (d.indexName_indexOf? options))

theorem nodup_keys (d : TableDescriptor) : d.keys.Nodup :=
  d.pairwise_keys.imp fun h heq => (heq ▸ h).asymm (heq ▸ h)

/-- In a list without repetitions, at most one element has a property exactly where any two elements
that have it are the same. -/
theorem countP_le_one_iff {α : Type} [DecidableEq α] {l : List α} (hl : l.Nodup) {p : α → Bool} :
    l.countP p ≤ 1 ↔ ∀ a ∈ l, p a = true → ∀ b ∈ l, p b = true → a = b := by
  rw [List.countP_eq_length_filter, ← List.toFinset_card_of_nodup (hl.filter p), Finset.card_le_one]
  simp only [List.mem_toFinset, List.mem_filter, and_imp]

/-- **The names that several indexes have** are those that are chosen for one of them. -/
theorem count_indexNames_le_one_iff (h : d.toDefinition options tableName = .ok definition)
    (name : String) : definition.indexNames.count name ≤ 1 ↔ ¬d.Repeats name := by
  rw [indexNames_eq h, List.count_filterMap, countP_le_one_iff d.nodup_keys]
  simp only [beq_iff_eq]
  constructor
  · rintro hone ⟨key, hkey, other, hother, hne, hchosen, hothername⟩
    obtain ⟨own, hown⟩ := exists_indexName hkey (by rintro rfl; cases hchosen)
    rw [indexName?_of_givenName? hown hchosen] at hown
    exact hne (hone key hkey hown other hother hothername)
  · intro hnot key hkey hname other hother hothername
    by_contra hne
    have hmade : ∀ a ∈ d.keys, ∀ b ∈ d.keys, a ≠ b → d.indexName? a = some name →
        d.indexName? b = some name → d.givenName? a = none := by
      intro a ha b hb hab hnamea hnameb
      by_contra hsome
      obtain ⟨chosen, hchosen⟩ := Option.ne_none_iff_exists'.mp hsome
      rw [← indexName?_of_givenName? hnamea hchosen] at hchosen
      exact hnot ⟨a, ha, b, hb, hab, hchosen, hnameb⟩
    exact hne (key_eq_of_made hname (hmade key hkey other hother hne hname hothername)
      hothername (hmade other hother key hkey (Ne.symm hne) hothername hname))

/-- The name that some members resolve to is that of an index. -/
theorem count_indexNames_pos (h : d.toDefinition options tableName = .ok definition) {first : String}
    {second : Option String} (hname : d.resolve first second = .ok (some name)) :
    0 < definition.indexNames.count name := by
  obtain ⟨_, _, -, -, key, hkey, hnamed⟩ := resolve_eq_ok hname
  rw [List.count_pos_iff, indexNames_eq h, List.mem_filterMap]
  exact ⟨key, (keyOf?_eq_some hkey).1, hnamed⟩

/-- **The names of the indexes of a valid table** are distinct exactly where no name that is chosen for
one index belongs to another, and a name that members resolve to is that of one index exactly where it
is not such a name. -/
theorem indexNames_nodup_iff (h : ofSchema s = .ok d) (options : CodecOptions) (tableName : String) :
    ∃ definition, d.toDefinition options tableName = .ok definition ∧
      (definition.indexNames.Nodup ↔ ∀ name, ¬d.Repeats name) ∧
        ∀ first second name, d.resolve first second = .ok (some name) →
          (definition.indexNames.count name = 1 ↔ ¬d.Repeats name) := by
  obtain ⟨definition, hdefinition, -⟩ := exists_toDefinition h options tableName
  refine ⟨definition, hdefinition, ?_, fun first second name hname => ?_⟩
  · rw [List.nodup_iff_count_le_one]
    exact forall_congr' (count_indexNames_le_one_iff hdefinition)
  · have hpos := count_indexNames_pos hdefinition hname
    rw [← count_indexNames_le_one_iff hdefinition]
    omega

/-- Games, whose two indexes choose one name. -/
def sampleGames : Schema where
  typeName := "Games"
  members :=
    [⟨"id", none, [⟨.primary, .partition, 0, none⟩], false, none, none,
        ⟨"String", .text, none, none⟩⟩,
      ⟨"player", none, [⟨.globalIndex, .partition, 1, some "by-player"⟩], false, none, none,
        ⟨"String", .text, none, none⟩⟩,
      ⟨"team", none, [⟨.globalIndex, .partition, 2, some "by-player"⟩], false, none, none,
        ⟨"String", .text, none, none⟩⟩]

/-- The places of the members of games. -/
def sampleGamesTable : TableDescriptor where
  schema := sampleGames
  partition := 0
  sort := none
  version := none
  locals := List.replicate maxLocalIndexes .empty
  globals := ⟨some 1, none, some "by-player"⟩ :: ⟨some 2, none, some "by-player"⟩ ::
    List.replicate 18 .empty

/-- Both indexes of games are in its definition under their one name, which a member resolves to. -/
theorem indexNames_nodup_iff_sampleGames :
    ofSchema sampleGames = .ok sampleGamesTable ∧ sampleGamesTable.Repeats "by-player" ∧
      sampleGamesTable.resolve "player" none = .ok (some "by-player") ∧
        ∃ definition, sampleGamesTable.toDefinition .initial "games" = .ok definition ∧
          ¬definition.indexNames.Nodup ∧ definition.indexNames.count "by-player" ≠ 1 := by
  have hschema : ofSchema sampleGames = .ok sampleGamesTable := by cbv
  have hkeys : sampleGamesTable.keys = [.table, ⟨.globalIndex, 1⟩, ⟨.globalIndex, 2⟩] := by cbv
  have hrepeats : sampleGamesTable.Repeats "by-player" := by
    rw [Repeats, hkeys]
    exact ⟨⟨.globalIndex, 1⟩, by decide, ⟨.globalIndex, 2⟩, by decide, by decide, rfl, rfl⟩
  have hresolve : sampleGamesTable.resolve "player" none = .ok (some "by-player") := by cbv
  obtain ⟨definition, hdefinition, hnodup, hone⟩ := indexNames_nodup_iff hschema .initial "games"
  refine ⟨hschema, hrepeats, hresolve, definition, hdefinition, fun h => ?_, fun h => ?_⟩
  · exact hnodup.mp h _ hrepeats
  · exact (hone _ _ _ hresolve).mp h hrepeats

end TableDescriptor

end ItemMapper
