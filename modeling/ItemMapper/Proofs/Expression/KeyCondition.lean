import ItemMapper.Proofs.Aliases.Compilation
import ItemMapper.Proofs.Table.Resolution

/-!
# Which index a key condition selects

A key condition is accepted when the members that its parts speak of are the key of the table or of
an index. Only which members there are decides: neither the operators nor what the members are
compared with are looked at, and parts that speak of no member of the item are passed over.

## Main definitions

* `Expr.isKeyConjunct`, `Expr.spokenMember?`: the parts of a key condition and their members.
* `TableDescriptor.Selected`: the key that is selected for the parts of a key condition.
* `TableDescriptor.IsKeyCondition`: what the store asks of a key condition.

## Main statements

* `Session.keyCondition_selected`: the key that an accepted condition selects.
* `Session.keyCondition_loose`: an accepted condition that the store refuses.
-/

namespace ItemMapper

namespace Expr

/-- Whether an expression may be a part of a key condition. -/
def isKeyConjunct : Expr → Bool
  | .binary op _ _ => op.isComparison
  | .call function _ => function = .between ∨ function = .beginsWith
  | _ => false

/-- The member of the item that a part of a key condition speaks of, under its declared name: the left
side of a comparison or else the right one, and the first argument of a call. -/
def spokenMember? (scope : Scope) : Expr → Option String
  | .binary _ left right => (left.keyMember? scope).or (right.keyMember? scope)
  | .call _ args => args.head?.bind (keyMember? scope)
  | _ => none

theorem keyMemberOf_eq_ok {scope : Scope} {conjunct : Expr} {found : Option KeyMember}
    (hraws : conjunct.raws = []) (h : keyMemberOf scope conjunct = .ok found) :
    conjunct.isKeyConjunct = true ∧ found.map (·.name) = conjunct.spokenMember? scope := by
  unfold keyMemberOf at h
  split at h
  · split at h
    · rename_i hop
      cases h
      exact ⟨hop, (Option.map_map ..).trans (congrFun Option.map_id _)⟩
    · cases h
  · split at h
    · rename_i hfunction
      cases h
      exact ⟨decide_eq_true hfunction, (Option.map_map ..).trans (congrFun Option.map_id _)⟩
    · cases h
  · cases hraws
  · cases h

/-! ### Collecting the members -/

theorem mem_names_addKeyMember {found : KeyMember} {members : List KeyMember} {name : String} :
    name ∈ (addKeyMember found members).map (·.name) ↔
      name = found.name ∨ name ∈ members.map (·.name) := by
  induction members with
  | nil => simp [addKeyMember]
  | cons present rest ih =>
    rw [addKeyMember]
    by_cases hname : present.name = found.name
    · rw [if_pos hname]
      simp only [List.map_cons, List.mem_cons, hname]
      tauto
    · rw [if_neg hname, List.map_cons, List.mem_cons, ih]
      simp only [List.map_cons, List.mem_cons]
      tauto

/-- **The members that are collected are those that the parts speak of.** -/
theorem keyMembers_eq_ok {scope : Scope} {conjuncts : List Expr} {members found : List KeyMember}
    (hraws : ∀ c ∈ conjuncts, c.raws = []) (h : keyMembers scope members conjuncts = .ok found) :
    (∀ c ∈ conjuncts, c.isKeyConjunct = true) ∧
      ∀ name, name ∈ found.map (·.name) ↔
        name ∈ members.map (·.name) ∨ ∃ c ∈ conjuncts, c.spokenMember? scope = some name := by
  induction conjuncts generalizing members with
  | nil =>
    cases h
    refine ⟨fun c hc => absurd hc List.not_mem_nil, fun name => ?_⟩
    simp
  | cons c rest ih =>
    obtain ⟨hc, hrest⟩ := List.forall_mem_cons.mp hraws
    obtain ⟨spoken, hspoken, h⟩ := except_bind_eq_ok.mp h
    obtain ⟨hform, hmember⟩ := keyMemberOf_eq_ok hc hspoken
    cases spoken with
    | none =>
      obtain ⟨hforms, hnames⟩ := ih hrest h
      refine ⟨List.forall_mem_cons.mpr ⟨hform, hforms⟩, fun name => ?_⟩
      rw [hnames, List.exists_mem_cons_iff, ← hmember]
      simp
    | some member =>
      obtain ⟨hforms, hnames⟩ := ih hrest h
      refine ⟨List.forall_mem_cons.mpr ⟨hform, hforms⟩, fun name => ?_⟩
      rw [hnames, mem_names_addKeyMember, List.exists_mem_cons_iff, ← hmember]
      simp only [Option.map_some, Option.some.injEq, eq_comm (a := name)]
      tauto

end Expr

/-! ### The selection -/

namespace TableDescriptor

/-- The key that is selected for the parts of a key condition. -/
structure Selected (d : TableDescriptor) (scope : Scope) (key : KeyChoice)
    (conjuncts : List Expr) : Prop where
  /-- Every part is a comparison, a BETWEEN or a begins_with. -/
  forms : ∀ c ∈ conjuncts, c.isKeyConjunct = true
  /-- The member that a part speaks of, if any, is one of the two of the key. -/
  members : ∀ c ∈ conjuncts, ∀ name, c.spokenMember? scope = some name →
    ∃ i, d.position name = .ok i ∧ (d.keyPartition? key = some i ∨ d.keySort? key = some i)
  /-- Some part speaks of the partition member. -/
  partition : ∃ c ∈ conjuncts, ∃ name i, c.spokenMember? scope = some name ∧
    d.position name = .ok i ∧ d.keyPartition? key = some i

end TableDescriptor

theorem partitionOf?_eq_some {members : List KeyMember} {position : Nat} {partition : KeyMember}
    (h : partitionOf? members = some (position, partition)) (hlength : members.length ≤ 2) :
    (members = [partition] ∧ (members.eraseIdx position).head? = none) ∨
      ∃ other, (∀ name, name ∈ members.map (·.name) ↔ name = partition.name ∨ name = other.name) ∧
        (members.eraseIdx position).head? = some other := by
  unfold partitionOf? at h
  obtain ⟨member, hget, heq⟩ := Option.map_eq_some_iff.mp h
  obtain ⟨hposition, rfl⟩ := Prod.mk.inj heq
  rw [hposition] at hget
  obtain ⟨hlt, hmember⟩ := List.getElem?_eq_some_iff.mp hget
  match members, hlength with
  | [only], _ =>
    obtain rfl : position = 0 := by simpa using hlt
    exact .inl ⟨by rw [← hmember]; rfl, rfl⟩
  | [first, second], _ =>
    obtain rfl | rfl : position = 0 ∨ position = 1 := by
      simp only [List.length_cons, List.length_nil] at hlt
      omega
    · obtain rfl : first = member := hmember
      exact .inr ⟨second, fun name => by simp, rfl⟩
    · obtain rfl : second = member := hmember
      exact .inr ⟨first, fun name => by simp [or_comm], rfl⟩

/-- The members for which an index is selected are those of its key. -/
theorem Scope.selectIndex_eq_ok {scope : Scope} {schema : Schema} {members : List KeyMember}
    {index : Option String} (hschema : scope.root = some schema)
    (h : scope.selectIndex members = .ok index) :
    ∃ d, TableDescriptor.ofSchema schema = .ok d ∧ ∃ key ∈ d.keys, d.indexName? key = index ∧
      (∀ name ∈ members.map (·.name), ∃ i, d.position name = .ok i ∧
        (d.keyPartition? key = some i ∨ d.keySort? key = some i)) ∧
      ∃ name ∈ members.map (·.name), ∃ i, d.position name = .ok i ∧
        d.keyPartition? key = some i := by
  unfold Scope.selectIndex at h
  rw [hschema] at h
  obtain ⟨d, hd, h⟩ := except_bind_eq_ok.mp h
  refine ⟨d, hd, ?_⟩
  split at h
  · cases h
  · rename_i position partition hpartition
    split at h
    · cases h
    · rename_i hlength
      obtain ⟨first, second, hfirst, hsecond, key, hkey, hindex⟩ :=
        TableDescriptor.resolve_eq_ok h
      obtain ⟨hmem, hroles⟩ := TableDescriptor.keyOf?_eq_some hkey
      refine ⟨key, hmem, hindex, ?_⟩
      rcases partitionOf?_eq_some hpartition (Nat.le_of_not_lt hlength) with
        ⟨rfl, hnone⟩ | ⟨other, hnames, hsome⟩
      · rw [hnone] at hsecond
        obtain ⟨-, rfl⟩ | ⟨name, i, hname, -⟩ := hsecond
        · obtain ⟨hkeyPartition, -⟩ | ⟨other, hother, -⟩ := hroles
          · exact ⟨List.forall_mem_singleton.mpr ⟨first, hfirst, .inl hkeyPartition⟩,
              partition.name, List.mem_singleton_self _, first, hfirst, hkeyPartition⟩
          · cases hother
        · cases hname
      · rw [hsome] at hsecond
        obtain ⟨hname, -⟩ | ⟨name, i, hname, hi, rfl⟩ := hsecond
        · cases hname
        · cases hname
          obtain ⟨hkeyPartition, hsort⟩ | ⟨sort, heq, hkeyPartition, hsort⟩ := hroles
          · refine ⟨fun name hmem => ?_, partition.name, (hnames _).mpr (.inl rfl), first, hfirst,
              hkeyPartition⟩
            rcases (hnames name).mp hmem with rfl | rfl
            · exact ⟨first, hfirst, .inl hkeyPartition⟩
            · exact ⟨i, hi, .inr (hsort i rfl)⟩
          · cases heq
            refine ⟨fun name hmem => ?_, other.name, (hnames _).mpr (.inr rfl), i, hi,
              hkeyPartition⟩
            rcases (hnames name).mp hmem with rfl | rfl
            · exact ⟨first, hfirst, .inr hsort⟩
            · exact ⟨i, hi, .inl hkeyPartition⟩

/-- **An accepted key condition is about the key that it selects.** Its parts are comparisons,
BETWEENs and calls of begins_with; the members of the item that they speak of are members of the
selected key, the partition member among them. The table's own key is selected where no index is
named. -/
theorem Session.keyCondition_selected {scope : Scope} {schema : Schema} {e : Expr} {s t : Session}
    {text : String} {index : Option String} (hschema : scope.root = some schema)
    (he : e.raws = []) (h : keyCondition scope e s = .ok (text, index) t) :
    ∃ folded counter d, e.fold s.counter = .ok folded counter ∧
      TableDescriptor.ofSchema schema = .ok d ∧
      ∃ key ∈ d.keys, d.indexName? key = index ∧ (index = none ↔ key = .table) ∧
        d.Selected scope key folded.conjuncts := by
  obtain ⟨folded, s₁, hfolded, h⟩ := bind_eq_ok.mp h
  obtain ⟨counter, hfold, rfl⟩ := folded_eq_ok.mp hfolded
  obtain ⟨aliases, hrun, rfl⟩ := onAliases_eq_ok.mp h
  have hraws : folded.raws = [] := List.eq_nil_of_subset_nil (he ▸ Expr.raws_fold hfold)
  obtain ⟨members, hmembers, hrun⟩ := AliasM.ofExcept_bind_eq_ok.mp hrun
  obtain ⟨written, a₁, -, hrun⟩ := bind_eq_ok.mp hrun
  obtain ⟨selected, hselected, hrun⟩ := AliasM.ofExcept_bind_eq_ok.mp hrun
  obtain ⟨heq, rfl⟩ := pure_eq_ok.mp hrun
  obtain ⟨rfl, rfl⟩ := Prod.mk.inj heq
  obtain ⟨d, hd, key, hkey, hindex, hall, name, hname, i, hi, hpartition⟩ :=
    Scope.selectIndex_eq_ok hschema hselected
  have hconjuncts : ∀ c ∈ folded.conjuncts, c.raws = [] := fun c hc =>
    Expr.raws_eq_nil_of_subset hraws (Expr.raws_subset_of_mem_conjuncts hc)
  obtain ⟨hforms, hnames⟩ := Expr.keyMembers_eq_ok hconjuncts hmembers
  have hspoken : ∀ name, name ∈ members.map (·.name) ↔
      ∃ c ∈ folded.conjuncts, c.spokenMember? scope = some name := by
    intro name
    rw [hnames name]
    simp
  refine ⟨folded, counter, d, hfold, hd, key, hkey, hindex, ?_, hforms, ?_, ?_⟩
  · rw [← hindex]
    exact TableDescriptor.indexName?_eq_none hkey
  · intro c hc name hspeaks
    exact hall name ((hspoken name).mpr ⟨c, hc, hspeaks⟩)
  · obtain ⟨c, hc, hspeaks⟩ := (hspoken name).mp hname
    exact ⟨c, hc, name, i, hspeaks, hi, hpartition⟩

/-- A record whose partition is its id and whose sort member is its age, with an address. -/
def recordSchema : Schema where
  typeName := "app::Record"
  members :=
    [⟨"id", none, [⟨.primary, .partition, 0, none⟩], false, none, none,
      ⟨"String", .text, none, none⟩⟩,
     ⟨"age", none, [⟨.primary, .sort, 0, none⟩], false, none, none, ⟨"i32", .number, none, none⟩⟩,
     ⟨"address", none, [], false, none, none, ⟨"app::Address", .document, none, none⟩⟩]

/-- The places of the record's members. -/
def recordDescriptor : TableDescriptor :=
  ⟨recordSchema, 0, some 1, none, List.replicate maxLocalIndexes .empty,
    List.replicate maxGlobalIndexes .empty⟩

/-- What an expression on a record is compiled against. -/
def recordScope : Scope := ⟨default, some recordSchema, fun _ => none⟩

/-- The id with a range of ages. -/
def rangeOfAges : Expr :=
  .binary .and (.call .between [.member .item "age", .constant (.int 1), .constant (.int 9)])
    (.binary .eq (.member .item "id") (.constant (.text "x")))

theorem Session.keyCondition_selected_rangeOfAges :
    recordScope.root = some recordSchema ∧ rangeOfAges.raws = [] ∧
      ∃ t, keyCondition recordScope rangeOfAges (start 0) =
          .ok ("age BETWEEN :v0 AND :v1 AND id = :v2", none) t ∧
        ∃ folded counter d, rangeOfAges.fold 0 = .ok folded counter ∧
          TableDescriptor.ofSchema recordSchema = .ok d ∧
          ∃ key ∈ d.keys, d.indexName? key = none ∧ key = .table ∧
            d.Selected recordScope key folded.conjuncts := by
  have hresult : result? (keyCondition recordScope rangeOfAges) (start 0) =
      some ("age BETWEEN :v0 AND :v1 AND id = :v2", none) := by decide +kernel
  obtain ⟨t, h⟩ := result?_eq_some.mp hresult
  obtain ⟨folded, counter, d, hfold, hd, key, hkey, hindex, htable, hselected⟩ :=
    keyCondition_selected rfl rfl h
  exact ⟨rfl, rfl, t, h, folded, counter, d, hfold, hd, key, hkey, hindex, htable.mp rfl, hselected⟩

/-! ### What the store asks for -/

namespace Expr

/-- The member that a part of a key condition compares with constants, and the operator; BETWEEN and
begins_with have none. -/
def constrainedMember? (scope : Scope) : Expr → Option (String × Option BinaryOp)
  | .binary op left (.constant _) => (left.keyMember? scope).map fun name => (name, some op)
  | .binary op (.constant _) right => (right.keyMember? scope).map fun name => (name, some op)
  | .call .between [first, .constant _, .constant _] =>
    (first.keyMember? scope).map fun name => (name, none)
  | .call .beginsWith [first, .constant _] =>
    (first.keyMember? scope).map fun name => (name, none)
  | _ => none

end Expr

namespace TableDescriptor

/-- The operators of the parts that constrain the member at a position. -/
def constraintsOn (d : TableDescriptor) (scope : Scope) (conjuncts : List Expr)
    (position : Option Nat) : List (Option BinaryOp) :=
  conjuncts.filterMap fun c => (c.constrainedMember? scope).bind fun constraint =>
    if position.isSome ∧ (d.position constraint.1).toOption = position then some constraint.2
    else none

/-- Every part compares one of the members of a key with constants. -/
def ConstrainsMembers (d : TableDescriptor) (scope : Scope) (key : KeyChoice)
    (conjuncts : List Expr) : Prop :=
  ∀ c ∈ conjuncts, ∃ name op i, c.constrainedMember? scope = some (name, op) ∧
    d.position name = .ok i ∧ (d.keyPartition? key = some i ∨ d.keySort? key = some i)

/-- Exactly one part is on the partition member of a key, by equality. -/
def ConstrainsPartition (d : TableDescriptor) (scope : Scope) (key : KeyChoice)
    (conjuncts : List Expr) : Prop :=
  d.constraintsOn scope conjuncts (d.keyPartition? key) = [some .eq]

/-- At most one part is on the sort member of a key, and is no inequality. -/
def ConstrainsSort (d : TableDescriptor) (scope : Scope) (key : KeyChoice)
    (conjuncts : List Expr) : Prop :=
  (d.constraintsOn scope conjuncts (d.keySort? key)).length ≤ 1 ∧
    some .ne ∉ d.constraintsOn scope conjuncts (d.keySort? key)

/-- What the store asks of a condition on a key. -/
structure IsKeyCondition (d : TableDescriptor) (scope : Scope) (key : KeyChoice)
    (conjuncts : List Expr) : Prop where
  members : d.ConstrainsMembers scope key conjuncts
  partition : d.ConstrainsPartition scope key conjuncts
  sort : d.ConstrainsSort scope key conjuncts

end TableDescriptor

/-- A range of ids that is bounded by a member, an inequality of ages, and a part of the address. -/
def looseCondition : Expr :=
  .binary .and
    (.binary .and (.binary .gt (.member .item "id") (.constant (.text "x")))
      (.binary .ge (.member .item "id") (.member .item "age")))
    (.binary .and (.binary .ne (.member .item "age") (.constant (.int 3)))
      (.binary .eq (.member (.member .item "address") "city") (.constant (.text "y"))))

/-- **Conditions are accepted that the store refuses.** This one is accepted for the table, and meets
none of what the store asks of a condition on the table's key. -/
theorem Session.keyCondition_loose :
    TableDescriptor.ofSchema recordSchema = .ok recordDescriptor ∧ looseCondition.raws = [] ∧
      ∃ t, keyCondition recordScope looseCondition (start 0) =
          .ok ("id > :v0 AND id >= age AND age <> :v1 AND address.city = :v2", none) t ∧
        looseCondition.fold 0 = .ok looseCondition 0 ∧
        ∀ key ∈ recordDescriptor.keys, recordDescriptor.indexName? key = none →
          ¬ recordDescriptor.IsKeyCondition recordScope key looseCondition.conjuncts ∧
            ¬ recordDescriptor.ConstrainsMembers recordScope key looseCondition.conjuncts ∧
            ¬ recordDescriptor.ConstrainsPartition recordScope key looseCondition.conjuncts ∧
            ¬ recordDescriptor.ConstrainsSort recordScope key looseCondition.conjuncts := by
  have hresult : result? (keyCondition recordScope looseCondition) (start 0) =
      some ("id > :v0 AND id >= age AND age <> :v1 AND address.city = :v2", none) := by
    decide +kernel
  obtain ⟨t, h⟩ := result?_eq_some.mp hresult
  refine ⟨rfl, rfl, t, h, rfl, fun key hkey hindex => ?_⟩
  obtain rfl := (TableDescriptor.indexName?_eq_none hkey).mp hindex
  have hmembers : ¬ recordDescriptor.ConstrainsMembers recordScope .table
      looseCondition.conjuncts := by
    intro hall
    obtain ⟨name, op, i, hnone, -⟩ :=
      hall (.binary .eq (.member (.member .item "address") "city") (.constant (.text "y")))
        (by simp [looseCondition, Expr.conjuncts])
    cases hnone
  refine ⟨fun hkey => hmembers hkey.members, hmembers, ?_, ?_⟩
  · unfold TableDescriptor.ConstrainsPartition
    decide
  · unfold TableDescriptor.ConstrainsSort
    decide

end ItemMapper
