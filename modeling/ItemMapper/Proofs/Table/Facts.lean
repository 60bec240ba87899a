import Mathlib.Data.Set.Basic
import ItemMapper.Proofs.Table.Claims
import ItemMapper.Proofs.Table.Declarations

/-!
# What roles state

The members of a schema state facts about the table: who holds a place, and what an index is named.
Each role, and then each member, is taken where it is well-formed and contradicts nothing that has been
stated before, and then the claims record what it states. Two steps that behave like this also do so
one after the other, so it is enough to look at a single role.

## Main definitions

* `Claims.holder?`, `Claims.name?`: what has been claimed of a place and of an index.
* `TableFact`, `TableFact.Agree`: what may be stated, and facts that do not contradict each other.
* `Claims.Records`: a step that is taken where what it states agrees with what was stated before.

## Main statements

* `Claims.addRole_eq_ok_iff`: when a role is granted, and what then is claimed.
* `Claims.records_addRole`: what a role states.
* `Claims.records_addMembers`: what all members state.
-/

namespace ItemMapper

/-! ### What has been claimed -/

/-- The position of the member that holds a part of the key of an index. -/
def IndexSlot.holder? (slot : IndexSlot) : KeyPart → Option Nat
  | .partition => slot.partition
  | .sort => slot.sort

/-- An index of which a part is claimed and that is perhaps named. -/
def IndexSlot.claimed (slot : IndexSlot) (part : KeyPart) (position : Nat) (chosen : Option String) :
    IndexSlot :=
  match part with
  | .partition => { slot with partition := some position, name := chosen.or slot.name }
  | .sort => { slot with sort := some position, name := chosen.or slot.name }

theorem IndexSlot.holder?_claimed {slot : IndexSlot} {part other : KeyPart} {position : Nat}
    {chosen : Option String} :
    (slot.claimed part position chosen).holder? other =
      if other = part then some position else slot.holder? other := by
  cases part <;> cases other <;> rfl

theorem IndexSlot.name_claimed {slot : IndexSlot} {part : KeyPart} {position : Nat}
    {chosen : Option String} :
    (slot.claimed part position chosen).name = chosen.or slot.name := by
  cases part <;> rfl

namespace Claims

/-- What has been claimed of an index. -/
def slot (claims : Claims) : TableIndex → IndexSlot
  | .localIndex ordinal => TableDescriptor.slotAt claims.locals ordinal
  | .globalIndex ordinal => TableDescriptor.slotAt claims.globals ordinal

/-- The position of the member that holds a place. -/
def holder? (claims : Claims) : TablePlace → Option Nat
  | .version => claims.version
  | .own part => claims.part? part
  | .index index part => (claims.slot index).holder? part

/-- The name of an index, if it is given one. -/
def name? (claims : Claims) (index : TableIndex) : Option String := (claims.slot index).name

end Claims

namespace TableDescriptor

/-- The claims that have led to a table. -/
def claims (d : TableDescriptor) : Claims :=
  ⟨some d.partition, d.sort, d.version, d.locals, d.globals⟩

/-- The position of the member that holds a place. -/
def holder? (d : TableDescriptor) (place : TablePlace) : Option Nat := d.claims.holder? place

/-- The name that is chosen for an index. -/
def chosenName? (d : TableDescriptor) (index : TableIndex) : Option String := d.claims.name? index

end TableDescriptor

/-! ### Facts that agree -/

/-- A fact that the members of a table state. -/
inductive TableFact where
  | held (place : TablePlace) (position : Nat)
  | named (index : TableIndex) (name : String)

/-- Facts of which no two give one place to two members, or two names to one index. -/
structure TableFact.Agree (facts : Set TableFact) : Prop where
  holders : ∀ place i j, .held place i ∈ facts → .held place j ∈ facts → i = j
  names : ∀ index a b, .named index a ∈ facts → .named index b ∈ facts → a = b

theorem TableFact.Agree.mono {facts others : Set TableFact} (h : Agree others)
    (hsub : facts ⊆ others) : Agree facts where
  holders place i j hi hj := h.holders place i j (hsub hi) (hsub hj)
  names index a b ha hb := h.names index a b (hsub ha) (hsub hb)

/-- What a role of the member at a position states. -/
def KeyRole.facts (role : KeyRole) (position : Nat) : Set TableFact
  | .held place i => place = role.place ∧ i = position
  | .named index name => role.index? = some index ∧ role.indexName = some name

/-- What the member at a position states. -/
def Member.facts (m : Member) (position : Nat) : Set TableFact
  | .held place i => m.Declares place ∧ i = position
  | .named index name => m.NamesIndex index name

/-- What members state, the first of which has the given position. -/
def memberFacts (position : Nat) (members : List Member) : Set TableFact :=
  {fact | ∃ (i : Nat) (m : Member), members[i]? = some m ∧ fact ∈ m.facts (position + i)}

namespace Claims

/-- What has been stated so far. -/
def facts (claims : Claims) : Set TableFact
  | .held place i => claims.holder? place = some i
  | .named index name => claims.name? index = some name

theorem agree_facts (claims : Claims) : TableFact.Agree claims.facts where
  holders _ _ _ hi hj := Option.some.inj (hi.symm.trans hj)
  names _ _ _ ha hb := Option.some.inj (ha.symm.trans hb)

/-- Claims with an entry for each index that a table may have. -/
structure Shaped (claims : Claims) : Prop where
  locals : claims.locals.length = maxLocalIndexes
  globals : claims.globals.length = maxGlobalIndexes

/-- A step that succeeds where some condition holds and what it states agrees with what has been stated
before, and that then records just that. -/
structure Records (step : Claims → Except Error Claims) (fits : Prop) (stated : Set TableFact) :
    Prop where
  succeeds : ∀ claims, claims.Shaped →
    ((∃ claims', step claims = .ok claims') ↔ fits ∧ TableFact.Agree (claims.facts ∪ stated))
  records : ∀ claims claims', claims.Shaped → step claims = .ok claims' →
    claims'.Shaped ∧ claims'.facts = claims.facts ∪ stated

theorem Records.pure : Records .ok True ∅ where
  succeeds claims _ := by
    rw [Set.union_empty]
    exact iff_of_true ⟨claims, rfl⟩ ⟨trivial, claims.agree_facts⟩
  records claims claims' hshaped h := by
    cases h
    rw [Set.union_empty]
    exact ⟨hshaped, rfl⟩

/-- Two steps state what both state. -/
theorem Records.bind {first second : Claims → Except Error Claims} {fits fits' : Prop}
    {stated stated' : Set TableFact} (hfirst : Records first fits stated)
    (hsecond : Records second fits' stated') :
    Records (fun claims => first claims >>= second) (fits ∧ fits') (stated ∪ stated') where
  succeeds claims hshaped := by
    simp only [except_bind_eq_ok]
    rw [← Set.union_assoc]
    constructor
    · rintro ⟨claims', next, hnext, hrun⟩
      obtain ⟨hshaped', hfacts⟩ := hfirst.records claims next hshaped hnext
      obtain ⟨hfits, -⟩ := (hfirst.succeeds claims hshaped).mp ⟨next, hnext⟩
      obtain ⟨hfits', hagree⟩ := (hsecond.succeeds next hshaped').mp ⟨claims', hrun⟩
      exact ⟨⟨hfits, hfits'⟩, hfacts ▸ hagree⟩
    · rintro ⟨⟨hfits, hfits'⟩, hagree⟩
      obtain ⟨next, hnext⟩ :=
        (hfirst.succeeds claims hshaped).mpr ⟨hfits, hagree.mono Set.subset_union_left⟩
      obtain ⟨hshaped', hfacts⟩ := hfirst.records claims next hshaped hnext
      obtain ⟨claims', hrun⟩ := (hsecond.succeeds next hshaped').mpr ⟨hfits', hfacts ▸ hagree⟩
      exact ⟨claims', next, hnext, hrun⟩
  records claims claims' hshaped h := by
    obtain ⟨next, hnext, hrun⟩ := except_bind_eq_ok.mp h
    obtain ⟨hshaped', hfacts⟩ := hfirst.records claims next hshaped hnext
    obtain ⟨hshaped'', hfacts'⟩ := hsecond.records next claims' hshaped' hrun
    rw [← Set.union_assoc, ← hfacts]
    exact ⟨hshaped'', hfacts'⟩

/-! ### One role -/

variable {s : Schema} {position : Nat} {member : Member} {claims claims' : Claims}

theorem claimName_eq_ok_iff {what : String} {chosen slot result : Option String} :
    claimName s what chosen slot = .ok result ↔
      (∀ a b, slot = some a → chosen = some b → a = b) ∧ result = chosen.or slot := by
  unfold claimName
  cases chosen with
  | none => cases slot <;> simp [eq_comm]
  | some name =>
    cases slot with
    | none => simp [eq_comm]
    | some other =>
      dsimp only
      by_cases h : other = name
      · simp [h, eq_comm]
      · simp [h]

theorem slotOf_eq_ok_iff {what : String} {max ordinal i : Nat} :
    slotOf s what max ordinal = .ok i ↔ (1 ≤ ordinal ∧ ordinal ≤ max) ∧ ordinal - 1 = i := by
  unfold slotOf
  by_cases h : 1 ≤ ordinal ∧ ordinal ≤ max
  · simp [h]
  · simp [h]

/-- What a role states agrees with what has been stated where nobody else has its place, and its index
has no other name. -/
theorem agree_union_facts {role : KeyRole} :
    TableFact.Agree (claims.facts ∪ role.facts position) ↔
      (∀ i, claims.holder? role.place = some i → i = position) ∧
        ∀ index ∈ role.index?, ∀ a b, claims.name? index = some a → role.indexName = some b →
          a = b := by
  constructor
  · intro h
    refine ⟨fun i hi => h.holders role.place i position (.inl hi) (.inr ⟨rfl, rfl⟩), ?_⟩
    exact fun index hindex a b ha hb => h.names index a b (.inl ha) (.inr ⟨hindex, hb⟩)
  · rintro ⟨hholders, hnames⟩
    refine ⟨?_, ?_⟩
    · rintro place i j (hi | ⟨rfl, rfl⟩) (hj | ⟨hplace, rfl⟩)
      · exact claims.agree_facts.holders place i j hi hj
      · exact hholders i (hplace ▸ hi)
      · exact (hholders j hj).symm
      · rfl
    · rintro index a b (ha | ⟨hindex, ha⟩) (hb | ⟨hindex', hb⟩)
      · exact claims.agree_facts.names index a b ha hb
      · exact hnames index hindex' a b ha hb
      · exact (hnames index hindex b a hb ha).symm
      · exact Option.some.inj (ha.symm.trans hb)

/-- The claims after a role of the member at a position has been granted. -/
def granted (claims : Claims) (role : KeyRole) (position : Nat) : Claims :=
  match role.kind, role.part with
  | .primary, .partition => { claims with partition := some position }
  | .primary, .sort => { claims with sort := some position }
  | .localIndex, part =>
    let slot := TableDescriptor.slotAt claims.locals role.ordinal
    { claims with
      locals := claims.locals.set (role.ordinal - 1) (slot.claimed part position role.indexName) }
  | .globalIndex, part =>
    let slot := TableDescriptor.slotAt claims.globals role.ordinal
    { claims with
      globals := claims.globals.set (role.ordinal - 1) (slot.claimed part position role.indexName) }

theorem slotAt_of_pos {slots : List IndexSlot} {ordinal : Nat} (h : 1 ≤ ordinal) :
    TableDescriptor.slotAt slots ordinal = slots.getD (ordinal - 1) .empty :=
  if_neg (Nat.one_le_iff_ne_zero.mp h)

/-- A role of the table's own key is taken where nobody else has its place. -/
theorem addRole_primary_eq_ok_iff {part : KeyPart} {ordinal : Nat} {name : Option String} :
    addRole s position member claims ⟨.primary, part, ordinal, name⟩ = .ok claims' ↔
      (∀ i, claims.part? part = some i → i = position) ∧
        claims' = claims.granted ⟨.primary, part, ordinal, name⟩ position := by
  cases part with
  | partition | sort =>
    simp only [addRole, except_bind_eq_ok, claim_eq_ok_iff]
    constructor
    · rintro ⟨_, ⟨hfree, rfl⟩, ⟨⟩⟩
      exact ⟨hfree, rfl⟩
    · rintro ⟨hfree, rfl⟩
      exact ⟨_, ⟨hfree, rfl⟩, rfl⟩

/-- A part of an index is claimed where there may be an index with the ordinal, nobody else has the part,
and the index has no other name. -/
theorem claimIndex_eq_ok_iff {what what' what'' : String} {max ordinal : Nat}
    (slots : List IndexSlot) (part : KeyPart) {chosen : Option String}
    (result : Nat → IndexSlot → Option Nat → Option String → Claims) :
    (do
      let i ← slotOf s what max ordinal
      let slot := slots.getD i .empty
      let holder ← claim s what' position (slot.holder? part)
      let name ← claimName s what'' chosen slot.name
      pure (result i slot holder name)) = Except.ok claims' ↔
      (1 ≤ ordinal ∧ ordinal ≤ max) ∧
        (∀ i, (TableDescriptor.slotAt slots ordinal).holder? part = some i → i = position) ∧
        (∀ a b, (TableDescriptor.slotAt slots ordinal).name = some a → chosen = some b → a = b) ∧
        claims' = result (ordinal - 1) (TableDescriptor.slotAt slots ordinal) (some position)
          (chosen.or (TableDescriptor.slotAt slots ordinal).name) := by
  simp only [except_bind_eq_ok, slotOf_eq_ok_iff, claim_eq_ok_iff, claimName_eq_ok_iff]
  constructor
  · rintro ⟨_, ⟨hrange, rfl⟩, _, ⟨hfree, rfl⟩, _, ⟨hname, rfl⟩, ⟨⟩⟩
    rw [← slotAt_of_pos hrange.1] at hfree hname ⊢
    exact ⟨hrange, hfree, hname, rfl⟩
  · rintro ⟨hrange, hfree, hname, rfl⟩
    rw [slotAt_of_pos hrange.1] at hfree hname ⊢
    exact ⟨_, ⟨hrange, rfl⟩, _, ⟨hfree, rfl⟩, _, ⟨hname, rfl⟩, rfl⟩

/-- A role is taken where it is well-formed, nobody else has its place, and its index has no other
name. -/
theorem addRole_eq_ok_iff {role : KeyRole} :
    addRole s position member claims role = .ok claims' ↔
      role.WellFormed ∧ (∀ i, claims.holder? role.place = some i → i = position) ∧
        (∀ index ∈ role.index?, ∀ a b, claims.name? index = some a → role.indexName = some b →
          a = b) ∧
        claims' = claims.granted role position := by
  obtain ⟨kind, part, ordinal, name⟩ := role
  cases kind with
  | primary =>
    rw [addRole_primary_eq_ok_iff, iff_true_intro KeyRole.wellFormed_primary, true_and]
    refine and_congr_right fun _ => (and_iff_right ?_).symm
    rintro index ⟨⟩
  | localIndex =>
    cases part with
    | partition => exact iff_of_false nofun fun h => KeyRole.not_wellFormed_localPartition h.1
    | sort =>
      simp only [KeyRole.wellFormed_localSort_iff, KeyRole.index?, Option.mem_some_iff, forall_eq']
      exact claimIndex_eq_ok_iff claims.locals .sort fun i slot sort name =>
        { claims with locals := claims.locals.set i { slot with sort := sort, name := name } }
  | globalIndex =>
    simp only [KeyRole.wellFormed_global_iff, KeyRole.index?, Option.mem_some_iff, forall_eq']
    cases part with
    | partition =>
      exact claimIndex_eq_ok_iff claims.globals .partition fun i slot partition name =>
        { claims with
          globals := claims.globals.set i { slot with partition := partition, name := name } }
    | sort =>
      exact claimIndex_eq_ok_iff claims.globals .sort fun i slot sort name =>
        { claims with globals := claims.globals.set i { slot with sort := sort, name := name } }

/-- An entry of an index in range is replaced, and no other is. -/
theorem slotAt_set {slots : List IndexSlot} {slot : IndexSlot} {ordinal other : Nat}
    (hpos : 1 ≤ ordinal) (hlength : ordinal ≤ slots.length) :
    TableDescriptor.slotAt (slots.set (ordinal - 1) slot) other =
      if other = ordinal then slot else TableDescriptor.slotAt slots other := by
  unfold TableDescriptor.slotAt
  by_cases hother : other = ordinal
  · subst hother
    rw [if_neg (Nat.one_le_iff_ne_zero.mp hpos), if_pos rfl, List.getD_eq_getElem?_getD,
      List.getElem?_set_self (by omega), Option.getD_some]
  · rw [if_neg hother]
    split
    · rfl
    · rw [List.getD_eq_getElem?_getD, List.getD_eq_getElem?_getD, List.getElem?_set_ne (by omega)]

variable {role : KeyRole}

theorem Shaped.granted (h : claims.Shaped) : (claims.granted role position).Shaped := by
  obtain ⟨kind, part, ordinal, name⟩ := role
  unfold Claims.granted
  cases kind with
  | primary => cases part <;> exact ⟨h.locals, h.globals⟩
  | localIndex => exact ⟨List.length_set.trans h.locals, h.globals⟩
  | globalIndex => exact ⟨h.locals, List.length_set.trans h.globals⟩

/-- Only the index of the role that is granted is changed. -/
theorem slot_granted (h : claims.Shaped) (hrole : role.WellFormed) {index : TableIndex} :
    (claims.granted role position).slot index =
      if role.index? = some index then
        (claims.slot index).claimed role.part position role.indexName
      else claims.slot index := by
  obtain ⟨kind, part, ordinal, name⟩ := role
  cases kind with
  | primary => cases part <;> cases index <;> rfl
  | localIndex =>
    obtain ⟨hpos, hlast⟩ := hrole.localOrdinal rfl
    cases index with
    | localIndex other =>
      refine (slotAt_set hpos (h.locals.symm ▸ hlast)).trans ?_
      simp only [KeyRole.index?, Option.some.injEq, TableIndex.localIndex.injEq, eq_comm, slot]
      split
      next hsame => rw [hsame]
      next => rfl
    | globalIndex other => rfl
  | globalIndex =>
    obtain ⟨hpos, hlast⟩ := hrole.globalOrdinal rfl
    cases index with
    | localIndex other => rfl
    | globalIndex other =>
      refine (slotAt_set hpos (h.globals.symm ▸ hlast)).trans ?_
      simp only [KeyRole.index?, Option.some.injEq, TableIndex.globalIndex.injEq, eq_comm, slot]
      split
      next hsame => rw [hsame]
      next => rfl

theorem version_granted : (claims.granted role position).version = claims.version := by
  obtain ⟨kind, part, ordinal, name⟩ := role
  cases kind with
  | primary => cases part <;> rfl
  | localIndex | globalIndex => rfl

theorem part?_granted {part : KeyPart} :
    (claims.granted role position).part? part =
      if role.place = .own part then some position else claims.part? part := by
  obtain ⟨kind, rolePart, ordinal, name⟩ := role
  cases kind with
  | primary => cases rolePart <;> cases part <;> rfl
  | localIndex | globalIndex => rfl

/-- The place of a role that is granted is that of its member, and all others are as before. -/
theorem holder?_granted (h : claims.Shaped) (hrole : role.WellFormed) {place : TablePlace} :
    (claims.granted role position).holder? place =
      if role.place = place then some position else claims.holder? place := by
  cases place with
  | version =>
    rw [if_neg role.place_ne_version]
    exact version_granted
  | own part => exact part?_granted
  | index index part =>
    rw [holder?, slot_granted h hrole]
    simp only [role.place_eq_index_iff, holder?]
    by_cases hindex : role.index? = some index
    · rw [if_pos hindex, IndexSlot.holder?_claimed]
      simp only [hindex, true_and, eq_comm]
    · rw [if_neg hindex, if_neg fun hplace => hindex hplace.1]

theorem name?_granted (h : claims.Shaped) (hrole : role.WellFormed) {index : TableIndex} :
    (claims.granted role position).name? index =
      if role.index? = some index then role.indexName.or (claims.name? index)
      else claims.name? index := by
  rw [name?, slot_granted h hrole]
  split
  · exact IndexSlot.name_claimed
  · rfl

/-- The holder of a place that is granted has the place, and whoever had one before. -/
theorem holder?_eq_some_iff_of_granted (place : TablePlace) {other : TablePlace} {i : Nat}
    (hfree : ∀ i, claims.holder? place = some i → i = position)
    (hholder : claims'.holder? other = if place = other then some position else claims.holder? other) :
    claims'.holder? other = some i ↔
      claims.holder? other = some i ∨ other = place ∧ i = position := by
  rw [hholder]
  split
  next hplace =>
    subst hplace
    constructor
    · rintro ⟨⟩
      exact .inr ⟨rfl, rfl⟩
    · rintro (hheld | ⟨-, rfl⟩)
      · rw [hfree i hheld]
      · rfl
  next hplace => exact (or_iff_left fun hstated => hplace hstated.1.symm).symm

/-- A role that agrees with what has been stated adds what it states. -/
theorem facts_granted (h : claims.Shaped) (hrole : role.WellFormed)
    (hagree : TableFact.Agree (claims.facts ∪ role.facts position)) :
    (claims.granted role position).facts = claims.facts ∪ role.facts position := by
  obtain ⟨hfree, hname⟩ := agree_union_facts.mp hagree
  ext fact
  cases fact with
  | held place i => exact holder?_eq_some_iff_of_granted _ hfree (holder?_granted h hrole)
  | named index name =>
    change (claims.granted role position).name? index = some name ↔
      claims.name? index = some name ∨ role.index? = some index ∧ role.indexName = some name
    rw [name?_granted h hrole]
    split
    next hindex =>
      rw [and_iff_right hindex]
      cases hchosen : role.indexName with
      | none => exact (or_iff_left nofun).symm
      | some chosen =>
        refine (or_iff_right_of_imp fun hnamed => ?_).symm
        exact congrArg some (hname index hindex name chosen hnamed hchosen).symm
    next hindex => exact (or_iff_left fun hstated => hindex hstated.1).symm

/-- **A role** is taken where it is well-formed and states nothing that contradicts what has been stated
before, and what it states is recorded. -/
theorem records_addRole (s : Schema) (position : Nat) (member : Member) (role : KeyRole) :
    Records (addRole s position member · role) role.WellFormed (role.facts position) where
  succeeds claims _ := by
    simp only [addRole_eq_ok_iff]
    rw [agree_union_facts]
    constructor
    · rintro ⟨claims', hrole, hfree, hname, -⟩
      exact ⟨hrole, hfree, hname⟩
    · rintro ⟨hrole, hfree, hname⟩
      exact ⟨_, hrole, hfree, hname, rfl⟩
  records claims claims' hshaped h := by
    obtain ⟨hrole, hfree, hname, rfl⟩ := addRole_eq_ok_iff.mp h
    exact ⟨hshaped.granted, facts_granted hshaped hrole (agree_union_facts.mpr ⟨hfree, hname⟩)⟩

/-! ### All members -/

theorem Records.congr {step : Claims → Except Error Claims} {fits fits' : Prop}
    {stated stated' : Set TableFact} (h : Records step fits stated) (hfits : fits ↔ fits')
    (hstated : stated = stated') : Records step fits' stated' := by
  obtain rfl := propext hfits
  exact hstated ▸ h

/-- The roles of a member are taken one after another. -/
theorem records_addRoles (s : Schema) (position : Nat) (member : Member) (roles : List KeyRole) :
    Records (fun claims => roles.foldlM (addRole s position member) claims)
      (∀ role ∈ roles, role.WellFormed) {fact | ∃ role ∈ roles, fact ∈ role.facts position} := by
  induction roles with
  | nil =>
    refine Records.pure.congr (by simp) ?_
    simp
  | cons role rest ih =>
    simp only [List.foldlM_cons]
    refine ((records_addRole s position member role).bind ih).congr ?_ ?_
    · rw [List.forall_mem_cons]
    · ext fact
      simp [Set.mem_union]

/-- What the member at a position states about versions if it counts them. -/
def versionFact (position : Nat) : Set TableFact
  | .held place i => place = .version ∧ i = position
  | .named _ _ => False

theorem agree_union_versionFact :
    TableFact.Agree (claims.facts ∪ versionFact position) ↔
      ∀ i, claims.version = some i → i = position := by
  constructor
  · exact fun h i hi => h.holders .version i position (.inl hi) (.inr ⟨rfl, rfl⟩)
  · intro hfree
    refine ⟨?_, ?_⟩
    · rintro place i j (hi | ⟨rfl, rfl⟩) (hj | ⟨hplace, rfl⟩)
      · exact claims.agree_facts.holders place i j hi hj
      · subst hplace
        exact hfree i hi
      · exact (hfree j hj).symm
      · rfl
    · intro index a b ha hb
      exact claims.agree_facts.names index a b (ha.resolve_right id) (hb.resolve_right id)

theorem facts_setVersion (hfree : ∀ i, claims.version = some i → i = position) :
    facts { claims with version := some position } = claims.facts ∪ versionFact position := by
  ext fact
  cases fact with
  | held place i =>
    refine holder?_eq_some_iff_of_granted .version hfree ?_
    cases place <;> rfl
  | named index name => exact (or_iff_left nofun).symm

/-- The place of the member that counts versions is claimed. -/
theorem records_version (s : Schema) (position : Nat) :
    Records (fun claims => do
        let version ← claim s "version" position claims.version
        pure { claims with version := version })
      True (versionFact position) where
  succeeds claims _ := by
    rw [true_and, agree_union_versionFact]
    simp only [except_bind_eq_ok, claim_eq_ok_iff]
    constructor
    · rintro ⟨claims', _, ⟨hfree, -⟩, -⟩
      exact hfree
    · intro hfree
      exact ⟨_, _, ⟨hfree, rfl⟩, rfl⟩
  records claims claims' hshaped h := by
    obtain ⟨granted, hgranted, heq⟩ := except_bind_eq_ok.mp h
    obtain ⟨hfree, rfl⟩ := claim_eq_ok_iff.mp hgranted
    cases heq
    exact ⟨⟨hshaped.locals, hshaped.globals⟩, facts_setVersion hfree⟩

/-- What the roles of a member state. -/
def roleFacts (position : Nat) (member : Member) : Set TableFact :=
  {fact | ∃ role ∈ member.roles, fact ∈ role.facts position}

theorem canBeKey_iff {member : Member} :
    canBeKey member = true ↔ member.type.kind ∈ [Kind.text, .number, .binary, .enumeration] := by
  unfold canBeKey
  cases member.type.kind <;> decide

/-- A member states its roles, which it may have if keys can hold its values. -/
theorem records_memberRoles (s : Schema) (position : Nat) (member : Member) :
    Records (fun claims =>
        if !member.roles.isEmpty && !canBeKey member then
          .error (Cause.invalidMetadata s.typeName
            s!"key member '{member.name}' must be a string, number or binary")
        else member.roles.foldlM (addRole s position member) claims)
      member.WellFormed (roleFacts position member) := by
  have hroles := records_addRoles s position member member.roles
  by_cases hkind : member.roles ≠ [] → canBeKey member = true
  · have hcondition : (!member.roles.isEmpty && !canBeKey member) = false := by
      simpa [or_iff_not_imp_left] using hkind
    simp only [hcondition]
    refine hroles.congr ⟨fun h => ⟨fun hsome => canBeKey_iff.mp (hkind hsome), h⟩, ?_⟩ rfl
    exact fun h => h.roles
  · have hcondition : (!member.roles.isEmpty && !canBeKey member) = true := by
      simpa using hkind
    simp only [hcondition]
    constructor
    · intro claims _
      exact iff_of_false nofun fun h => hkind fun hsome => canBeKey_iff.mpr (h.1.kind hsome)
    · nofun

theorem facts_member (member : Member) (position : Nat) :
    member.facts position =
      if member.version = true then versionFact position ∪ roleFacts position member
      else roleFacts position member := by
  ext fact
  cases fact with
  | held place i =>
    have hroles : .held place i ∈ roleFacts position member ↔
        (∃ role ∈ member.roles, role.place = place) ∧ i = position := by
      constructor
      · rintro ⟨role, hrole, rfl, rfl⟩
        exact ⟨⟨role, hrole, rfl⟩, rfl⟩
      · rintro ⟨⟨role, hrole, rfl⟩, rfl⟩
        exact ⟨role, hrole, rfl, rfl⟩
    have hmember : .held place i ∈ member.facts position ↔
        (place = .version ∧ member.version = true ∨ ∃ role ∈ member.roles, role.place = place) ∧
          i = position := Iff.rfl
    split
    next hversion =>
      rw [Set.mem_union, hroles, hmember, and_iff_left hversion, or_and_right]
      rfl
    next hversion => rw [hroles, hmember, or_iff_right fun hcounts => hversion hcounts.2]
  | named index name =>
    split
    · exact (or_iff_right nofun).symm
    · rfl

/-- A member is taken where it is well-formed and what it states agrees with what has been stated. -/
theorem records_addMember (s : Schema) (position : Nat) (member : Member) :
    Records (addMember s · position member) member.WellFormed (member.facts position) := by
  have hroles := records_memberRoles s position member
  rw [facts_member]
  cases hversion : member.version with
  | false =>
    simp only [addMember, hversion, Bool.false_eq_true, if_false]
    exact hroles
  | true =>
    simp only [addMember, hversion, if_true]
    have hsteps := (records_version s position).bind hroles
    simp only [bind_assoc, pure_bind, true_and] at hsteps
    exact hsteps

theorem memberFacts_cons (position : Nat) (member : Member) (rest : List Member) :
    member.facts position ∪ memberFacts (position + 1) rest =
      memberFacts position (member :: rest) := by
  ext fact
  constructor
  · rintro (hfact | ⟨i, m, hm, hfact⟩)
    · exact ⟨0, member, rfl, hfact⟩
    · refine ⟨i + 1, m, hm, ?_⟩
      rwa [Nat.add_comm i 1, ← Nat.add_assoc]
  · rintro ⟨i, m, hm, hfact⟩
    cases i with
    | zero =>
      cases hm
      exact .inl hfact
    | succ i =>
      refine .inr ⟨i, m, hm, ?_⟩
      rwa [Nat.add_assoc, Nat.add_comm 1 i]

/-- **All members** are taken where they are well-formed and what they state agrees, and what they state
is recorded. -/
theorem records_addMembers (s : Schema) (position : Nat) (members : List Member) :
    Records (addMembers s · position members) (∀ m ∈ members, m.WellFormed)
      (memberFacts position members) := by
  induction members generalizing position with
  | nil =>
    refine Records.pure.congr (by simp) ?_
    simp [memberFacts]
  | cons member rest ih =>
    refine ((records_addMember s position member).bind (ih (position + 1))).congr ?_ ?_
    · rw [List.forall_mem_cons]
    · exact memberFacts_cons position member rest

end Claims

end ItemMapper
