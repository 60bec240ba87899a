import Mathlib.Data.List.Perm.Basic
import ItemMapper.Proofs.Values.Fields
import ItemMapper.Proofs.Values.Settled

/-!
# Dynamic values in other orders

The sets and the maps in a dynamic value may be visited in any order, at any depth. What a map is stored
as does not depend on that, since its fields are kept by their keys; what a set is stored as does not
where its elements are settled.

## Main definitions

* `Alike`: two results that are the same, or both of which are errors.
* `Value.Reorders`: values that differ in the order of one set or one map, at any depth.

## Main statements

* `Alike.closeArray_of_perm`: the set of some elements in another order, if they are settled.
* `Value.Reorders.piece_alike`: what is stored of a value in which a set or a map is reordered.
-/

namespace ItemMapper

open Writer (closeArray)

/-! ### Results that are alike -/

section
variable {α β : Type} {r r' : Except Error α}

theorem mapError_eq_ok {f : Error → Error} {x : α} : r.mapError f = .ok x ↔ r = .ok x := by
  cases r with
  | error e => exact ⟨nofun, nofun⟩
  | ok x => exact Iff.rfl

/-- A first result and the list of the others are a list where all of them are results. -/
theorem bind_cons_eq_ok {f : Error → Error} {rest : Except Error (List β)} {g : α → β} {ys : List β} :
    (do
      let first ← r.mapError f
      let others ← rest
      Except.ok (g first :: others)) = .ok ys ↔
        ∃ first others, r = .ok first ∧ rest = .ok others ∧ ys = g first :: others := by
  simp only [except_bind_eq_ok, mapError_eq_ok, Except.ok.injEq]
  constructor
  · rintro ⟨first, hfirst, others, hothers, rfl⟩
    exact ⟨first, others, hfirst, hothers, rfl⟩
  · rintro ⟨first, others, hfirst, hothers, rfl⟩
    exact ⟨first, hfirst, others, hothers, rfl⟩

/-- Two results that are the same, or both of which are errors. -/
def Alike (r r' : Except Error α) : Prop := ∀ x, r = .ok x ↔ r' = .ok x

namespace Alike

theorem refl (r : Except Error α) : Alike r r := fun _ => Iff.rfl

theorem trans {r'' : Except Error α} (h : Alike r r') (h' : Alike r' r'') : Alike r r'' :=
  fun x => (h x).trans (h' x)

theorem bind (h : Alike r r') {f g : α → Except Error β} (hfg : ∀ x, Alike (f x) (g x)) :
    Alike (r >>= f) (r' >>= g) := by
  intro y
  rw [except_bind_eq_ok, except_bind_eq_ok]
  exact exists_congr fun x => and_congr (h x) (hfg x y)

theorem map (h : Alike r r') (f : α → β) : Alike (r.map f) (r'.map f) := by
  intro y
  rw [except_map_eq_ok, except_map_eq_ok]
  exact exists_congr fun x => and_congr_left' (h x)

theorem mapError (h : Alike r r') (f g : Error → Error) : Alike (r.mapError f) (r'.mapError g) :=
  fun x => mapError_eq_ok.trans ((h x).trans mapError_eq_ok.symm)

end Alike

end

/-! ### Lists of results -/

section
variable {α β : Type} {R : α → β → Prop}

/-- One element of a list may be replaced by one that the same is related to. -/
theorem forall₂_replace_iff {x x' : α} (h : ∀ y, R x y ↔ R x' y) {before after : List α}
    {ys : List β} :
    List.Forall₂ R (before ++ x :: after) ys ↔ List.Forall₂ R (before ++ x' :: after) ys := by
  induction before generalizing ys with
  | nil =>
    rw [List.nil_append, List.nil_append, List.forall₂_cons_left_iff, List.forall₂_cons_left_iff]
    simp only [h]
  | cons z before ih =>
    rw [List.cons_append, List.cons_append, List.forall₂_cons_left_iff, List.forall₂_cons_left_iff]
    simp only [ih]

/-- The pairs of a list in another order are those of the lists in another order. -/
theorem forall₂_perm_left {xs xs' : List α} {ys : List β} (hperm : xs.Perm xs')
    (h : List.Forall₂ R xs ys) : ∃ ys', List.Forall₂ R xs' ys' ∧ ys.Perm ys' := by
  obtain ⟨ys', h', hperm'⟩ := List.perm_comp_forall₂ hperm.symm h
  exact ⟨ys', h', hperm'.symm⟩

end

/-! ### Sets and maps of results -/

section
variable {α : Type} {xs xs' : List α}

/-- Settled elements make the same set in another order. -/
theorem Alike.closeArray_of_perm {R : α → AttributeValue → Prop} {inArray : Bool}
    {r r' : Except Error (List AttributeValue)} (hperm : xs.Perm xs')
    (hr : ∀ elements, r = .ok elements ↔ List.Forall₂ R xs elements)
    (hr' : ∀ elements, r' = .ok elements ↔ List.Forall₂ R xs' elements)
    (hsettled : ∀ elements, r = .ok elements → Settled inArray elements) :
    Alike (r >>= closeArray true inArray) (r' >>= closeArray true inArray) := by
  intro value
  rw [except_bind_eq_ok, except_bind_eq_ok]
  constructor
  · rintro ⟨elements, hok, hclose⟩
    obtain ⟨order, horder, helements⟩ := forall₂_perm_left hperm ((hr elements).mp hok)
    refine ⟨order, (hr' order).mpr horder, ?_⟩
    rw [(hsettled elements hok).closeArray_eq helements, hclose]
  · rintro ⟨order, hok, hclose⟩
    obtain ⟨elements, helements, horder⟩ := forall₂_perm_left hperm.symm ((hr' order).mp hok)
    have hok' := (hr elements).mpr helements
    refine ⟨elements, hok', ?_⟩
    rw [← (hsettled elements hok').closeArray_eq horder.symm, hclose]

/-- Pairs with distinct keys are the same fields in another order. -/
theorem Fields.ofList_of_perm {pairs pairs' : List (String × α)} (hperm : pairs.Perm pairs')
    (hkeys : (pairs.map (·.1)).Nodup) : ofList pairs = ofList pairs' := by
  have hkeys' : (pairs'.map (·.1)).Nodup := (hperm.map (·.1)).nodup_iff.mp hkeys
  refine ext_get? (ascending_ofList pairs) (ascending_ofList pairs') fun key => ?_
  rw [get?_ofList hkeys, get?_ofList hkeys']
  refine Option.ext fun value => ?_
  constructor
  · intro h
    exact lookup_of_mem hkeys' (hperm.mem_iff.mp (mem_of_lookup h))
  · intro h
    exact lookup_of_mem hkeys (hperm.mem_iff.mpr (mem_of_lookup h))

/-- An entry and what its value is stored as, under the same key. -/
def Stored {β : Type} (f : β → Except Error AttributeValue) (entry : String × β)
    (field : String × AttributeValue) : Prop :=
  field.1 = entry.1 ∧ f entry.2 = .ok field.2

theorem forall₂_stored_cons_iff {β : Type} {f : β → Except Error AttributeValue} {key : String}
    {value : β} {rest : List (String × β)} {fields : List (String × AttributeValue)} :
    List.Forall₂ (Stored f) ((key, value) :: rest) fields ↔
      ∃ stored others, f value = .ok stored ∧ List.Forall₂ (Stored f) rest others ∧
        fields = (key, stored) :: others := by
  rw [List.forall₂_cons_left_iff]
  constructor
  · rintro ⟨⟨_, stored⟩, others, ⟨rfl, hstored⟩, hothers, rfl⟩
    exact ⟨stored, others, hstored, hothers, rfl⟩
  · rintro ⟨stored, others, hstored, hothers, rfl⟩
    exact ⟨(key, stored), others, ⟨rfl, hstored⟩, hothers, rfl⟩

theorem keys_of_stored {β : Type} {f : β → Except Error AttributeValue} {entries : List (String × β)}
    {fields : List (String × AttributeValue)} (h : List.Forall₂ (Stored f) entries fields) :
    fields.map (·.1) = entries.map (·.1) := by
  induction h with
  | nil => rfl
  | cons hstored _ ih => rw [List.map_cons, List.map_cons, hstored.1, ih]

/-- Entries with distinct keys make the same fields in another order. -/
theorem Alike.fields_of_perm {β : Type} {f : β → Except Error AttributeValue}
    {entries entries' : List (String × β)} {r r' : Except Error (List (String × AttributeValue))}
    (hperm : entries.Perm entries') (hkeys : (entries.map (·.1)).Nodup)
    (hr : ∀ fields, r = .ok fields ↔ List.Forall₂ (Stored f) entries fields)
    (hr' : ∀ fields, r' = .ok fields ↔ List.Forall₂ (Stored f) entries' fields)
    (g : Item → AttributeValue) :
    Alike (r.map fun fields => g (Fields.ofList fields))
      (r'.map fun fields => g (Fields.ofList fields)) := by
  have hdistinct : ∀ {fields : List (String × AttributeValue)},
      List.Forall₂ (Stored f) entries fields → (fields.map (·.1)).Nodup := fun h => by
    rwa [keys_of_stored h]
  intro value
  rw [except_map_eq_ok, except_map_eq_ok]
  constructor
  · rintro ⟨fields, hok, rfl⟩
    have hfields := (hr fields).mp hok
    obtain ⟨order, horder, hsame⟩ := forall₂_perm_left hperm hfields
    exact ⟨order, (hr' order).mpr horder,
      congrArg g (Fields.ofList_of_perm hsame (hdistinct hfields)).symm⟩
  · rintro ⟨order, hok, rfl⟩
    obtain ⟨fields, hfields, hsame⟩ := forall₂_perm_left hperm.symm ((hr' order).mp hok)
    exact ⟨fields, (hr fields).mpr hfields,
      congrArg g (Fields.ofList_of_perm hsame.symm (hdistinct hfields))⟩

end

namespace Value

variable {options : CodecOptions}

/-! ### Parts of values -/

theorem itemPieces_eq_ok {position : Nat} {items : List Value} {pieces : List AttributeValue} :
    itemPieces options position items = .ok pieces ↔
      List.Forall₂ (fun item piece => item.piece options .none true = .ok piece) items pieces := by
  induction items generalizing position pieces with
  | nil => simp [itemPieces, eq_comm]
  | cons item rest ih =>
    rw [itemPieces, bind_cons_eq_ok, List.forall₂_cons_left_iff]
    simp only [ih]

theorem fieldPieces_eq_ok {fields : List (String × Value)}
    {pieces : List (String × AttributeValue)} :
    fieldPieces options fields = .ok pieces ↔
      List.Forall₂ (Stored (·.piece options .none false)) fields pieces := by
  induction fields generalizing pieces with
  | nil => simp [fieldPieces, eq_comm]
  | cons field rest ih =>
    obtain ⟨key, value⟩ := field
    rw [fieldPieces, bind_cons_eq_ok, forall₂_stored_cons_iff]
    simp only [ih]

theorem piece_set {flags : WriteFlags} {inArray : Bool} (members : List Value) :
    (set members).piece options flags inArray =
      itemPieces options 0 members >>= closeArray true inArray := by
  rw [piece]
  refine bind_congr fun pieces => ?_
  rw [Writer.closeArray_eq, Bool.true_and]
  cases inArray <;> rfl

theorem piece_list {flags : WriteFlags} {inArray : Bool} (items : List Value) :
    (list items).piece options flags inArray =
      itemPieces options 0 items >>= closeArray false inArray := by
  rw [piece]
  refine bind_congr fun pieces => ?_
  rw [Writer.closeArray_eq, Bool.false_and, if_neg Bool.false_ne_true]

theorem piece_map {flags : WriteFlags} {inArray : Bool} (fields : List (String × Value)) :
    (map fields).piece options flags inArray =
      (fieldPieces options fields).map fun pieces =>
        .map ((Fields.ofList pieces).filter fun field => flags.keeps field.2) := by
  rw [piece]
  cases fieldPieces options fields <;> rfl

/-! ### Reordering -/

/-- Two values that differ in the order in which one set or one map in them is visited, directly in an
array or elsewhere. The elements of the set are settled there, and the keys of the map are distinct. -/
inductive Reorders (options : CodecOptions) : Bool → Value → Value → Prop
  | set {inArray : Bool} {members order : List Value} (hperm : members.Perm order)
      (hsettled : ∀ pieces, itemPieces options 0 members = .ok pieces → Settled inArray pieces) :
      Reorders options inArray (.set members) (.set order)
  | map {inArray : Bool} {fields order : List (String × Value)} (hperm : fields.Perm order)
      (hkeys : (fields.map (·.1)).Nodup) : Reorders options inArray (.map fields) (.map order)
  | item {inArray : Bool} {before after : List Value} {value value' : Value}
      (h : Reorders options true value value') :
      Reorders options inArray (.list (before ++ value :: after)) (.list (before ++ value' :: after))
  | member {inArray : Bool} {before after : List Value} {value value' : Value}
      (h : Reorders options true value value') :
      Reorders options inArray (.set (before ++ value :: after)) (.set (before ++ value' :: after))
  | field {inArray : Bool} {before after : List (String × Value)} {key : String}
      {value value' : Value} (h : Reorders options false value value') :
      Reorders options inArray (.map (before ++ (key, value) :: after))
        (.map (before ++ (key, value') :: after))

namespace Reorders

variable {inArray : Bool} {value value' : Value}

theorem isNull_eq (h : Reorders options inArray value value') : value.isNull = value'.isNull := by
  cases h <;> rfl

theorem itemPieces_alike (h : ∀ flags, Alike (value.piece options flags true)
    (value'.piece options flags true)) (before after : List Value) :
    Alike (itemPieces options 0 (before ++ value :: after))
      (itemPieces options 0 (before ++ value' :: after)) := by
  intro pieces
  rw [itemPieces_eq_ok, itemPieces_eq_ok]
  exact forall₂_replace_iff
    (R := fun (item : Value) piece => item.piece options .none true = .ok piece) (h .none)

/-- A value in which a set or a map is reordered is stored as before, or cannot be stored in either
order. -/
theorem piece_alike (h : Reorders options inArray value value') (flags : WriteFlags) :
    Alike (value.piece options flags inArray) (value'.piece options flags inArray) := by
  induction h generalizing flags with
  | set hperm hsettled =>
    rw [piece_set, piece_set]
    exact .closeArray_of_perm hperm (fun _ => itemPieces_eq_ok) (fun _ => itemPieces_eq_ok) hsettled
  | map hperm hkeys =>
    rw [piece_map, piece_map]
    exact .fields_of_perm hperm hkeys (fun _ => fieldPieces_eq_ok) (fun _ => fieldPieces_eq_ok)
      fun fields => .map (fields.filter fun field => flags.keeps field.2)
  | item _ ih =>
    rw [piece_list, piece_list]
    exact (itemPieces_alike ih _ _).bind fun _ => .refl _
  | member _ ih =>
    rw [piece_set, piece_set]
    exact (itemPieces_alike ih _ _).bind fun _ => .refl _
  | field _ ih =>
    rw [piece_map, piece_map]
    refine Alike.map (fun pieces => ?_) _
    rw [fieldPieces_eq_ok, fieldPieces_eq_ok]
    refine forall₂_replace_iff
      (R := Stored fun value : Value => value.piece options .none false) fun field => ?_
    exact and_congr_right fun _ => ih .none field.2

end Reorders

end Value

end ItemMapper
