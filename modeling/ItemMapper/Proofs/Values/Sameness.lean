import Mathlib.Data.List.InsertIdx
import Mathlib.Data.List.Basic
import ItemMapper.Proofs.Aliases.Lookup

/-!
# Values that are the same

Attribute values are compared without regard to the order inside sets, and with regard to all else.
What the comparison looks at is the canonical form of a value, in which all sets are in order. Parts may
be put into lists and maps before or after sets are brought in order, so that values stay the same when
parts that are the same are put at the same place. And the tables of placeholders can rely on it: a
value gets the placeholder of any value that is the same, and raw text that brings a placeholder once
more has to bring it for such a value.

## Main definitions

* `AttributeValue.Reordered`: values that differ by the order inside sets.
* `AttributeValue.replaceAt`: a value with another part at a place.
* `AttributeValue.IsCongruence`: equivalences that parts at the same place may be replaced by.

## Main statements

* `AttributeValue.reordered_iff`: canonical forms are equal just for values that differ in this way.
* `AttributeValue.canonical_replaceAt`: replacing a part and bringing sets in order.
* `AttributeValue.same_up_to_order`: **what it means for values to be the same**.
-/

namespace ItemMapper

/-- Sorted lists are equal if and only if the lists have the same elements, each as often. -/
theorem sortBy_eq_iff_perm {α : Type} (cmp : α → α → Ordering) [Std.TransCmp cmp]
    [Std.LawfulEqCmp cmp] {xs ys : List α} : sortBy cmp xs = sortBy cmp ys ↔ xs.Perm ys :=
  ⟨fun h => (sortBy_perm cmp xs).symm.trans (h ▸ sortBy_perm cmp ys), sortBy_eq_of_perm cmp⟩

namespace AttributeValue

/-! ### The order inside sets -/

mutual
/-- Values that differ by the order in which their sets hold their members, and in nothing else. -/
inductive Reordered : AttributeValue → AttributeValue → Prop
  | refl (value : AttributeValue) : Reordered value value
  | textSet {xs ys : List String} : xs.Perm ys → Reordered (.textSet xs) (.textSet ys)
  | numberSet {xs ys : List String} : xs.Perm ys → Reordered (.numberSet xs) (.numberSet ys)
  | binarySet {xs ys : List Bytes} : xs.Perm ys → Reordered (.binarySet xs) (.binarySet ys)
  | list {xs ys : List AttributeValue} : ReorderedItems xs ys → Reordered (.list xs) (.list ys)
  | map {xs ys : List (String × AttributeValue)} :
      ReorderedFields xs ys → Reordered (.map xs) (.map ys)

/-- Items that differ in this way, one by one. -/
inductive ReorderedItems : List AttributeValue → List AttributeValue → Prop
  | nil : ReorderedItems [] []
  | cons {x y : AttributeValue} {xs ys : List AttributeValue} : Reordered x y →
      ReorderedItems xs ys → ReorderedItems (x :: xs) (y :: ys)

/-- Fields with the same names whose values differ in this way. -/
inductive ReorderedFields :
    List (String × AttributeValue) → List (String × AttributeValue) → Prop
  | nil : ReorderedFields [] []
  | cons {key : String} {x y : AttributeValue} {xs ys : List (String × AttributeValue)} :
      Reordered x y → ReorderedFields xs ys → ReorderedFields ((key, x) :: xs) ((key, y) :: ys)
end

mutual
theorem Reordered.canonical_eq {x y : AttributeValue} (h : Reordered x y) :
    x.canonical = y.canonical := by
  cases h with
  | refl => rfl
  | textSet hperm => exact congrArg textSet (sortBy_eq_of_perm compareText hperm)
  | numberSet hperm => exact congrArg numberSet (sortBy_eq_of_perm compareText hperm)
  | binarySet hperm => exact congrArg binarySet (sortBy_eq_of_perm compareBytes hperm)
  | list hitems => exact congrArg list hitems.canonicalItems_eq
  | map hfields => exact congrArg map hfields.canonicalFields_eq

theorem ReorderedItems.canonicalItems_eq {xs ys : List AttributeValue} (h : ReorderedItems xs ys) :
    canonicalItems xs = canonicalItems ys := by
  cases h with
  | nil => rfl
  | cons hfirst hrest =>
    rw [canonicalItems, canonicalItems, hfirst.canonical_eq, hrest.canonicalItems_eq]

theorem ReorderedFields.canonicalFields_eq {xs ys : List (String × AttributeValue)}
    (h : ReorderedFields xs ys) : canonicalFields xs = canonicalFields ys := by
  cases h with
  | nil => rfl
  | cons hfirst hrest =>
    rw [canonicalFields, canonicalFields, hfirst.canonical_eq, hrest.canonicalFields_eq]
end

mutual
theorem reordered_of_canonical_eq (x y : AttributeValue) (h : x.canonical = y.canonical) :
    Reordered x y := by
  cases x with
  | text | number | binary | bool | null => cases y <;> cases h; exact .refl _
  | textSet xs =>
    cases y with
    | textSet ys => exact .textSet ((sortBy_eq_iff_perm compareText).mp (textSet.inj h))
    | _ => cases h
  | numberSet xs =>
    cases y with
    | numberSet ys => exact .numberSet ((sortBy_eq_iff_perm compareText).mp (numberSet.inj h))
    | _ => cases h
  | binarySet xs =>
    cases y with
    | binarySet ys => exact .binarySet ((sortBy_eq_iff_perm compareBytes).mp (binarySet.inj h))
    | _ => cases h
  | list xs =>
    cases y with
    | list ys => exact .list (reorderedItems_of_canonicalItems_eq xs ys (list.inj h))
    | _ => cases h
  | map xs =>
    cases y with
    | map ys => exact .map (reorderedFields_of_canonicalFields_eq xs ys (map.inj h))
    | _ => cases h

theorem reorderedItems_of_canonicalItems_eq (xs ys : List AttributeValue)
    (h : canonicalItems xs = canonicalItems ys) : ReorderedItems xs ys := by
  match xs, ys with
  | [], [] => exact .nil
  | [], _ :: _ => cases h
  | _ :: _, [] => cases h
  | x :: xs, y :: ys =>
    obtain ⟨hfirst, hrest⟩ := List.cons.inj h
    exact .cons (reordered_of_canonical_eq x y hfirst)
      (reorderedItems_of_canonicalItems_eq xs ys hrest)

theorem reorderedFields_of_canonicalFields_eq (xs ys : List (String × AttributeValue))
    (h : canonicalFields xs = canonicalFields ys) : ReorderedFields xs ys := by
  match xs, ys with
  | [], [] => exact .nil
  | [], _ :: _ => cases h
  | _ :: _, [] => cases h
  | (j, x) :: xs, (k, y) :: ys =>
    obtain ⟨hfirst, hrest⟩ := List.cons.inj h
    obtain ⟨rfl, hvalue⟩ := Prod.mk.inj hfirst
    exact .cons (reordered_of_canonical_eq x y hvalue)
      (reorderedFields_of_canonicalFields_eq xs ys hrest)
end

/-- **Canonical forms are equal just for values that differ by the order inside sets.** -/
theorem reordered_iff {x y : AttributeValue} : Reordered x y ↔ x.canonical = y.canonical :=
  ⟨Reordered.canonical_eq, reordered_of_canonical_eq x y⟩

/-! ### Parts at the same place -/

/-- The value with another part at the end of a path through lists and maps. Where the path leads
nowhere, nothing changes. -/
def replaceAt (part : AttributeValue) : List PathSegment → AttributeValue → AttributeValue
  | [], _ => part
  | .index position :: rest, .list items => .list (items.modify position (replaceAt part rest))
  | .field name :: rest, .map fields =>
    .map (fields.map fun (key, value) =>
      (key, if key = name then replaceAt part rest value else value))
  | _ :: _, value => value

theorem canonicalItems_eq_map (items : List AttributeValue) :
    canonicalItems items = items.map canonical := by
  induction items with
  | nil => rfl
  | cons item rest ih => rw [canonicalItems, ih, List.map_cons]

theorem canonicalFields_eq_map (fields : List (String × AttributeValue)) :
    canonicalFields fields = fields.map fun (key, value) => (key, value.canonical) := by
  induction fields with
  | nil => rfl
  | cons field rest ih =>
    obtain ⟨key, value⟩ := field
    rw [canonicalFields, ih, List.map_cons]

theorem canonicalItems_insertIdx (items : List AttributeValue) (position : Nat)
    (item : AttributeValue) :
    canonicalItems (items.insertIdx position item) =
      (canonicalItems items).insertIdx position item.canonical := by
  rw [canonicalItems_eq_map, canonicalItems_eq_map, List.map_insertIdx]

theorem canonicalFields_insert (fields : List (String × AttributeValue)) (key : String)
    (value : AttributeValue) :
    canonicalFields (Fields.insert fields key value) =
      Fields.insert (canonicalFields fields) key value.canonical := by
  induction fields with
  | nil => rfl
  | cons field rest ih =>
    obtain ⟨k, v⟩ := field
    rw [canonicalFields, Fields.insert, Fields.insert]
    cases compareText key k with
    | lt => rfl
    | eq => rfl
    | gt => exact congrArg _ ih

section
variable {f g : AttributeValue → AttributeValue}
  (hfg : ∀ value, (f value).canonical = g value.canonical)
include hfg

theorem canonicalItems_modify (items : List AttributeValue) (position : Nat) :
    canonicalItems (items.modify position f) = (canonicalItems items).modify position g := by
  induction items generalizing position with
  | nil => rw [List.modify_nil, canonicalItems, List.modify_nil]
  | cons item rest ih =>
    cases position with
    | zero =>
      rw [List.modify_zero_cons, canonicalItems, canonicalItems, List.modify_zero_cons, hfg]
    | succ position =>
      rw [List.modify_succ_cons, canonicalItems, canonicalItems, List.modify_succ_cons, ih]

theorem canonicalFields_modify (fields : List (String × AttributeValue)) (name : String) :
    canonicalFields
        (fields.map fun (key, value) => (key, if key = name then f value else value)) =
      (canonicalFields fields).map fun (key, value) =>
        (key, if key = name then g value else value) := by
  rw [canonicalFields_eq_map, canonicalFields_eq_map, List.map_map, List.map_map]
  refine List.map_congr_left fun (key, value) _ => ?_
  by_cases hkey : key = name
  · simp [hkey, hfg]
  · simp [hkey]

end

/-- Replacing a part and bringing sets in order can be done in either order. -/
theorem canonical_replaceAt (part : AttributeValue) (path : List PathSegment)
    (value : AttributeValue) :
    (replaceAt part path value).canonical = replaceAt part.canonical path value.canonical := by
  induction path generalizing value with
  | nil => cases value <;> rfl
  | cons segment rest ih =>
    cases segment with
    | index position =>
      cases value with
      | list items => exact congrArg list (canonicalItems_modify ih items position)
      | _ => rfl
    | field name =>
      cases value with
      | map fields => exact congrArg map (canonicalFields_modify ih fields name)
      | _ => rfl

/-- Equivalences of values that hold as well after equivalent parts were put at the same place of lists
and maps, in place of others or in addition to them. -/
structure IsCongruence (r : AttributeValue → AttributeValue → Prop) : Prop where
  equivalence : Equivalence r
  replace : ∀ {whole whole' part part'} path, r whole whole' → r part part' →
    r (replaceAt part path whole) (replaceAt part' path whole')
  insertItem : ∀ {items items' item item'} position, r (list items) (list items') → r item item' →
    r (list (items.insertIdx position item)) (list (items'.insertIdx position item'))
  insertField : ∀ {fields fields' value value'} key, r (map fields) (map fields') →
    r value value' →
    r (map (Fields.insert fields key value)) (map (Fields.insert fields' key value'))

theorem same_isCongruence : IsCongruence fun x y => x.same y = true where
  equivalence := by
    simp only [same_iff]
    exact ⟨fun _ => rfl, Eq.symm, Eq.trans⟩
  replace {whole whole' part part'} path hwhole hpart := by
    rw [same_iff] at hwhole hpart ⊢
    rw [canonical_replaceAt, canonical_replaceAt, hwhole, hpart]
  insertItem {items items' item item'} position hitems hitem := by
    rw [same_iff] at hitems hitem ⊢
    rw [canonical, canonical, canonicalItems_insertIdx, canonicalItems_insertIdx, hitem,
      list.inj hitems]
  insertField {fields fields' value value'} key hfields hvalue := by
    rw [same_iff] at hfields hvalue ⊢
    rw [canonical, canonical, canonicalFields_insert, canonicalFields_insert, hvalue,
      map.inj hfields]

end AttributeValue

namespace Aliases

variable {value value' : AttributeValue}

/-! ### The tables of placeholders -/

/-- **Values are the same if and only if they share their placeholders**: wherever the first one has got
one, the second one gets it, too, and nothing is added. -/
theorem same_iff_valueAlias : value.same value' = true ↔
    ∀ s placeholder t, valueAlias value s = .ok placeholder t →
      valueAlias value' t = .ok placeholder t := by
  refine ⟨fun hsame s placeholder t h => (Keeps.refl t).valueAlias h hsame, fun h => ?_⟩
  -- In fresh tables, the first value is the only one that finds its placeholder.
  obtain ⟨number, free, hfirst⟩ := valueAlias_of_none (a := empty) rfl
  have hfound := aliasOf?_of_valueAlias (h _ _ _ hfirst)
  obtain ⟨present, hmem, hsame⟩ := mem_of_aliasOf? hfound
  rcases mem_bindValue (a := empty) hmem with hnew | hold
  · obtain rfl : present = value := congrArg Prod.fst hnew
    exact hsame
  · cases hold

/-- Raw text that brings a placeholder again conflicts with what this stands for if and only if it
brings it for a value that is not the same. -/
theorem mergeValue_of_bound {options : CodecOptions} {placeholder : String} {s : Aliases}
    {constant : Value} (hbound : s.values.get? placeholder = some value)
    (hstored : stored options constant = .ok value') :
    mergeValue options placeholder constant s =
      if value.same value' then .ok () s else .error ↑(Cause.aliasConflict placeholder) s := by
  rw [mergeValue_eq, hstored]
  exact mergeStored_of_some hbound

end Aliases

namespace AttributeValue

/-- **What it means for values to be the same**: their canonical forms are equal, they differ by
nothing but the order inside sets, they share their placeholders, and raw text may bring a placeholder
of the first one for the second one. This is an equivalence, and values stay the same when parts that
are the same are put at the same place of their lists and maps. -/
theorem same_up_to_order :
    IsCongruence (fun x y => x.same y = true) ∧
      ∀ x y : AttributeValue,
        (x.same y = true ↔ x.canonical = y.canonical) ∧
        (x.same y = true ↔ Reordered x y) ∧
        (x.same y = true ↔ ∀ s placeholder t, Aliases.valueAlias x s = .ok placeholder t →
          Aliases.valueAlias y t = .ok placeholder t) ∧
        ∀ options placeholder s constant, s.values.get? placeholder = some x →
          Aliases.stored options constant = .ok y →
          Aliases.mergeValue options placeholder constant s =
            if x.same y then .ok () s else .error ↑(Cause.aliasConflict placeholder) s := by
  refine ⟨same_isCongruence, fun x y => ⟨same_iff x y, ?_, Aliases.same_iff_valueAlias, ?_⟩⟩
  · rw [same_iff, reordered_iff]
  · intro options placeholder s constant hbound hstored
    exact Aliases.mergeValue_of_bound hbound hstored

/-- A record whose first label is a set. -/
def labelled (members : List String) : AttributeValue :=
  .map [("labels", .list [.textSet members, .bool true]), ("size", .number "2")]

/-- Tables in which raw text has brought a placeholder for such a record. -/
def labelledAliases : Aliases := Aliases.empty.bindValue ":a" (labelled ["x", "y"])

theorem same_up_to_order_labelled :
    (labelled ["x", "y"]).same (labelled ["y", "x"]) = true ∧
      (numberSet ["1", "10", "2"]).same (numberSet ["2", "1", "10"]) = true ∧
      (replaceAt (numberSet ["1", "10", "2"]) [.field "labels", .index 1]
        (labelled ["x", "y"])).same
          (.map [("labels", .list [.textSet ["y", "x"], numberSet ["2", "1", "10"]]),
            ("size", .number "2")]) = true ∧
      labelledAliases.values.get? ":a" = some (labelled ["x", "y"]) ∧
      Aliases.stored default (.stored (labelled ["y", "x"])) = .ok (labelled ["y", "x"]) ∧
      Aliases.mergeValue default ":a" (.stored (labelled ["y", "x"])) labelledAliases =
        .ok () labelledAliases := by
  have hwhole : (labelled ["x", "y"]).same (labelled ["y", "x"]) = true := by decide
  have hpart : (numberSet ["1", "10", "2"]).same (numberSet ["2", "1", "10"]) = true := by decide
  have hbound : labelledAliases.values.get? ":a" = some (labelled ["x", "y"]) := rfl
  have hstored : Aliases.stored default (.stored (labelled ["y", "x"])) =
      .ok (labelled ["y", "x"]) := rfl
  refine ⟨hwhole, hpart, same_up_to_order.1.replace [.field "labels", .index 1] hwhole hpart,
    hbound, hstored, ?_⟩
  rw [(same_up_to_order.2 _ _).2.2.2 default ":a" labelledAliases _ hbound hstored, if_pos hwhole]

example : (textSet ["x", "x", "y"]).same (textSet ["x", "y", "y"]) = false ∧
    (list [.text "x", .text "y"]).same (list [.text "y", .text "x"]) = false := by
  decide

end AttributeValue

end ItemMapper
