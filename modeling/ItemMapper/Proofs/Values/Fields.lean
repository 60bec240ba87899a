import Mathlib.Data.List.Nodup
import ItemMapper.Order.Fields

/-!
# Keyed lists as functions

A keyed list is determined by what is found in it under each key. What is found after pairs with
distinct keys have been put in is what the list of pairs says, and what is found after some fields
have been left out is what was found before, unless it has been left out.

## Main definitions

* `Fields.insertAll`: the fields with pairs put in.

## Main statements

* `Fields.ext_get?`: two keyed lists in which the same is found are the same.
* `Fields.get?_ofList`: what is found in the fields of pairs with distinct keys.
* `Fields.get?_filter`: what is found among the fields that satisfy a test.
* `Fields.ofList_eq_self`: pairs whose keys ascend are their own fields.
-/

namespace ItemMapper

theorem mem_of_lookup {α β : Type} [BEq α] [LawfulBEq α] {entries : List (α × β)} {key : α}
    {value : β} (h : entries.lookup key = some value) : (key, value) ∈ entries := by
  obtain ⟨before, after, rfl, -⟩ := List.lookup_eq_some_iff.mp h
  simp

theorem lookup_of_mem {α β : Type} [BEq α] [LawfulBEq α] {entries : List (α × β)}
    (hnodup : (entries.map (·.1)).Nodup) {key : α} {value : β} (h : (key, value) ∈ entries) :
    entries.lookup key = some value := by
  induction entries with
  | nil => cases h
  | cons entry rest ih =>
    obtain ⟨k, v⟩ := entry
    rw [List.map_cons, List.nodup_cons] at hnodup
    rw [List.lookup_cons]
    rcases List.mem_cons.mp h with heq | h
    · cases heq
      rw [beq_self_eq_true]
    · have hne : key ≠ k := fun heq => hnodup.1 (heq ▸ List.mem_map_of_mem (f := (·.1)) h)
      rw [beq_false_of_ne hne]
      exact ih hnodup.2 h

namespace Fields

variable {α : Type} {fields : Fields α}

/-- The fields with pairs put in, one after the other. -/
def insertAll (fields : Fields α) (pairs : List (String × α)) : Fields α :=
  pairs.foldl (fun fields (key, value) => fields.insert key value) fields

theorem insertAll_ofList (xs ys : List (String × α)) :
    (ofList xs).insertAll ys = ofList (xs ++ ys) :=
  (List.foldl_append ..).symm

/-! ### What is found -/

theorem get?_insertAll {pairs : List (String × α)} (hnodup : (pairs.map (·.1)).Nodup)
    (key : String) : (fields.insertAll pairs).get? key = (pairs.lookup key).or (fields.get? key) := by
  induction pairs generalizing fields with
  | nil => rfl
  | cons pair rest ih =>
    obtain ⟨k, v⟩ := pair
    rw [List.map_cons, List.nodup_cons] at hnodup
    change ((fields.insert k v).insertAll rest).get? key = _
    rw [ih hnodup.2, get?_insert, List.lookup_cons]
    by_cases hkey : key = k
    · subst hkey
      have hnone : rest.lookup key = none := by
        rw [List.lookup_eq_none_iff]
        intro pair hpair
        exact bne_iff_ne.mpr fun heq => hnodup.1 (heq ▸ List.mem_map_of_mem (f := (·.1)) hpair)
      rw [hnone, if_pos rfl, beq_self_eq_true]
      rfl
    · rw [if_neg hkey, beq_false_of_ne hkey]

/-- What is found in the fields of pairs with distinct keys. -/
theorem get?_ofList {pairs : List (String × α)} (hnodup : (pairs.map (·.1)).Nodup) (key : String) :
    (ofList pairs).get? key = pairs.lookup key := by
  have hget : (insertAll [] pairs).get? key = (pairs.lookup key).or none := get?_insertAll hnodup key
  exact hget.trans Option.or_none

theorem mem_insertAll {pairs : List (String × α)} {entry : String × α}
    (h : entry ∈ fields.insertAll pairs) : entry ∈ fields ∨ entry ∈ pairs := by
  induction pairs generalizing fields with
  | nil => exact .inl h
  | cons pair rest ih =>
    obtain ⟨key, value⟩ := pair
    have hrest : entry ∈ insertAll (insert fields key value) rest := h
    rcases ih hrest with hput | hlater
    · rcases mem_insert_key hput with rfl | hbefore
      · exact .inr List.mem_cons_self
      · exact .inl hbefore
    · exact .inr (List.mem_cons_of_mem _ hlater)

/-- The fields of a list of pairs are among the pairs. -/
theorem mem_of_mem_ofList {pairs : List (String × α)} {entry : String × α}
    (h : entry ∈ ofList pairs) : entry ∈ pairs := by
  have hput : entry ∈ insertAll [] pairs := h
  exact (mem_insertAll hput).resolve_left List.not_mem_nil

/-! ### Ascending keys -/

theorem Ascending.nodup (h : fields.Ascending) : (fields.map (·.1)).Nodup := by
  refine List.pairwise_map.mpr (h.imp fun {a b} hlt heq => ?_)
  rw [heq, @Std.ReflCmp.compare_self _ compareText _ b.1] at hlt
  cases hlt

/-- Whether fields ascend depends on their keys only. -/
theorem Ascending.of_keys {β : Type} {entries : Fields β} (h : entries.Ascending)
    (hkeys : fields.map (·.1) = entries.map (·.1)) : fields.Ascending := by
  have hall : (entries.map (·.1)).Pairwise fun a b => compareText a b = .lt :=
    List.pairwise_map.mpr h
  rw [← hkeys] at hall
  exact List.pairwise_map.mp hall

theorem Ascending.filter (h : fields.Ascending) (p : String × α → Bool) :
    Ascending (fields.filter p) :=
  List.Pairwise.filter p h

theorem Ascending.get?_eq_some_iff (h : fields.Ascending) {key : String} {value : α} :
    fields.get? key = some value ↔ (key, value) ∈ fields :=
  ⟨mem_of_lookup, lookup_of_mem h.nodup⟩

/-- What is found among the fields that satisfy a test. -/
theorem get?_filter (h : fields.Ascending) (p : String × α → Bool) (key : String) :
    Fields.get? (fields.filter p) key = (fields.get? key).filter fun value => p (key, value) := by
  refine Option.ext fun value => ?_
  rw [(h.filter p).get?_eq_some_iff, List.mem_filter, Option.filter_eq_some_iff,
    h.get?_eq_some_iff]

/-- Two keyed lists in which the same is found are the same. -/
theorem ext_get? {other : Fields α} (h : fields.Ascending) (hother : other.Ascending)
    (heq : ∀ key, fields.get? key = other.get? key) : fields = other := by
  have hmem : ∀ entry, entry ∈ fields ↔ entry ∈ other := fun (key, value) => by
    rw [← h.get?_eq_some_iff, ← hother.get?_eq_some_iff, heq]
  have hperm := (List.perm_ext_iff_of_nodup h.nodup.of_map hother.nodup.of_map).mpr hmem
  refine hperm.eq_of_pairwise (fun a b ha hb hlt hgt => ?_) h hother
  exact absurd hgt (Std.OrientedCmp.not_lt_of_lt hlt)

/-- Pairs whose keys ascend are their own fields. -/
theorem ofList_eq_self (h : fields.Ascending) : ofList fields = fields :=
  ext_get? (ascending_ofList fields) h fun key => get?_ofList h.nodup key

end Fields

end ItemMapper
