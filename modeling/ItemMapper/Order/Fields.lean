import ItemMapper.Bytes.Basic

/-!
# Keyed lists

The fields of a map or of an item: a list of keys and values in ascending order of the keys, each
key once.

## Main definitions

* `Fields`: the type.
* `Fields.insert`, `Fields.get?`, `Fields.ofList`: the operations.

## Main statements

* `Fields.get?_insert`: a field that is put in is found, and the others are as before.
* `Fields.Ascending.insert`, `Fields.ascending_ofList`: the keys stay in ascending order.
-/

namespace ItemMapper

/-- Values under text keys, in ascending order of the keys. -/
abbrev Fields (α : Type) := List (String × α)

namespace Fields

/-- Puts a value under a key, in place of the value that stands there already. -/
def insert {α : Type} (fields : Fields α) (key : String) (value : α) : Fields α :=
  match fields with
  | [] => [(key, value)]
  | (k, v) :: rest =>
    match compareText key k with
    | .lt => (key, value) :: (k, v) :: rest
    | .eq => (key, value) :: rest
    | .gt => (k, v) :: insert rest key value

/-- The value under a key. -/
def get? {α : Type} (fields : Fields α) (key : String) : Option α := List.lookup key fields

/-- Whether there is a value under a key. -/
def contains {α : Type} (fields : Fields α) (key : String) : Bool := (fields.get? key).isSome

/-- The fields of a list of pairs; of two values under one key the later one stays. -/
def ofList {α : Type} (pairs : List (String × α)) : Fields α :=
  pairs.foldl (fun fields (key, value) => fields.insert key value) []

/-- Whether the keys ascend, so that each occurs once. -/
def Ascending {α : Type} (fields : Fields α) : Prop :=
  fields.Pairwise fun a b => compareText a.1 b.1 = .lt

theorem get?_cons {α : Type} (fields : Fields α) (key name : String) (value : α) :
    Fields.get? ((key, value) :: fields) name =
      if name = key then some value else fields.get? name := by
  by_cases h : name = key
  · simp [get?, h]
  · simp [get?, List.lookup_cons, h, beq_eq_false_iff_ne.mpr h]

theorem get?_insert {α : Type} (fields : Fields α) (key name : String) (value : α) :
    (fields.insert key value).get? name = if name = key then some value else fields.get? name := by
  induction fields with
  | nil => exact get?_cons [] key name value
  | cons entry rest ih =>
    obtain ⟨k, v⟩ := entry
    simp only [insert]
    split
    next => exact get?_cons _ key name value
    next heq =>
      obtain rfl : key = k := Std.LawfulEqCmp.eq_of_compare heq
      simp only [get?_cons]
      split <;> rfl
    next hgt =>
      have hne : key ≠ k := fun h => by simp [h, Std.ReflCmp.compare_self] at hgt
      simp only [get?_cons, ih]
      by_cases h : name = key
      · simp [h, hne]
      · simp [h]

theorem mem_insert_key {α : Type} {fields : Fields α} {key : String} {value : α}
    {entry : String × α} (h : entry ∈ fields.insert key value) :
    entry = (key, value) ∨ entry ∈ fields := by
  induction fields with
  | nil => exact .inl (List.mem_singleton.mp h)
  | cons present rest ih =>
    obtain ⟨k, v⟩ := present
    simp only [insert] at h
    split at h
    next => exact List.mem_cons.mp h
    next =>
      rcases List.mem_cons.mp h with h | h
      · exact .inl h
      · exact .inr (List.mem_cons_of_mem _ h)
    next =>
      rcases List.mem_cons.mp h with rfl | h
      · exact .inr List.mem_cons_self
      · exact (ih h).imp_right (List.mem_cons_of_mem _)

theorem Ascending.insert {α : Type} {fields : Fields α} (h : fields.Ascending) (key : String)
    (value : α) : (fields.insert key value).Ascending := by
  induction fields with
  | nil => exact List.pairwise_singleton _ _
  | cons present rest ih =>
    obtain ⟨k, v⟩ := present
    obtain ⟨below, rest_asc⟩ := List.pairwise_cons.mp h
    simp only [Fields.insert]
    split
    next hlt =>
      refine List.pairwise_cons.mpr ⟨fun entry hentry => ?_, h⟩
      rcases List.mem_cons.mp hentry with rfl | hentry
      · exact hlt
      · exact Std.TransCmp.lt_trans hlt (below entry hentry)
    next heq =>
      obtain rfl : key = k := Std.LawfulEqCmp.eq_of_compare heq
      exact List.pairwise_cons.mpr ⟨below, rest_asc⟩
    next hgt =>
      refine List.pairwise_cons.mpr ⟨fun entry hentry => ?_, ih rest_asc⟩
      rcases mem_insert_key hentry with rfl | hentry
      · exact Std.OrientedCmp.lt_of_gt hgt
      · exact below entry hentry

theorem ascending_ofList {α : Type} (pairs : List (String × α)) : (ofList pairs).Ascending := by
  suffices ∀ fields : Fields α, fields.Ascending →
      (pairs.foldl (fun fields entry => fields.insert entry.1 entry.2) fields).Ascending from
    this [] List.Pairwise.nil
  induction pairs with
  | nil => exact fun _ h => h
  | cons entry rest ih => exact fun _ h => ih _ (h.insert entry.1 entry.2)

end Fields

end ItemMapper
