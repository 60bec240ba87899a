import Mathlib.Data.List.Forall2
import Mathlib.Data.List.Nodup
import ItemMapper.Codec.Decoding
import ItemMapper.Proofs.Values.Equality

/-!
# Sets

A set is stored in the order of its stored elements and is read back in the order of its members.
Here are the two sorts: a list that ascends strictly is what sorting makes of each of its
permutations, and the set that a writer infers holds the elements it was given when no two of them are
the same.

## Main statements

* `sortBy_eq_of_perm_of_ascending`: sorting restores a strictly ascending list.
* `Datum.ofMembers_of_perm`: the set of the members of a strictly ascending list in any order.
* `Writer.inferSet_elements`: the elements of an inferred set.
-/

namespace ItemMapper

section
variable {α : Type} {cmp cmp' : α → α → Ordering}

theorem insertDescending_congr {x : α} {ys : List α} (h : ∀ y ∈ ys, cmp x y = cmp' x y) :
    insertDescending cmp x ys = insertDescending cmp' x ys := by
  induction ys with
  | nil => rfl
  | cons y ys ih =>
    rw [insertDescending, insertDescending, h y List.mem_cons_self,
      ih fun z hz => h z (List.mem_cons_of_mem _ hz)]

/-- Sorting depends only on how the elements compare with each other. -/
theorem sortBy_congr {xs : List α} (h : ∀ x ∈ xs, ∀ y ∈ xs, cmp x y = cmp' x y) :
    sortBy cmp xs = sortBy cmp' xs := by
  suffices hfold : ∀ todo sorted : List α, todo ⊆ xs → sorted ⊆ xs →
      todo.foldl (fun sorted x => insertDescending cmp x sorted) sorted =
        todo.foldl (fun sorted x => insertDescending cmp' x sorted) sorted from
    congrArg List.reverse (hfold xs [] (List.Subset.refl xs) (List.nil_subset xs))
  intro todo
  induction todo with
  | nil =>
    intro sorted htodo hsorted
    rfl
  | cons x todo ih =>
    intro sorted htodo hsorted
    obtain ⟨hx, hrest⟩ := List.cons_subset.mp htodo
    rw [List.foldl_cons, List.foldl_cons, insertDescending_congr fun y hy => h x hx y (hsorted hy)]
    refine ih _ hrest fun y hy => ?_
    rcases List.mem_cons.mp ((insertDescending_perm cmp' x sorted).mem_iff.mp hy) with rfl | hy
    · exact hx
    · exact hsorted hy

/-- Distinct elements ascend strictly when they are sorted. -/
theorem sortBy_ascending (cmp : α → α → Ordering) [Std.TransCmp cmp] [Std.LawfulEqCmp cmp]
    {xs : List α} (h : xs.Nodup) : (sortBy cmp xs).Pairwise fun a b => cmp a b = .lt := by
  have hnodup : (sortBy cmp xs).Nodup := (sortBy_perm cmp xs).nodup_iff.mpr h
  refine (sortBy_sorted cmp xs).imp₂ (fun a b hle hne => ?_) hnodup
  rcases Ordering.isLE_iff_eq_lt_or_eq_eq.mp hle with hlt | heq
  · exact hlt
  · exact absurd (Std.LawfulEqCmp.eq_of_compare heq) hne

/-- Sorting restores a strictly ascending list, in whatever order its elements are given. No
transitivity is asked of the comparison: the list itself says how its elements compare. -/
theorem sortBy_eq_of_perm_of_ascending [Std.OrientedCmp cmp] {xs ys : List α} (hperm : xs.Perm ys)
    (hascends : ys.Pairwise fun a b => cmp a b = .lt) : sortBy cmp xs = ys := by
  classical
  have hnodup : ys.Nodup := by
    refine hascends.imp fun {a b} hlt => ?_
    rintro rfl
    rw [@Std.ReflCmp.compare_self _ cmp] at hlt
    cases hlt
  -- Elements compare as their places in the list do.
  have hplaces : ∀ x ∈ xs, ∀ y ∈ xs, cmp x y = compareOn (ys.idxOf ·) x y := by
    intro x hx y hy
    obtain ⟨i, hi, rfl⟩ := List.getElem_of_mem (hperm.mem_iff.mp hx)
    obtain ⟨j, hj, rfl⟩ := List.getElem_of_mem (hperm.mem_iff.mp hy)
    rw [compareOn, hnodup.idxOf_getElem, hnodup.idxOf_getElem]
    rcases Nat.lt_trichotomy i j with hij | rfl | hij
    · rw [List.pairwise_iff_getElem.mp hascends i j hi hj hij, Nat.compare_eq_lt.mpr hij]
    · rw [@Std.ReflCmp.compare_self _ cmp, Nat.compare_eq_eq.mpr rfl]
    · rw [@Std.OrientedCmp.eq_swap _ cmp,
        List.pairwise_iff_getElem.mp hascends j i hj hi hij, Nat.compare_eq_gt.mpr hij]
      rfl
  rw [sortBy_congr hplaces]
  have hsorted : (sortBy (compareOn (ys.idxOf ·)) xs).Pairwise
      fun a b => ys.idxOf a ≤ ys.idxOf b :=
    (sortBy_sorted (compareOn (ys.idxOf ·)) xs).imp Nat.isLE_compare.mp
  have hascending : ys.Pairwise fun a b => ys.idxOf a ≤ ys.idxOf b := by
    refine List.pairwise_iff_getElem.mpr fun i j hi hj hij => ?_
    rw [hnodup.idxOf_getElem, hnodup.idxOf_getElem]
    exact Nat.le_of_lt hij
  refine List.Perm.eq_of_pairwise (fun a b ha hb hab hba => ?_) hsorted hascending
    ((sortBy_perm _ xs).trans hperm)
  exact (List.idxOf_inj (((sortBy_perm _ xs).trans hperm).mem_iff.mp ha)).mp
    (Nat.le_antisymm hab hba)

/-- A list without repetitions loses nothing when repetitions are dropped. -/
theorem dedupEq_eq_self [DecidableEq α] {xs : List α} (h : xs.Nodup) : dedupEq xs = xs := by
  suffices hfold : ∀ kept : List α, (kept ++ xs).Nodup →
      xs.foldl (fun kept x => if x ∈ kept then kept else kept ++ [x]) kept = kept ++ xs from
    hfold [] h
  clear h
  induction xs with
  | nil =>
    intro kept h
    exact (List.append_nil kept).symm
  | cons x xs ih =>
    intro kept h
    have hnew : x ∉ kept := fun hx => List.disjoint_of_nodup_append h hx List.mem_cons_self
    rw [List.foldl_cons, if_neg hnew, ih (kept ++ [x]) (by simpa using h), List.append_assoc,
      List.singleton_append]

end

namespace Datum

instance : Std.OrientedCmp compare := ⟨fun {x y} => compare_swap y x⟩

theorem dropRepeated_eq_self {xs : List Datum} (h : xs.Pairwise fun x y => compare x y ≠ .eq) :
    dropRepeated xs = xs := by
  induction xs with
  | nil => rfl
  | cons x xs ih =>
    obtain ⟨hx, hxs⟩ := List.pairwise_cons.mp h
    cases xs with
    | nil => rfl
    | cons y ys => rw [dropRepeated, if_neg (hx y List.mem_cons_self), ih hxs]

/-- The set of the members of a strictly ascending list, in whatever order they are given. -/
theorem ofMembers_of_perm {xs ys : List Datum} (hashed : Bool) (hperm : xs.Perm ys)
    (hascends : ys.Pairwise fun x y => compare x y = .lt) : ofMembers hashed xs = list ys := by
  have hdistinct : ys.Pairwise fun x y => compare x y ≠ .eq :=
    hascends.imp fun hlt heq => by
      rw [hlt] at heq
      cases heq
  have hreversed : ys.reverse.Pairwise fun x y => compare x y ≠ .eq := by
    refine List.pairwise_reverse.mpr (hascends.imp fun {x y} hlt heq => ?_)
    rw [compare_swap x y, hlt] at heq
    cases heq
  rw [ofMembers, sortBy_eq_of_perm_of_ascending hperm hascends]
  cases hashed with
  | false => exact congrArg list (dropRepeated_eq_self hdistinct)
  | true =>
    simp only [if_true]
    rw [dropRepeated_eq_self hreversed, List.reverse_reverse]

end Datum

namespace Writer

section
variable {α : Type} {wrap : α → AttributeValue} {unwrap? : AttributeValue → Option α}
  {elements : List AttributeValue}

/-- Elements of one kind are what they hold, wrapped again. -/
theorem map_filterMap_of_family (hunwrap : ∀ a, unwrap? (wrap a) = some a)
    (hwrap : ∀ e ∈ elements, ∃ a, wrap a = e) :
    (elements.filterMap unwrap?).map wrap = elements := by
  rw [List.map_filterMap]
  refine Eq.trans (List.filterMap_congr fun e he => ?_) List.filterMap_some
  obtain ⟨a, rfl⟩ := hwrap e he
  rw [hunwrap]
  rfl

/-- Elements of one kind are those of the set that holds what they wrap; none of them twice, they are
so in some order. -/
theorem elements_of_family [DecidableEq α] (cmp : α → α → Ordering)
    (hunwrap : ∀ a, unwrap? (wrap a) = some a)
    (hwrap : ∀ e ∈ elements, ∃ a, wrap a = e) :
    (∀ e, e ∈ (sortBy cmp (dedupEq (elements.filterMap unwrap?))).map wrap ↔ e ∈ elements) ∧
      (elements.Nodup →
        ((sortBy cmp (dedupEq (elements.filterMap unwrap?))).map wrap).Perm elements) := by
  have hmap := map_filterMap_of_family hunwrap hwrap
  constructor
  · intro e
    have hmem : ∀ a, a ∈ sortBy cmp (dedupEq (elements.filterMap unwrap?)) ↔
        a ∈ elements.filterMap unwrap? := fun a =>
      (sortBy_perm cmp _).mem_iff.trans mem_dedupEq
    calc e ∈ (sortBy cmp (dedupEq (elements.filterMap unwrap?))).map wrap
      _ ↔ e ∈ (elements.filterMap unwrap?).map wrap := by simp only [List.mem_map, hmem]
      _ ↔ e ∈ elements := by rw [hmap]
  · intro hnodup
    have hwrapped : (elements.filterMap unwrap?).Nodup := .of_map wrap (by rwa [hmap])
    rw [dedupEq_eq_self hwrapped]
    have hperm := (sortBy_perm cmp (elements.filterMap unwrap?)).map wrap
    rwa [hmap] at hperm

end

/-- A list or set that is inferred from elements holds just these and, if none of them is there twice,
each of them once. -/
theorem inferSet_elements {elements : List AttributeValue} {value : AttributeValue}
    (h : inferSet elements = .ok value) :
    ∃ items, value.elements? = some items ∧ (∀ e, e ∈ items ↔ e ∈ elements) ∧
      (elements.Nodup → items.Perm elements) := by
  cases elements with
  | nil =>
    cases h
    exact ⟨[], rfl, fun _ => Iff.rfl, fun _ => .refl _⟩
  | cons first rest =>
    rw [inferSet] at h
    split at h
    · cases h
    · rename_i hsame
      have hfamily : ∀ e ∈ first :: rest, family e = family first := by
        intro e he
        by_contra hne
        exact hsame (List.any_eq_true.mpr ⟨e, he, decide_eq_true hne⟩)
      cases h
      cases first with
      | text s =>
        refine ⟨_, rfl, elements_of_family compareText (fun _ => rfl) fun e he => ?_⟩
        have hkind := hfamily e he
        cases e <;> first | exact ⟨_, rfl⟩ | cases hkind
      | number n =>
        refine ⟨_, rfl, elements_of_family compareNumberText (fun _ => rfl) fun e he => ?_⟩
        have hkind := hfamily e he
        cases e <;> first | exact ⟨_, rfl⟩ | cases hkind
      | binary b =>
        refine ⟨_, rfl, elements_of_family compareBytes (fun _ => rfl) fun e he => ?_⟩
        have hkind := hfamily e he
        cases e <;> first | exact ⟨_, rfl⟩ | cases hkind
      | _ => exact ⟨_, rfl, fun _ => Iff.rfl, fun _ => .refl _⟩

end Writer

end ItemMapper
