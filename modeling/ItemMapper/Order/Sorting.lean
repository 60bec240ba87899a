/-!
# Sorting by a comparison

Insertion sort on lists: stable, and by structural recursion, so that sorted forms compute in
proofs. The sorted list holds the same elements and ascends; where only equal elements compare
equal, it does not depend on the order in which they are given.

## Main definitions

* `sortBy`: the list in ascending order.
* `dedupEq`: the list without repeated elements, first occurrences kept.

## Main statements

* `sortBy_perm`, `sortBy_sorted`, `sortBy_eq_of_perm`: what a sorted list is.
* `mem_dedupEq`, `nodup_dedupEq`: what stays of a list with repetitions.
-/

namespace ItemMapper

/-- Inserts into a descending list, before the first element that does not come after it. -/
def insertDescending {α : Type} (cmp : α → α → Ordering) (x : α) : List α → List α
  | [] => [x]
  | y :: ys => if cmp x y = .lt then y :: insertDescending cmp x ys else x :: y :: ys

/-- The list in ascending order; elements that compare equal keep their order. -/
def sortBy {α : Type} (cmp : α → α → Ordering) (xs : List α) : List α :=
  (xs.foldl (fun sorted x => insertDescending cmp x sorted) []).reverse

/-- The list without the elements that are equal to an earlier one. -/
def dedupEq {α : Type} [DecidableEq α] (xs : List α) : List α :=
  xs.foldl (fun kept x => if x ∈ kept then kept else kept ++ [x]) []

theorem insertDescending_perm {α : Type} (cmp : α → α → Ordering) (x : α) (xs : List α) :
    (insertDescending cmp x xs).Perm (x :: xs) := by
  induction xs with
  | nil => exact .refl _
  | cons y ys ih =>
    simp only [insertDescending]
    split
    · exact (ih.cons y).trans (.swap x y ys)
    · exact .refl _

theorem foldl_insertDescending_perm {α : Type} (cmp : α → α → Ordering) (xs sorted : List α) :
    (xs.foldl (fun sorted x => insertDescending cmp x sorted) sorted).Perm (xs ++ sorted) := by
  induction xs generalizing sorted with
  | nil => exact .refl _
  | cons x xs ih =>
    exact (ih _).trans (((insertDescending_perm cmp x sorted).append_left xs).trans
      List.perm_middle)

/-- Sorting neither loses nor adds elements. -/
theorem sortBy_perm {α : Type} (cmp : α → α → Ordering) (xs : List α) :
    (sortBy cmp xs).Perm xs := by
  have h := foldl_insertDescending_perm cmp xs []
  rw [List.append_nil] at h
  exact (List.reverse_perm _).trans h

theorem insertDescending_sorted {α : Type} (cmp : α → α → Ordering) [Std.TransCmp cmp] (x : α)
    {xs : List α} (h : xs.Pairwise fun a b => (cmp b a).isLE) :
    (insertDescending cmp x xs).Pairwise fun a b => (cmp b a).isLE := by
  induction xs with
  | nil => exact List.pairwise_singleton _ _
  | cons y ys ih =>
    obtain ⟨above, sorted⟩ := List.pairwise_cons.mp h
    simp only [insertDescending]
    split
    next hlt =>
      refine List.pairwise_cons.mpr ⟨fun z hz => ?_, ih sorted⟩
      rcases List.mem_cons.mp ((insertDescending_perm cmp x ys).mem_iff.mp hz) with rfl | hz
      · simp [hlt]
      · exact above z hz
    next hge =>
      have hyx : (cmp y x).isLE := by
        rw [@Std.OrientedCmp.eq_swap _ cmp]
        cases hc : cmp x y <;> simp_all
      refine List.pairwise_cons.mpr ⟨fun z hz => ?_, h⟩
      rcases List.mem_cons.mp hz with rfl | hz
      · exact hyx
      · exact Std.TransCmp.isLE_trans (above z hz) hyx

/-- The sorted list ascends. -/
theorem sortBy_sorted {α : Type} (cmp : α → α → Ordering) [Std.TransCmp cmp] (xs : List α) :
    (sortBy cmp xs).Pairwise fun a b => (cmp a b).isLE := by
  suffices ∀ sorted : List α, (sorted.Pairwise fun a b => (cmp b a).isLE) →
      (xs.foldl (fun sorted x => insertDescending cmp x sorted) sorted).Pairwise
        fun a b => (cmp b a).isLE from
    List.pairwise_reverse.mpr (this [] .nil)
  induction xs with
  | nil => exact fun _ h => h
  | cons x xs ih => exact fun _ h => ih _ (insertDescending_sorted cmp x h)

/-- Where only equal elements compare equal, the order of the elements makes no difference. -/
theorem sortBy_eq_of_perm {α : Type} (cmp : α → α → Ordering) [Std.TransCmp cmp]
    [Std.LawfulEqCmp cmp] {xs ys : List α} (h : xs.Perm ys) : sortBy cmp xs = sortBy cmp ys :=
  List.Perm.eq_of_pairwise
    (fun _ _ _ _ h₁ h₂ =>
      @Std.LawfulEqCmp.eq_of_compare _ cmp _ _ _ (Std.OrientedCmp.isLE_antisymm h₁ h₂))
    (sortBy_sorted cmp xs) (sortBy_sorted cmp ys)
    ((sortBy_perm cmp xs).trans (h.trans (sortBy_perm cmp ys).symm))

/-- Dropping repetitions loses no element. -/
theorem mem_dedupEq {α : Type} [DecidableEq α] {x : α} {xs : List α} :
    x ∈ dedupEq xs ↔ x ∈ xs := by
  suffices ∀ kept : List α,
      x ∈ xs.foldl (fun kept x => if x ∈ kept then kept else kept ++ [x]) kept ↔
        x ∈ kept ∨ x ∈ xs by
    simpa [dedupEq] using this []
  induction xs with
  | nil => simp
  | cons y ys ih =>
    intro kept
    rw [List.foldl_cons, ih]
    split
    next hy =>
      refine ⟨fun h => h.imp_right (List.mem_cons_of_mem y), ?_⟩
      rintro (h | h)
      · exact .inl h
      · rcases List.mem_cons.mp h with rfl | h
        · exact .inl hy
        · exact .inr h
    next => simp [or_assoc]

/-- No element is kept twice. -/
theorem nodup_dedupEq {α : Type} [DecidableEq α] (xs : List α) : (dedupEq xs).Nodup := by
  suffices ∀ kept : List α, kept.Nodup →
      (xs.foldl (fun kept x => if x ∈ kept then kept else kept ++ [x]) kept).Nodup from
    this [] .nil
  induction xs with
  | nil => exact fun _ h => h
  | cons y ys ih =>
    intro kept h
    refine ih (if y ∈ kept then kept else kept ++ [y]) ?_
    split
    next => exact h
    next hy =>
      refine List.nodup_append.mpr ⟨h, List.pairwise_singleton _ _, fun a ha b hb => ?_⟩
      rw [List.mem_singleton.mp hb]
      rintro rfl
      exact hy ha

end ItemMapper
