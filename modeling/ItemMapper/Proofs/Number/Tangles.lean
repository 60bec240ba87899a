import Mathlib.Data.List.Perm.Subperm
import ItemMapper.Proofs.Number.Order

/-!
# Where sorting forgets the order it is given

A list of elements that are told apart is sorted the same from whatever order they are given in, if no
three of them are in a circle. Where three are, sorting starts with some two of them in one order or the
other and never exchanges them again, so that the sorted list tells what order it was given.

## Main definitions

* `Untangled`: no three elements of a list are in a circle.

## Main statements

* `sortBy_ascends`: untangled elements ascend strictly when they are sorted.
* `sublist_sortBy`: elements that come first and ascend stay in their order.
* `sortBy_perm_iff`: a list is sorted the same from every order just where it is untangled.
-/

namespace ItemMapper

variable {α : Type} {cmp : α → α → Ordering} {xs : List α}

/-- No three elements of the list are in a circle. -/
def Untangled (cmp : α → α → Ordering) (xs : List α) : Prop :=
  ∀ x ∈ xs, ∀ y ∈ xs, ∀ z ∈ xs, ¬ Circle cmp x y z

theorem Untangled.of_subset {ys : List α} (h : Untangled cmp xs) (hsubset : ys ⊆ xs) :
    Untangled cmp ys :=
  fun x hx y hy z hz => h x (hsubset hx) y (hsubset hy) z (hsubset hz)

/-- Texts that all denote numbers are untangled. -/
theorem untangled_of_isNumber {texts : List String} (h : ∀ text ∈ texts, IsNumber text) :
    Untangled compareNumberText texts := by
  intro x hx y hy z hz hcircle
  rcases circle_compareNumberText.mp hcircle with hupsets | hupsets | hupsets
  · exact hupsets.not_number (h x hx)
  · exact hupsets.not_number (h y hy)
  · exact hupsets.not_number (h z hz)

/-! ### Untangled elements -/

section
variable [Std.OrientedCmp cmp] [Std.LawfulEqCmp cmp]

theorem compare_lt_of_not_lt {x y : α} (hne : x ≠ y) (h : cmp x y ≠ .lt) : cmp y x = .lt := by
  rw [@Std.OrientedCmp.eq_swap _ cmp]
  cases hcmp : cmp x y with
  | lt => exact absurd hcmp h
  | eq => exact absurd (Std.LawfulEqCmp.eq_of_compare hcmp) hne
  | gt => rfl

theorem insertDescending_descends {x : α} (hnew : x ∉ xs) (huntangled : Untangled cmp (x :: xs))
    (h : xs.Pairwise fun a b => cmp b a = .lt) :
    (insertDescending cmp x xs).Pairwise fun a b => cmp b a = .lt := by
  induction xs with
  | nil => exact List.pairwise_singleton _ _
  | cons y ys ih =>
    obtain ⟨hbelow, hrest⟩ := List.pairwise_cons.mp h
    rw [List.mem_cons, not_or] at hnew
    rw [insertDescending]
    split
    next hlt =>
      have hsubset : x :: ys ⊆ x :: y :: ys :=
        List.cons_subset_cons x (List.subset_cons_self y ys)
      refine List.pairwise_cons.mpr ⟨fun z hz => ?_, ih hnew.2 (huntangled.of_subset hsubset) hrest⟩
      rcases List.mem_cons.mp ((insertDescending_perm cmp x ys).mem_iff.mp hz) with rfl | hz
      · exact hlt
      · exact hbelow z hz
    next hge =>
      have hyx : cmp y x = .lt := compare_lt_of_not_lt hnew.1 hge
      refine List.pairwise_cons.mpr ⟨fun z hz => ?_, h⟩
      rcases List.mem_cons.mp hz with rfl | hz
      · exact hyx
      · -- Otherwise `z`, `y` and `x` would be in a circle.
        have hne : x ≠ z := fun heq => hnew.2 (heq ▸ hz)
        refine compare_lt_of_not_lt hne fun hxz => ?_
        exact huntangled z (by simp [hz]) y (by simp) x (by simp) ⟨hbelow z hz, hyx, hxz⟩

/-- Distinct elements of which no three are in a circle ascend strictly when they are sorted. -/
theorem sortBy_ascends (hnodup : xs.Nodup) (huntangled : Untangled cmp xs) :
    (sortBy cmp xs).Pairwise fun a b => cmp a b = .lt := by
  suffices hfold : ∀ sorted : List α, (xs ++ sorted).Nodup → Untangled cmp (xs ++ sorted) →
      (sorted.Pairwise fun a b => cmp b a = .lt) →
      (xs.foldl (fun sorted x => insertDescending cmp x sorted) sorted).Pairwise
        fun a b => cmp b a = .lt from
    List.pairwise_reverse.mpr
      (hfold [] (by rwa [List.append_nil]) (by rwa [List.append_nil]) .nil)
  clear hnodup huntangled
  induction xs with
  | nil => exact fun _ _ _ h => h
  | cons x xs ih =>
    intro sorted hnodup huntangled h
    have hperm : (xs ++ insertDescending cmp x sorted).Perm (x :: xs ++ sorted) :=
      ((insertDescending_perm cmp x sorted).append_left xs).trans List.perm_middle
    refine ih _ (hperm.nodup_iff.mpr hnodup) (huntangled.of_subset hperm.subset) ?_
    obtain ⟨hnew, -⟩ := List.nodup_cons.mp hnodup
    have hsubset : x :: sorted ⊆ x :: xs ++ sorted :=
      List.cons_subset_cons x (List.subset_append_right xs sorted)
    exact insertDescending_descends (fun hx => hnew (List.mem_append_right xs hx))
      (huntangled.of_subset hsubset) h

end

/-! ### Tangled elements -/

theorem sublist_insertDescending (x : α) (xs : List α) :
    xs.Sublist (insertDescending cmp x xs) := by
  induction xs with
  | nil => exact List.nil_sublist _
  | cons y ys ih =>
    rw [insertDescending]
    split
    · exact ih.cons_cons y
    · exact List.sublist_cons_self x _

theorem sublist_foldl_insertDescending (xs sorted : List α) :
    sorted.Sublist (xs.foldl (fun sorted x => insertDescending cmp x sorted) sorted) := by
  induction xs generalizing sorted with
  | nil => exact List.Sublist.refl _
  | cons x xs ih => exact (sublist_insertDescending x sorted).trans (ih _)

/-- Elements that come first and ascend stay in their order. -/
theorem sublist_sortBy [Std.OrientedCmp cmp] {x y z : α} (hxy : cmp x y = .lt) (hyz : cmp y z = .lt)
    (rest : List α) : [x, y, z].Sublist (sortBy cmp (x :: y :: z :: rest)) := by
  have hyx : cmp y x = .gt := Std.OrientedCmp.gt_of_lt hxy
  have hzy : cmp z y = .gt := Std.OrientedCmp.gt_of_lt hyz
  have hfirst : [x, y, z].foldl (fun sorted x => insertDescending cmp x sorted) [] = [z, y, x] := by
    simp [insertDescending, hyx, hzy]
  have hall : [z, y, x].Sublist
      ((x :: y :: z :: rest).foldl (fun sorted x => insertDescending cmp x sorted) []) := by
    change List.Sublist _ (List.foldl _ [] ([x, y, z] ++ rest))
    rw [List.foldl_append, hfirst]
    exact sublist_foldl_insertDescending rest _
  exact List.reverse_sublist.mpr hall

/-- Elements without repetitions that come first stay first when repetitions are dropped. -/
theorem exists_dedupEq_append [DecidableEq α] (h : xs.Nodup) (ys : List α) :
    ∃ more, dedupEq (xs ++ ys) = xs ++ more := by
  suffices hfold : ∀ kept : List α, ∃ more,
      ys.foldl (fun kept x => if x ∈ kept then kept else kept ++ [x]) kept = kept ++ more by
    obtain ⟨more, hmore⟩ := hfold (dedupEq xs)
    refine ⟨more, ?_⟩
    rw [dedupEq, List.foldl_append]
    change List.foldl _ (dedupEq xs) ys = _
    rw [hmore, dedupEq_eq_self h]
  induction ys with
  | nil => exact fun kept => ⟨[], (List.append_nil kept).symm⟩
  | cons y ys ih =>
    intro kept
    rw [List.foldl_cons]
    split
    · exact ih kept
    · obtain ⟨more, hmore⟩ := ih (kept ++ [y])
      exact ⟨y :: more, by rw [hmore, List.append_assoc, List.singleton_append]⟩

theorem ne_of_compare_lt [Std.OrientedCmp cmp] {x y : α} (h : cmp x y = .lt) : x ≠ y := by
  rintro rfl
  rw [@Std.ReflCmp.compare_self _ cmp] at h
  cases h

/-- From some order, the first and the last one of three ascending elements are sorted as they ascend. -/
theorem exists_perm_sortBy [Std.OrientedCmp cmp] [DecidableEq α] {x y z : α} (hx : x ∈ xs)
    (hy : y ∈ xs) (hz : z ∈ xs) (hxy : cmp x y = .lt) (hyz : cmp y z = .lt) (hzx : z ≠ x) :
    ∃ ys, xs.Perm ys ∧ [x, y, z].Sublist (sortBy cmp (dedupEq ys)) := by
  have hnodup : [x, y, z].Nodup := by simp [ne_of_compare_lt hxy, ne_of_compare_lt hyz, hzx.symm]
  have hsubset : [x, y, z] ⊆ xs := by simp [hx, hy, hz]
  obtain ⟨first, hfirst, hsublist⟩ := List.subperm_of_subset hnodup hsubset
  obtain ⟨rest, hrest⟩ := hsublist.exists_perm_append
  obtain ⟨more, hmore⟩ := exists_dedupEq_append hnodup rest
  refine ⟨[x, y, z] ++ rest, hrest.trans (hfirst.append_right rest), ?_⟩
  rw [hmore]
  exact sublist_sortBy hxy hyz more

theorem not_sublist_swap {x y : α} (hnodup : xs.Nodup) (h : [x, y].Sublist xs) :
    ¬ [y, x].Sublist xs := by
  intro hswap
  induction xs with
  | nil => cases h
  | cons a xs ih =>
    obtain ⟨ha, hrest⟩ := List.nodup_cons.mp hnodup
    cases h with
    | cons _ h =>
      cases hswap with
      | cons _ hswap => exact ih hrest h hswap
      | cons_cons _ hswap => exact ha (h.subset (by simp))
    | cons_cons _ h =>
      cases hswap with
      | cons _ hswap => exact ha (hswap.subset (by simp))
      | cons_cons _ hswap => exact ha (h.subset (by simp))

/-! ### All orders -/

theorem dedupEq_perm [DecidableEq α] {ys : List α} (h : xs.Perm ys) :
    (dedupEq xs).Perm (dedupEq ys) :=
  (List.perm_ext_iff_of_nodup (nodup_dedupEq xs) (nodup_dedupEq ys)).mpr fun x => by
    rw [mem_dedupEq, mem_dedupEq, h.mem_iff]

/-- What a list is sorted to, each element once, does not depend on its order if and only if no three of
its elements are in a circle. -/
theorem sortBy_perm_iff [Std.OrientedCmp cmp] [Std.LawfulEqCmp cmp] [DecidableEq α] :
    (∀ ys, xs.Perm ys → sortBy cmp (dedupEq ys) = sortBy cmp (dedupEq xs)) ↔ Untangled cmp xs := by
  constructor
  · rintro hsame x hx y hy z hz ⟨hxy, hyz, hzx⟩
    obtain ⟨ys, hys, hfirst⟩ := exists_perm_sortBy hx hy hz hxy hyz (ne_of_compare_lt hzx)
    obtain ⟨zs, hzs, hsecond⟩ := exists_perm_sortBy hy hz hx hyz hzx (ne_of_compare_lt hxy)
    rw [hsame ys hys] at hfirst
    rw [hsame zs hzs] at hsecond
    have hnodup : (sortBy cmp (dedupEq xs)).Nodup :=
      (sortBy_perm cmp _).nodup_iff.mpr (nodup_dedupEq xs)
    -- One order has `x` before `y`, the other one `y` before `x`.
    have hforth : [x, y].Sublist (sortBy cmp (dedupEq xs)) :=
      List.Sublist.trans (by simp) hfirst
    have hback : [y, x].Sublist (sortBy cmp (dedupEq xs)) :=
      List.Sublist.trans (by simp) hsecond
    exact not_sublist_swap hnodup hforth hback
  · intro huntangled ys hys
    have hsubset : dedupEq xs ⊆ xs := fun x hx => mem_dedupEq.mp hx
    exact sortBy_eq_of_perm_of_ascending
      ((dedupEq_perm hys.symm).trans (sortBy_perm cmp _).symm)
      (sortBy_ascends (nodup_dedupEq xs) (huntangled.of_subset hsubset))

end ItemMapper
