import ItemMapper.Proofs.Number.Tangles
import ItemMapper.Proofs.Values.Recursion

/-!
# Sets in other orders

What a set is stored as does not depend on the order of its elements where they are sorted. Texts and byte
strings are, and numbers are unless some of their texts are in a circle. A set in an array stays a list,
as does a set of elements that no set is of, and a list keeps the order it is given. The condition for
elements to be stored the same in every order is exact.

## Main definitions

* `Settled`: the elements of which a set is stored the same in every order.

## Main statements

* `Settled.closeArray_eq`: the set of settled elements does not depend on their order.
* `closeArray_perm_iff`: a set is stored the same from all orders of its elements just where they are
  settled.
-/

namespace ItemMapper

open Writer (family closeArray)
open AttributeValue (setFrom dropVoid)

/-- The elements of which a set is stored the same in every order, directly in an array or elsewhere: they
are equal, one of them cannot be in a set, or they are sorted. -/
inductive Settled (inArray : Bool) (elements : List AttributeValue) : Prop
  /-- Where the elements stay in a list they are all equal. -/
  | equal (h : ∀ a ∈ dropVoid elements, ∀ b ∈ dropVoid elements, a = b)
  /-- Null is in no set. -/
  | refused (hplace : inArray = false) (h : ∃ e ∈ elements, e.isNull = true)
  /-- Some element may be in a set. Either all may and are sorted, which needs numbers not to be in a
  circle, or the set is refused. -/
  | sorted (hplace : inArray = false) (h : ∃ e ∈ dropVoid elements, family e ≠ .other)
      (huntangled : (∀ e ∈ dropVoid elements, family e = .number) →
        Untangled compareNumberText ((dropVoid elements).filterMap (·.asNumber?)))

section
variable {elements order : List AttributeValue}

/-- Outside of arrays, elements of which one may be in a set are settled if their number texts all denote
numbers. -/
theorem settled_of_isNumber (hkind : ∃ e ∈ dropVoid elements, family e ≠ .other)
    (hnumbers : ∀ digits, .number digits ∈ dropVoid elements → IsNumber digits) :
    Settled false elements := by
  refine .sorted rfl hkind fun _ => untangled_of_isNumber fun digits hdigits => ?_
  obtain ⟨e, he, hnumber⟩ := List.mem_filterMap.mp hdigits
  cases e with
  | number _ =>
    cases hnumber
    exact hnumbers digits he
  | _ => cases hnumber

theorem dropVoid_perm (h : elements.Perm order) : (dropVoid elements).Perm (dropVoid order) :=
  h.filter _

theorem setFrom_numbers {digits : List String} (h : digits ≠ []) :
    setFrom (digits.map .number) =
      .ok (.numberSet (sortBy compareNumberText (dedupEq digits))) := by
  have hnumber : ∀ e ∈ digits.map AttributeValue.number, family e = .number := by
    intro e he
    obtain ⟨_, -, rfl⟩ := List.mem_map.mp he
    rfl
  have htext : ¬ ∀ e ∈ digits.map AttributeValue.number, family e = .text := by
    obtain ⟨first, rest, rfl⟩ := List.exists_cons_of_ne_nil h
    intro htext
    cases htext _ List.mem_cons_self
  have hdigits : (digits.map AttributeValue.number).filterMap (·.asNumber?) = digits := by
    rw [List.filterMap_map]
    exact List.filterMap_some
  rw [setFrom, if_neg (mt List.map_eq_nil_iff.mp h), if_neg htext, if_pos hnumber, hdigits]

/-- Elements that no set is of stay a list. -/
theorem setFrom_others (h : ∀ e ∈ elements, family e = .other) :
    setFrom elements = .ok (.list elements) := by
  by_cases hnil : elements = []
  · rw [hnil]
    rfl
  have hnone : ∀ kind ≠ Writer.Family.other, ¬ ∀ e ∈ elements, family e = kind := by
    obtain ⟨first, rest, rfl⟩ := List.exists_cons_of_ne_nil hnil
    intro kind hkind hall
    exact hkind ((hall first List.mem_cons_self).symm.trans (h first List.mem_cons_self))
  rw [setFrom, if_neg hnil, if_neg (hnone .text (by decide)), if_neg (hnone .number (by decide)),
    if_neg (hnone .binary (by decide)), if_pos h]

/-- The set of some elements of which one may be in a set does not depend on their order, but for numbers
that are in a circle. -/
theorem setFrom_perm (hperm : elements.Perm order) (hkind : ∃ e ∈ elements, family e ≠ .other)
    (huntangled : (∀ e ∈ elements, family e = .number) →
      Untangled compareNumberText (elements.filterMap (·.asNumber?))) :
    setFrom order = setFrom elements := by
  obtain ⟨e, he, hother⟩ := hkind
  have hall : ∀ p : AttributeValue → Prop, (∀ e ∈ order, p e) ↔ ∀ e ∈ elements, p e := fun p =>
    forall_congr' fun e => imp_congr_left hperm.mem_iff.symm
  have hne : elements ≠ [] := List.ne_nil_of_mem he
  have hne' : order ≠ [] := List.ne_nil_of_mem (hperm.mem_iff.mp he)
  unfold setFrom
  rw [if_neg hne, if_neg hne', if_congr (hall _) rfl rfl, if_congr (hall _) rfl rfl,
    if_congr (hall _) rfl rfl]
  by_cases htext : ∀ e ∈ elements, family e = .text
  · rw [if_pos htext, if_pos htext]
    exact congrArg (Except.ok ∘ AttributeValue.textSet)
      (sortBy_eq_of_perm compareText (dedupEq_perm (hperm.symm.filterMap _)))
  rw [if_neg htext, if_neg htext]
  by_cases hnumber : ∀ e ∈ elements, family e = .number
  · rw [if_pos hnumber, if_pos hnumber]
    exact congrArg (Except.ok ∘ AttributeValue.numberSet)
      (sortBy_perm_iff.mpr (huntangled hnumber) _ (hperm.filterMap _))
  rw [if_neg hnumber, if_neg hnumber]
  by_cases hbinary : ∀ e ∈ elements, family e = .binary
  · rw [if_pos hbinary, if_pos hbinary]
    exact congrArg (Except.ok ∘ AttributeValue.binarySet)
      (sortBy_eq_of_perm compareBytes (dedupEq_perm (hperm.symm.filterMap _)))
  · have hmixed : ¬ ∀ e ∈ elements, family e = .other := fun h => hother (h e he)
    have hmixed' : ¬ ∀ e ∈ order, family e = .other := fun h => hmixed ((hall _).mp h)
    rw [if_neg hbinary, if_neg hbinary, if_neg hmixed, if_neg hmixed']

theorem closeArray_of_inArray : closeArray true true elements = .ok (.list (dropVoid elements)) := by
  rw [Writer.closeArray_eq]
  rfl

theorem closeArray_of_null (h : ∃ e ∈ elements, e.isNull = true) :
    closeArray true false elements =
      .error (Cause.invalidSetContents "cannot persist null in set") := by
  rw [Writer.closeArray_eq, Bool.not_false, Bool.and_true, if_pos rfl]
  exact if_pos (List.any_eq_true.mpr h)

theorem closeArray_of_not_null (h : ¬ ∃ e ∈ elements, e.isNull = true) :
    closeArray true false elements = setFrom (dropVoid elements) := by
  rw [Writer.closeArray_eq, Bool.not_false, Bool.and_true, if_pos rfl]
  exact if_neg fun hany => h (List.any_eq_true.mp hany)

theorem exists_isNull_perm (h : elements.Perm order) :
    (∃ e ∈ elements, e.isNull = true) ↔ ∃ e ∈ order, e.isNull = true :=
  exists_congr fun _ => and_congr_left' h.mem_iff

/-- A set depends on no more than the elements that it keeps and on whether one of them is null. -/
theorem closeArray_congr {inArray : Bool} (hkept : dropVoid order = dropVoid elements)
    (hperm : elements.Perm order) :
    closeArray true inArray order = closeArray true inArray elements := by
  cases inArray with
  | true => rw [closeArray_of_inArray, closeArray_of_inArray, hkept]
  | false =>
    have hnull := exists_isNull_perm hperm
    by_cases hany : ∃ e ∈ elements, e.isNull = true
    · rw [closeArray_of_null hany, closeArray_of_null (hnull.mp hany)]
    · rw [closeArray_of_not_null hany, closeArray_of_not_null (mt hnull.mpr hany), hkept]

/-- The set of settled elements does not depend on their order. -/
theorem Settled.closeArray_eq {inArray : Bool} (h : Settled inArray elements)
    (hperm : elements.Perm order) :
    closeArray true inArray order = closeArray true inArray elements := by
  have hkept := dropVoid_perm hperm
  have hnull := exists_isNull_perm hperm
  cases h with
  | equal h =>
    have hany : ∀ xs : List AttributeValue, xs.Pairwise fun _ _ => True := fun xs =>
      List.pairwise_of_forall fun _ _ => trivial
    refine closeArray_congr ?_ hperm
    exact hkept.symm.eq_of_pairwise
      (fun a b ha hb _ _ => h a (hkept.mem_iff.mpr ha) b hb) (hany _) (hany _)
  | refused hplace h =>
    rw [hplace, closeArray_of_null h, closeArray_of_null (hnull.mp h)]
  | sorted hplace h huntangled =>
    rw [hplace]
    by_cases hany : ∃ e ∈ elements, e.isNull = true
    · rw [closeArray_of_null hany, closeArray_of_null (hnull.mp hany)]
    · rw [closeArray_of_not_null hany, closeArray_of_not_null (mt hnull.mpr hany)]
      exact setFrom_perm hkept h huntangled

/-- Elements that are kept in the same list from all orders are equal. -/
theorem eq_of_dropVoid_eq (h : ∀ order, elements.Perm order → dropVoid order = dropVoid elements) :
    ∀ a ∈ dropVoid elements, ∀ b ∈ dropVoid elements, a = b := by
  -- Any of them is the first one that is kept, from the order that begins with it.
  have hfirst : ∀ a ∈ dropVoid elements, (dropVoid elements).head? = some a := by
    intro a ha
    obtain ⟨hmem, hkept⟩ := List.mem_filter.mp ha
    have horder : dropVoid (a :: elements.erase a) = a :: dropVoid (elements.erase a) :=
      List.filter_cons_of_pos hkept
    rw [← h _ (List.perm_cons_erase hmem), horder]
    rfl
  intro a ha b hb
  exact Option.some.inj ((hfirst a ha).symm.trans (hfirst b hb))

/-- Numbers of which the set is the same from all orders are untangled. -/
theorem untangled_of_closeArray_eq
    (h : ∀ order, elements.Perm order →
      closeArray true false order = closeArray true false elements)
    (hnull : ¬ ∃ e ∈ elements, e.isNull = true) (hne : dropVoid elements ≠ [])
    (hnumber : ∀ e ∈ dropVoid elements, family e = .number) :
    Untangled compareNumberText ((dropVoid elements).filterMap (·.asNumber?)) := by
  have hwrap : ∀ e ∈ dropVoid elements, ∃ digits, AttributeValue.number digits = e := by
    intro e he
    have hkind := hnumber e he
    cases e <;> first | exact ⟨_, rfl⟩ | cases hkind
  have hkept : ((dropVoid elements).filterMap (·.asNumber?)).map AttributeValue.number =
      dropVoid elements := Writer.map_filterMap_of_family (fun _ => rfl) hwrap
  have hdigits : (dropVoid elements).filterMap (·.asNumber?) ≠ [] := by
    intro hnil
    rw [hnil] at hkept
    exact hne hkept.symm
  refine sortBy_perm_iff.mp fun digits hperm => ?_
  -- The numbers in their new order, and then what is dropped.
  have horder : elements.Perm (digits.map .number ++ elements.filter (·.isVoid)) := by
    refine (List.filter_append_perm (fun e : AttributeValue => !e.isVoid) elements).symm.trans ?_
    simp only [Bool.not_not]
    refine List.Perm.append_right _ ?_
    have hnumbers := hperm.map AttributeValue.number
    rwa [hkept] at hnumbers
  have hdrop : dropVoid (digits.map .number ++ elements.filter (·.isVoid)) =
      digits.map .number := by
    unfold dropVoid
    rw [List.filter_append, List.filter_eq_self.mpr, List.filter_eq_nil_iff.mpr, List.append_nil]
    · intro e he
      simp [(List.mem_filter.mp he).2]
    · intro e he
      obtain ⟨_, -, rfl⟩ := List.mem_map.mp he
      rfl
  have hafter : closeArray true false (digits.map .number ++ elements.filter (·.isVoid)) =
      .ok (.numberSet (sortBy compareNumberText (dedupEq digits))) := by
    rw [closeArray_of_not_null (mt (exists_isNull_perm horder).mpr hnull), hdrop]
    exact setFrom_numbers fun hnil => hdigits (List.perm_nil.mp (hnil ▸ hperm))
  have hbefore := setFrom_numbers hdigits
  rw [hkept, ← closeArray_of_not_null hnull] at hbefore
  exact AttributeValue.numberSet.inj
    (Except.ok.inj (hafter.symm.trans ((h _ horder).trans hbefore)))

/-- A set is stored the same from all orders of its elements if and only if they are settled. -/
theorem closeArray_perm_iff {inArray : Bool} :
    (∀ order, elements.Perm order →
        closeArray true inArray order = closeArray true inArray elements) ↔
      Settled inArray elements := by
  refine ⟨fun h => ?_, fun h order hperm => h.closeArray_eq hperm⟩
  cases inArray with
  | true =>
    refine .equal (eq_of_dropVoid_eq fun order hperm => ?_)
    have hlists := h order hperm
    rw [closeArray_of_inArray, closeArray_of_inArray] at hlists
    exact AttributeValue.list.inj (Except.ok.inj hlists)
  | false =>
    by_cases hnull : ∃ e ∈ elements, e.isNull = true
    · exact .refused rfl hnull
    by_cases hkind : ∃ e ∈ dropVoid elements, family e ≠ .other
    · refine .sorted rfl hkind fun hnumber => ?_
      obtain ⟨e, he, -⟩ := hkind
      exact untangled_of_closeArray_eq h hnull (List.ne_nil_of_mem he) hnumber
    · have hother : ∀ e ∈ dropVoid elements, family e = .other := fun e he => by
        by_contra hne
        exact hkind ⟨e, he, hne⟩
      refine .equal (eq_of_dropVoid_eq fun order hperm => ?_)
      have hlists := h order hperm
      rw [closeArray_of_not_null hnull,
        closeArray_of_not_null (mt (exists_isNull_perm hperm).mpr hnull), setFrom_others hother,
        setFrom_others fun e he => hother e ((dropVoid_perm hperm).mem_iff.mpr he)] at hlists
      exact AttributeValue.list.inj (Except.ok.inj hlists)

end

end ItemMapper
