import ItemMapper.Number.Order
import ItemMapper.Proofs.Values.Sets

/-!
# The order of number texts is total

Among texts that denote a number, the order of number texts is the order of what they denote, with the
order of texts between those that denote the same. Not-a-number compares with nothing, so that one text
that denotes none can spoil the order of all others.

Such a text is compared as a text with every other one, while two numbers are compared by what they
denote. The two orders disagree on numbers of which one comes first as a number and the other one as a
text. A text that denotes no number and stands between such numbers, as a text, is therefore in a circle
with them: each of the three comes before the next one. These are the only circles.

## Main definitions

* `Floating.key`: numbers as lists of integers, in the same order.
* `compareByKey`: the order of number texts by keys, which is total on all texts.
* `Circle`: three elements each of which comes before the next one.
* `Upsets`: a text that denotes no number and stands between two numbers that are texts in reverse.

## Main statements

* `sortBy_compareNumberText_ascending`: sorted number texts ascend.
* `circle_iff`: the circles are where a comparison fails to be transitive.
* `circle_compareNumberText`: the circles of number texts.
-/

namespace ItemMapper

/-! ### Keys -/

namespace Floating

/-- The numbers as lists of integers, in the same order. -/
def key : Floating → List Int
  | nan => []
  | infinite negative => [if negative then -1 else 1]
  | finite negative units => [0, signedUnits negative units]

theorem compare?_eq_key {x y : Floating} (hx : x ≠ nan) (hy : y ≠ nan) :
    x.compare? y = some (List.compareLex Ord.compare x.key y.key) := by
  cases x with
  | nan => exact absurd rfl hx
  | infinite s =>
    cases y with
    | nan => exact absurd rfl hy
    | infinite t => cases s <;> cases t <;> rfl
    | finite t b => cases s <;> rfl
  | finite s a =>
    cases y with
    | nan => exact absurd rfl hy
    | infinite t => cases t <;> rfl
    | finite t b =>
      have hunits : List.compareLex Ord.compare [0, signedUnits s a] [0, signedUnits t b] =
          Ord.compare (signedUnits s a) (signedUnits t b) := by
        rw [List.compareLex_cons_cons, List.compareLex_cons_cons, List.compareLex_nil_nil,
          Ordering.then_eq]
        rfl
      exact congrArg some hunits.symm

end Floating

/-- The order of the keys of what number texts denote. -/
def compareKeys (a b : String) : Ordering :=
  List.compareLex compare (numberValue a).key (numberValue b).key

instance : Std.TransCmp compareKeys where
  eq_swap {a b} :=
    @Std.OrientedCmp.eq_swap _ (List.compareLex compare) _ (numberValue a).key (numberValue b).key
  isLE_trans {a b c} :=
    @Std.TransCmp.isLE_trans _ (List.compareLex compare) _ (numberValue a).key (numberValue b).key
      (numberValue c).key

/-- The order of number texts by keys, and between texts with the same key as texts. -/
def compareByKey (a b : String) : Ordering := compareLex compareKeys compareText a b

instance : Std.TransCmp compareByKey := inferInstanceAs (Std.TransCmp (compareLex compareKeys compareText))

instance : Std.LawfulEqCmp compareByKey where
  eq_of_compare {a b} h := by
    have hthen : (compareKeys a b).then (compareText a b) = .eq := h
    exact Std.LawfulEqCmp.eq_of_compare (Ordering.then_eq_eq.mp hthen).2

/-- Whether a text denotes a number. -/
def IsNumber (text : String) : Prop := numberValue text ≠ .nan

theorem compareNumberText_eq_byKey {a b : String} (ha : IsNumber a) (hb : IsNumber b) :
    compareNumberText a b = compareByKey a b := by
  have hvalues : (numberValue a).compare? (numberValue b) = some (compareKeys a b) :=
    Floating.compare?_eq_key ha hb
  rw [compareNumberText, hvalues]
  change _ = (compareKeys a b).then (compareText a b)
  cases compareKeys a b <;> rfl

/-- Distinct texts that denote numbers ascend strictly when they are sorted. -/
theorem sortBy_compareNumberText_ascending {xs : List String} (hnumbers : ∀ x ∈ xs, IsNumber x)
    (hnodup : xs.Nodup) :
    (sortBy compareNumberText xs).Pairwise fun a b => compareNumberText a b = .lt := by
  have hsame : sortBy compareNumberText xs = sortBy compareByKey xs :=
    sortBy_congr fun x hx y hy => compareNumberText_eq_byKey (hnumbers x hx) (hnumbers y hy)
  have hnumber : ∀ {x}, x ∈ sortBy compareByKey xs → IsNumber x := fun hx =>
    hnumbers _ ((sortBy_perm compareByKey xs).mem_iff.mp hx)
  rw [hsame]
  refine (sortBy_ascending compareByKey hnodup).imp_of_mem fun {a b} ha hb hlt => ?_
  rw [compareNumberText_eq_byKey (hnumber ha) (hnumber hb), hlt]

/-! ### Circles -/

section
variable {α : Type} {cmp : α → α → Ordering} {x y z : α}

/-- Three elements each of which comes before the next one, and the last one before the first. -/
structure Circle (cmp : α → α → Ordering) (x y z : α) : Prop where
  first : cmp x y = .lt
  second : cmp y z = .lt
  third : cmp z x = .lt

theorem Circle.rotate (h : Circle cmp x y z) : Circle cmp y z x := ⟨h.second, h.third, h.first⟩

theorem not_circle [Std.TransCmp cmp] : ¬ Circle cmp x y z := fun h => by
  have hlt : cmp x z = .lt := Std.TransCmp.lt_trans h.first h.second
  rw [@Std.OrientedCmp.eq_swap _ cmp, h.third] at hlt
  cases hlt

/-- A comparison that tells all elements apart fails to be transitive on its circles only. -/
theorem circle_iff [Std.OrientedCmp cmp] [Std.LawfulEqCmp cmp] :
    Circle cmp x y z ↔ (cmp x y).isLE ∧ (cmp y z).isLE ∧ cmp x z = .gt := by
  have hturn : ∀ {a b}, cmp a b = .gt ↔ cmp b a = .lt := Std.OrientedCmp.gt_iff_lt
  constructor
  · rintro ⟨hxy, hyz, hzx⟩
    exact ⟨Ordering.isLE_of_eq_lt hxy, Ordering.isLE_of_eq_lt hyz, hturn.mpr hzx⟩
  · rintro ⟨hxy, hyz, hxz⟩
    refine ⟨?_, ?_, hturn.mp hxz⟩
    · refine (Ordering.isLE_iff_eq_lt_or_eq_eq.mp hxy).resolve_right fun heq => ?_
      cases Std.LawfulEqCmp.eq_of_compare heq
      rw [hxz] at hyz
      cases hyz
    · refine (Ordering.isLE_iff_eq_lt_or_eq_eq.mp hyz).resolve_right fun heq => ?_
      cases Std.LawfulEqCmp.eq_of_compare heq
      rw [hxz] at hxy
      cases hxy

end

/-! ### Number texts -/

theorem compareNumberText_cases (a b : String) :
    (numberValue a).compare? (numberValue b) = some (compareNumberText a b) ∨
      compareNumberText a b = compareText a b := by
  unfold compareNumberText
  split
  · rename_i h
    exact .inl h
  · rename_i h
    exact .inl h
  · exact .inr rfl

instance : Std.OrientedCmp compareNumberText where
  eq_swap {a b} := by
    unfold compareNumberText
    rw [Floating.compare?_swap (numberValue b), @Std.OrientedCmp.eq_swap _ compareText _ a b]
    cases (numberValue b).compare? (numberValue a) with
    | none => rfl
    | some o => cases o <;> rfl

instance : Std.LawfulEqCmp compareNumberText where
  eq_of_compare {a b} h := by
    unfold compareNumberText at h
    split at h
    · cases h
    · cases h
    · exact Std.LawfulEqCmp.eq_of_compare h

theorem compareNumberText_of_not_isNumber {a b : String} (h : ¬ IsNumber a ∨ ¬ IsNumber b) :
    compareNumberText a b = compareText a b := by
  have hnone : (numberValue a).compare? (numberValue b) = none := by
    rcases h with h | h
    · rw [Classical.not_not.mp h]
      rfl
    · rw [Classical.not_not.mp h]
      cases numberValue a <;> rfl
  unfold compareNumberText
  rw [hnone]

/-- A text that denotes no number and, as a text, stands between two numbers of which the second one comes
first as a text and last as a number. -/
structure Upsets (word a b : String) : Prop where
  not_number : ¬ IsNumber word
  ascends : (numberValue a).compare? (numberValue b) = some .lt
  below : compareText b word = .lt
  above : compareText word a = .lt

theorem Upsets.circle {word a b : String} (h : Upsets word a b) :
    Circle compareNumberText word a b where
  first := (compareNumberText_of_not_isNumber (.inl h.not_number)).trans h.above
  second := by rw [compareNumberText, h.ascends]
  third := (compareNumberText_of_not_isNumber (.inr h.not_number)).trans h.below

theorem Circle.upsets {x y z : String} (h : Circle compareNumberText x y z) (hx : ¬ IsNumber x) :
    Upsets x y z := by
  have habove : compareText x y = .lt :=
    (compareNumberText_of_not_isNumber (.inl hx)).symm.trans h.first
  have hbelow : compareText z x = .lt :=
    (compareNumberText_of_not_isNumber (.inr hx)).symm.trans h.third
  refine ⟨hx, ?_, hbelow, habove⟩
  have hsecond := h.second
  rcases compareNumberText_cases y z with hvalues | htexts
  · rw [hvalues, hsecond]
  · -- As texts the three would be in a circle.
    rw [htexts] at hsecond
    exact absurd ⟨habove, hsecond, hbelow⟩ (@not_circle _ compareText _ _ _ _)

/-- Three number texts are in a circle if one of them upsets the two others. -/
theorem circle_compareNumberText {x y z : String} :
    Circle compareNumberText x y z ↔ Upsets x y z ∨ Upsets y z x ∨ Upsets z x y := by
  constructor
  · intro h
    by_cases hx : IsNumber x
    · by_cases hy : IsNumber y
      · by_cases hz : IsNumber z
        · have hkeys : Circle compareByKey x y z :=
            ⟨(compareNumberText_eq_byKey hx hy).symm.trans h.first,
              (compareNumberText_eq_byKey hy hz).symm.trans h.second,
              (compareNumberText_eq_byKey hz hx).symm.trans h.third⟩
          exact absurd hkeys not_circle
        · exact .inr (.inr (h.rotate.rotate.upsets hz))
      · exact .inr (.inl (h.rotate.upsets hy))
    · exact .inl (h.upsets hx)
  · rintro (h | h | h)
    · exact h.circle
    · exact h.circle.rotate.rotate
    · exact h.circle.rotate

end ItemMapper
