import Mathlib.Data.List.Pairwise
import ItemMapper.Proofs.Codec.Vanishing
import ItemMapper.Proofs.Key.Order
import ItemMapper.Proofs.Number.Integers

/-!
# Integers in keys and in sets

The integers of any type are ordered as numbers in keys and in sets where no two of them are misordered.
Two misordered ones are in the wrong order in both.

## Main definitions

* `IntType.Holds`: the integers of a type.

## Main statements

* `sortBy_toString_iff`: when sorted texts are the texts of sorted integers.
* `KeyValue.order_of_integers`: the order of integers in keys and in sets.
-/

namespace ItemMapper

/-- The integers of a type. -/
def IntType.Holds (t : IntType) (i : Int) : Prop := t.low ≤ i ∧ i ≤ t.high

instance (t : IntType) (i : Int) : Decidable (t.Holds i) := inferInstanceAs (Decidable (_ ∧ _))

theorem IntType.Holds.natAbs_le {t : IntType} {i : Int} (h : t.Holds i) : i.natAbs ≤ 2 ^ 128 := by
  obtain ⟨hlow, hhigh⟩ := h
  cases t <;> simp only [IntType.low, IntType.high, IntType.isSigned, IntType.bits] at hlow hhigh <;>
    simp only [if_true, Bool.false_eq_true, if_false] at hlow hhigh <;> omega

theorem toString_int_injective : Function.Injective fun i : Int => toString i := by
  intro i j h
  have hread : readInt? (toString i) = readInt? (toString j) := congrArg readInt? h
  rw [readInt?_toString, readInt?_toString] at hread
  exact Option.some.inj hread

theorem isNumber_toString {i : Int} (h : i.natAbs ≤ 2 ^ 128) : IsNumber (toString i) := by
  rw [IsNumber, numberValue_toString, Floating.ofInt_eq h]
  intro h
  cases h

/-- Two integers are ordered as their texts are, if they are not misordered. -/
theorem compareNumberText_eq_compare_iff {a b : Int} (ha : a.natAbs ≤ 2 ^ 128)
    (hb : b.natAbs ≤ 2 ^ 128) :
    compareNumberText (toString a) (toString b) = compare a b ↔ ¬ Misordered a b := by
  rw [compareNumberText_toString ha hb]
  constructor
  · intro h hwrong
    rw [if_pos hwrong] at h
    refine hwrong.1 (Int.compare_eq_eq.mp ?_)
    revert h
    cases compare a b <;> decide
  · intro hright
    rw [if_neg hright]

/-- The texts of integers are sorted as the integers are, if no two of these are misordered. -/
theorem sortBy_toString_iff {xs : List Int} (hxs : ∀ i ∈ xs, i.natAbs ≤ 2 ^ 128) :
    sortBy compareNumberText (dedupEq (xs.map fun i => toString i)) =
        (sortBy compare (dedupEq xs)).map (fun i => toString i) ↔
      ∀ a ∈ xs, ∀ b ∈ xs, ¬ Misordered a b := by
  have hmem : ∀ {i : Int}, i ∈ sortBy compare (dedupEq xs) ↔ i ∈ xs := fun {i} =>
    (sortBy_perm compare _).mem_iff.trans mem_dedupEq
  have hnodup : (sortBy compare (dedupEq xs)).Nodup :=
    (sortBy_perm compare _).nodup_iff.mpr (nodup_dedupEq xs)
  have hsorted : (sortBy compare (dedupEq xs)).Pairwise fun a b : Int => compare a b = .lt :=
    sortBy_ascending compare (nodup_dedupEq xs)
  constructor
  · intro hsame a ha b hb
    have htexts : (sortBy compareNumberText (dedupEq (xs.map fun i => toString i))).Pairwise
        fun a b => compareNumberText a b = .lt := by
      refine sortBy_compareNumberText_ascending (fun text htext => ?_) (nodup_dedupEq _)
      obtain ⟨i, hi, rfl⟩ := List.mem_map.mp (mem_dedupEq.mp htext)
      exact isNumber_toString (hxs i hi)
    rw [hsame, List.pairwise_map] at htexts
    have halike : (sortBy compare (dedupEq xs)).Pairwise fun a b : Int =>
        compareNumberText (toString a) (toString b) = compare a b :=
      (hsorted.and htexts).imp fun h => h.2.trans h.1.symm
    have : Std.Symm fun a b : Int => compareNumberText (toString a) (toString b) = compare a b :=
      ⟨fun a b h => by
        rw [@Std.OrientedCmp.eq_swap _ compareNumberText, h, ← Std.OrientedCmp.eq_swap]⟩
    have hself : ∀ i ∈ sortBy compare (dedupEq xs),
        compareNumberText (toString i) (toString i) = compare i i := fun i _ => by
      rw [@Std.ReflCmp.compare_self _ compareNumberText, Int.compare_eq_eq.mpr rfl]
    exact (compareNumberText_eq_compare_iff (hxs a ha) (hxs b hb)).mp
      (List.Pairwise.forall_of_forall hself halike (hmem.mpr ha) (hmem.mpr hb))
  · intro hordered
    refine sortBy_eq_of_perm_of_ascending ?_ ?_
    · refine (List.perm_ext_iff_of_nodup (nodup_dedupEq _)
        (hnodup.map toString_int_injective)).mpr fun text => ?_
      simp only [mem_dedupEq, List.mem_map, hmem]
    · refine List.pairwise_map.mpr (hsorted.imp_of_mem fun {a b} ha hb hlt => ?_)
      have ha := hmem.mp ha
      have hb := hmem.mp hb
      rw [(compareNumberText_eq_compare_iff (hxs a ha) (hxs b hb)).mpr (hordered a ha b hb), hlt]

/-- A set of integers is stored as their texts in the order of number texts. -/
theorem Writer.closeArray_integers {xs : List Int} (hne : xs ≠ []) :
    closeArray true false (xs.map fun i => .number (toString i)) =
      .ok (.numberSet (sortBy compareNumberText (dedupEq (xs.map fun i => toString i)))) := by
  have hheld : (xs.map fun i => AttributeValue.number (toString i)).filterMap (·.asNumber?) =
      xs.map fun i => toString i := by
    rw [List.filterMap_map]
    exact congrFun (List.filterMap_eq_map (f := fun i : Int => toString i)) xs
  have hkept : ∀ e ∈ xs.map fun i => AttributeValue.number (toString i), e.isVoid = false := by
    intro e he
    obtain ⟨i, -, rfl⟩ := List.mem_map.mp he
    rfl
  have hnumbers : ∀ e ∈ xs.map fun i => AttributeValue.number (toString i), family e = .number := by
    intro e he
    obtain ⟨i, -, rfl⟩ := List.mem_map.mp he
    rfl
  rw [closeArray_of_stays hkept, Bool.not_false, Bool.and_true, if_pos rfl, ← hheld]
  obtain ⟨first, rest, rfl⟩ := List.exists_cons_of_ne_nil hne
  rw [List.map_cons] at hnumbers ⊢
  refine if_neg fun hmixed => ?_
  obtain ⟨e, he, hother⟩ := List.any_eq_true.mp hmixed
  exact of_decide_eq_true hother (hnumbers e he)

namespace KeyValue

/-- Integers of any types are ordered as numbers in keys and in sets, except that the misordered ones, which
lie beyond `2 ^ 53`, are ordered the other way round, so that a set is stored in ascending order just where
no two of its members are misordered. -/
theorem order_of_integers {s t : IntType} {a b : Int} (ha : s.Holds a) (hb : t.Holds b)
    {xs : List Int} (hne : xs ≠ []) (hxs : ∀ i ∈ xs, ∃ type : IntType, type.Holds i) :
    compare (number (toString a)) (number (toString b)) =
        (if Misordered a b then (Ord.compare a b).swap else Ord.compare a b) ∧
      compareNumberText (toString a) (toString b) =
        (if Misordered a b then (Ord.compare a b).swap else Ord.compare a b) ∧
      (Writer.closeArray true false (xs.map fun i => .number (toString i)) =
          .ok (.numberSet ((sortBy Ord.compare (dedupEq xs)).map fun i => toString i)) ↔
        ∀ i ∈ xs, ∀ j ∈ xs, ¬ Misordered i j) ∧
      (a.natAbs ≤ 2 ^ 53 → b.natAbs ≤ 2 ^ 53 → ¬ Misordered a b) := by
  have horder := compareNumberText_toString ha.natAbs_le hb.natAbs_le
  refine ⟨horder, horder, ?_, not_misordered⟩
  rw [Writer.closeArray_integers hne, Except.ok.injEq, AttributeValue.numberSet.injEq]
  refine sortBy_toString_iff fun i hi => ?_
  obtain ⟨type, htype⟩ := hxs i hi
  exact htype.natAbs_le

/-- Of two neighbours with one double the longer one comes first, small integers keep their order, and a set
of neighbours is not stored in ascending order. -/
theorem order_of_integers_neighbours :
    compare (number (toString (9999999999999999 : Int))) (number (toString (10000000000000000 : Int))) =
        .gt ∧
      compare (number (toString (-10 : Int))) (number (toString (9 : Int))) = .lt ∧
      Writer.closeArray true false ([-9007199254740993, -9007199254740992].map fun i : Int =>
          .number (toString i)) ≠
        .ok (.numberSet ((sortBy Ord.compare (dedupEq [-9007199254740993, -9007199254740992])).map
          fun i : Int => toString i)) := by
  have hlong : Misordered 9999999999999999 10000000000000000 := by decide +kernel
  have hneighbours : Misordered (-9007199254740993) (-9007199254740992) := by decide +kernel
  have hne : ([-9007199254740993, -9007199254740992] : List Int) ≠ [] := List.cons_ne_nil _ _
  have hheld : ∀ i ∈ ([-9007199254740993, -9007199254740992] : List Int),
      ∃ type : IntType, type.Holds i :=
    List.forall_mem_cons.mpr ⟨⟨.int64, by decide, by decide⟩,
      List.forall_mem_singleton.mpr ⟨.int64, by decide, by decide⟩⟩
  have hnine : IntType.int64.Holds 9999999999999999 := ⟨by decide, by decide⟩
  have hten : IntType.nat128.Holds 10000000000000000 := ⟨by decide, by decide⟩
  have hbelow : IntType.int8.Holds (-10) := ⟨by decide, by decide⟩
  have habove : IntType.nat8.Holds 9 := ⟨by decide, by decide⟩
  obtain ⟨hreversed, -, hsets, -⟩ := order_of_integers hnine hten hne hheld
  obtain ⟨hkept, -, -, hsmall⟩ := order_of_integers hbelow habove hne hheld
  refine ⟨?_, ?_, fun hstored => ?_⟩
  · rw [hreversed, if_pos hlong]
    decide
  · rw [hkept, if_neg (hsmall (by decide) (by decide))]
    decide
  · exact hsets.mp hstored _ List.mem_cons_self _
      (List.mem_cons_of_mem _ List.mem_cons_self) hneighbours

end KeyValue

end ItemMapper
