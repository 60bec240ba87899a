import Mathlib.Data.List.Forall2
import ItemMapper.Codec.Datum

/-!
# Equality and order of values

Values are equal when their parts are, floating-point numbers by value: the two zeros are equal, and
not-a-number differs from itself. The order of values does not tell equal values apart, and turning
its arguments around turns its answer around.

## Main definitions

* `Datum.equals`: the equality.

## Main statements

* `Datum.compare_self`, `Datum.compare_swap`: the order of a value and itself, and of two values
  the other way around.
* `Datum.compare_congr`: equal values stand in the same order.
-/

namespace ItemMapper

namespace Floating

theorem compare?_swap (x y : Floating) : y.compare? x = (x.compare? y).map Ordering.swap := by
  cases x with
  | nan => cases y <;> rfl
  | infinite s =>
    cases y with
    | nan => rfl
    | infinite t => cases s <;> cases t <;> rfl
    | finite t b => cases s <;> rfl
  | finite s a =>
    cases y with
    | nan => rfl
    | infinite t => cases t <;> rfl
    | finite t b =>
      exact congrArg some (@Std.OrientedCmp.eq_swap Int Ord.compare _ _ _)

theorem equals_iff {x y : Floating} : x.equals y = true ↔ x.compare? y = some .eq := by
  rw [equals, beq_iff_eq]

theorem equals_comm {x y : Floating} : x.equals y = true ↔ y.equals x = true := by
  rw [equals_iff, equals_iff, compare?_swap x y]
  cases x.compare? y with
  | none => simp
  | some o => cases o <;> simp

theorem isFinite_of_equals {x y : Floating} (h : x.equals y = true) (hy : y.isFinite = true) :
    x.isFinite = true := by
  rw [equals_iff] at h
  cases y with
  | nan => cases hy
  | infinite t => cases hy
  | finite t b =>
    cases x with
    | nan => cases h
    | infinite s => cases s <;> cases h
    | finite s a => rfl

/-- Equal numbers compare alike with every number. -/
theorem compare?_of_equals {x y : Floating} (h : x.equals y = true) (z : Floating) :
    x.compare? z = y.compare? z := by
  rw [equals_iff] at h
  cases x with
  | nan => cases h
  | infinite s =>
    cases y with
    | nan => cases h
    | infinite t =>
      cases s <;> cases t
      · rfl
      · cases h
      · cases h
      · rfl
    | finite t b => cases s <;> cases h
  | finite s a =>
    cases y with
    | nan => cases h
    | infinite t => cases t <;> cases h
    | finite t b =>
      have hunits : signedUnits s a = signedUnits t b :=
        Std.LawfulEqCmp.eq_of_compare (Option.some.inj h)
      cases z with
      | nan => rfl
      | infinite u => rfl
      | finite u c =>
        rw [compare?, compare?, hunits]

end Floating

namespace Datum

mutual
/-- Equality of values: floating-point numbers by value, and other values part by part. -/
def equals : Datum → Datum → Bool
  | bool x, bool y => x == y
  | int x, int y => x == y
  | float x, float y => x.equals y
  | char x, char y => x == y
  | text x, text y => x == y
  | binary x, binary y => x == y
  | stamp x, stamp y => x.same y
  | enumeration x, enumeration y => x == y
  | absent, absent => true
  | present x, present y => equals x y
  | boxed x, boxed y => equals x y
  | list xs, list ys => equalItems xs ys
  | map xs, map ys => equalEntries xs ys
  | document xs, document ys => equalItems xs ys
  | variant m xs, variant n ys => m == n && equalItems xs ys
  | dynamic x, dynamic y => x.equals y
  | stored x, stored y => x.same y
  | foreign x, foreign y => x == y
  | _, _ => false

/-- Equality of lists, item by item. -/
def equalItems : List Datum → List Datum → Bool
  | [], [] => true
  | x :: xs, y :: ys => equals x y && equalItems xs ys
  | _, _ => false

/-- Equality of entries, key by key and value by value. -/
def equalEntries : List (String × Datum) → List (String × Datum) → Bool
  | [], [] => true
  | (j, x) :: xs, (k, y) :: ys => j == k && equals x y && equalEntries xs ys
  | _, _ => false
end

theorem equalItems_iff {xs ys : List Datum} :
    equalItems xs ys = true ↔ List.Forall₂ (fun x y => x.equals y = true) xs ys := by
  induction xs generalizing ys with
  | nil =>
    cases ys with
    | nil => simp [equalItems]
    | cons y ys => simp [equalItems]
  | cons x xs ih =>
    cases ys with
    | nil => simp [equalItems]
    | cons y ys => simp [equalItems, ih]

theorem equalEntries_iff {xs ys : List (String × Datum)} :
    equalEntries xs ys = true ↔
      List.Forall₂ (fun x y => x.1 = y.1 ∧ x.2.equals y.2 = true) xs ys := by
  induction xs generalizing ys with
  | nil =>
    cases ys with
    | nil => simp [equalEntries]
    | cons y ys => simp [equalEntries]
  | cons x xs ih =>
    cases ys with
    | nil => simp [equalEntries]
    | cons y ys => simp [equalEntries, ih]

/-! ### The order and itself -/

mutual
theorem compare_self (x : Datum) : compare x x = .eq := by
  cases x with
  | bool x => simp [compare]
  | int x => simp [compare]
  | float x =>
    cases x with
    | nan => rfl
    | infinite s => cases s <;> rfl
    | finite s u => simp [compare, Floating.compare?]
  | char x => simp [compare]
  | text x => exact @Std.ReflCmp.compare_self _ compareText _ x
  | binary x => exact @Std.ReflCmp.compare_self _ compareBytes _ x
  | stamp x => exact @Std.ReflCmp.compare_self _ (List.compareLex Ord.compare) _ (stampKey x)
  | enumeration x => simp [compare]
  | absent => rfl
  | present x => exact compare_self x
  | boxed x => exact compare_self x
  | list xs => exact compareItems_self xs
  | map xs => exact compareEntries_self xs
  | document xs => exact compareItems_self xs
  | variant m xs => rfl
  | dynamic x => rfl
  | stored x => rfl
  | foreign x => exact @Std.ReflCmp.compare_self _ compareText _ x

theorem compareItems_self (xs : List Datum) : compareItems xs xs = .eq := by
  cases xs with
  | nil => rfl
  | cons x xs => rw [compareItems, compare_self x, compareItems_self xs, Ordering.eq_then]

theorem compareEntries_self (xs : List (String × Datum)) : compareEntries xs xs = .eq := by
  cases xs with
  | nil => rfl
  | cons entry xs =>
    obtain ⟨key, x⟩ := entry
    rw [compareEntries, compare_self x, compareEntries_self xs,
      @Std.ReflCmp.compare_self _ compareText _ key, Ordering.eq_then, Ordering.eq_then]
end

/-! ### The order the other way around -/

mutual
theorem compare_swap (x y : Datum) : compare y x = (compare x y).swap := by
  cases x with
  | bool x =>
    cases y with
    | bool y => exact @Std.OrientedCmp.eq_swap Nat Ord.compare _ _ _
    | _ => rfl
  | int x =>
    cases y with
    | int y => exact @Std.OrientedCmp.eq_swap Int Ord.compare _ _ _
    | _ => rfl
  | float x =>
    cases y with
    | float y =>
      rw [compare, compare, Floating.compare?_swap x y]
      cases x.compare? y <;> rfl
    | _ => rfl
  | char x =>
    cases y with
    | char y => exact @Std.OrientedCmp.eq_swap Nat Ord.compare _ _ _
    | _ => rfl
  | text x =>
    cases y with
    | text y => exact @Std.OrientedCmp.eq_swap _ compareText _ _ _
    | _ => rfl
  | binary x =>
    cases y with
    | binary y => exact @Std.OrientedCmp.eq_swap _ compareBytes _ _ _
    | _ => rfl
  | stamp x =>
    cases y with
    | stamp y => exact @Std.OrientedCmp.eq_swap _ (List.compareLex Ord.compare) _ _ _
    | _ => rfl
  | enumeration x =>
    cases y with
    | enumeration y => exact @Std.OrientedCmp.eq_swap Int Ord.compare _ _ _
    | _ => rfl
  | absent => cases y <;> rfl
  | present x =>
    cases y with
    | present y => exact compare_swap x y
    | _ => rfl
  | boxed x =>
    cases y with
    | boxed y => exact compare_swap x y
    | _ => rfl
  | list xs =>
    cases y with
    | list ys => exact compareItems_swap xs ys
    | _ => rfl
  | map xs =>
    cases y with
    | map ys => exact compareEntries_swap xs ys
    | _ => rfl
  | document xs =>
    cases y with
    | document ys => exact compareItems_swap xs ys
    | _ => rfl
  | variant m xs => cases y <;> rfl
  | dynamic x => cases y <;> rfl
  | stored x => cases y <;> rfl
  | foreign x =>
    cases y with
    | foreign y => exact @Std.OrientedCmp.eq_swap _ compareText _ _ _
    | _ => rfl

theorem compareItems_swap (xs ys : List Datum) :
    compareItems ys xs = (compareItems xs ys).swap := by
  cases xs with
  | nil => cases ys <;> rfl
  | cons x xs =>
    cases ys with
    | nil => rfl
    | cons y ys =>
      rw [compareItems, compareItems, compare_swap x y, compareItems_swap xs ys,
        Ordering.swap_then]

theorem compareEntries_swap (xs ys : List (String × Datum)) :
    compareEntries ys xs = (compareEntries xs ys).swap := by
  cases xs with
  | nil => cases ys <;> rfl
  | cons entry xs =>
    obtain ⟨j, x⟩ := entry
    cases ys with
    | nil => rfl
    | cons entry ys =>
      obtain ⟨k, y⟩ := entry
      rw [compareEntries, compareEntries, compare_swap x y, compareEntries_swap xs ys,
        @Std.OrientedCmp.eq_swap _ compareText _ k j, Ordering.swap_then, Ordering.swap_then]
end

/-! ### The order and equality -/

theorem stampKey_of_same {x y : Stamp} (h : x.same y = true) : stampKey x = stampKey y := by
  unfold Stamp.same at h
  split at h
  · rename_i i j
    rw [Instant.sameMoment, Bool.and_eq_true, beq_iff_eq, beq_iff_eq] at h
    rw [stampKey, stampKey, h.1, h.2]
  · rw [beq_iff_eq] at h
    rw [h]

mutual
/-- Equal values compare alike with every value. -/
theorem compare_of_equals (x y z : Datum) (h : x.equals y = true) : compare x z = compare y z := by
  cases x with
  | bool x =>
    cases y with
    | bool y => rw [eq_of_beq h]
    | _ => cases h
  | int x =>
    cases y with
    | int y => rw [eq_of_beq h]
    | _ => cases h
  | float x =>
    cases y with
    | float y =>
      cases z with
      | float z => exact congrArg (Option.getD · .eq) (Floating.compare?_of_equals h z)
      | _ => rfl
    | _ => cases h
  | char x =>
    cases y with
    | char y => rw [eq_of_beq h]
    | _ => cases h
  | text x =>
    cases y with
    | text y => rw [eq_of_beq h]
    | _ => cases h
  | binary x =>
    cases y with
    | binary y => rw [eq_of_beq h]
    | _ => cases h
  | stamp x =>
    cases y with
    | stamp y =>
      cases z with
      | stamp z => rw [compare, compare, stampKey_of_same h]
      | _ => rfl
    | _ => cases h
  | enumeration x =>
    cases y with
    | enumeration y => rw [eq_of_beq h]
    | _ => cases h
  | absent =>
    cases y with
    | absent => rfl
    | _ => cases h
  | present x =>
    cases y with
    | present y =>
      cases z with
      | present z => exact compare_of_equals x y z h
      | _ => rfl
    | _ => cases h
  | boxed x =>
    cases y with
    | boxed y =>
      cases z with
      | boxed z => exact compare_of_equals x y z h
      | _ => rfl
    | _ => cases h
  | list xs =>
    cases y with
    | list ys =>
      cases z with
      | list zs => exact compareItems_of_equals xs ys zs h
      | _ => rfl
    | _ => cases h
  | map xs =>
    cases y with
    | map ys =>
      cases z with
      | map zs => exact compareEntries_of_equals xs ys zs h
      | _ => rfl
    | _ => cases h
  | document xs =>
    cases y with
    | document ys =>
      cases z with
      | document zs => exact compareItems_of_equals xs ys zs h
      | _ => rfl
    | _ => cases h
  | variant m xs =>
    cases y with
    | variant n ys => cases z <;> rfl
    | _ => cases h
  | dynamic x =>
    cases y with
    | dynamic y => cases z <;> rfl
    | _ => cases h
  | stored x =>
    cases y with
    | stored y => cases z <;> rfl
    | _ => cases h
  | foreign x =>
    cases y with
    | foreign y => rw [eq_of_beq h]
    | _ => cases h

theorem compareItems_of_equals (xs ys zs : List Datum) (h : equalItems xs ys = true) :
    compareItems xs zs = compareItems ys zs := by
  cases xs with
  | nil =>
    cases ys with
    | nil => rfl
    | cons y ys => cases h
  | cons x xs =>
    cases ys with
    | nil => cases h
    | cons y ys =>
      rw [equalItems, Bool.and_eq_true] at h
      cases zs with
      | nil => rfl
      | cons z zs =>
        rw [compareItems, compareItems, compare_of_equals x y z h.1,
          compareItems_of_equals xs ys zs h.2]

theorem compareEntries_of_equals (xs ys zs : List (String × Datum))
    (h : equalEntries xs ys = true) : compareEntries xs zs = compareEntries ys zs := by
  cases xs with
  | nil =>
    cases ys with
    | nil => rfl
    | cons y ys => cases h
  | cons entry xs =>
    obtain ⟨j, x⟩ := entry
    cases ys with
    | nil => cases h
    | cons entry ys =>
      obtain ⟨k, y⟩ := entry
      rw [equalEntries, Bool.and_eq_true, Bool.and_eq_true, beq_iff_eq] at h
      cases zs with
      | nil => rfl
      | cons entry zs =>
        obtain ⟨l, z⟩ := entry
        rw [compareEntries, compareEntries, h.1.1, compare_of_equals x y z h.1.2,
          compareEntries_of_equals xs ys zs h.2]
end

/-- Equal values stand in the same order. -/
theorem compare_congr {x x' y y' : Datum} (hx : x.equals x' = true) (hy : y.equals y' = true) :
    compare x y = compare x' y' := by
  rw [compare_of_equals x x' y hx, compare_swap y x', compare_of_equals y y' x' hy,
    ← compare_swap y' x']

end Datum

end ItemMapper
