import ItemMapper.Proofs.Key.Text
import ItemMapper.Proofs.Number.Order

/-!
# The order of keys

Keys can be compared in either direction, and only equal ones compare equal. They are in a circle where
their partition values are, or where these are equal and their sort values are in one, and values are in
a circle where they are numbers of which one upsets the two others. Keys that a text can stand for have
no such numbers.

## Main definitions

* `KeyValue.Entangled`, `PrimaryKey.Entangled`: values and keys in a circle.

## Main statements

* `PrimaryKey.order_laws`: the laws of the order of keys.
-/

namespace ItemMapper

/-! ### Values of keys -/

namespace KeyValue

theorem rank_le_of_compare {x y : KeyValue} (h : x.compare y = .lt) : x.rank ≤ y.rank := by
  cases x <;> cases y <;> first | exact Nat.le_refl _ | exact Nat.le_of_lt (Nat.compare_eq_lt.mp h)

instance : Std.OrientedCmp compare where
  eq_swap {x y} := by
    cases x with
    | text s =>
      cases y with
      | text t => exact @Std.OrientedCmp.eq_swap _ compareText _ s t
      | _ => rfl
    | number s =>
      cases y with
      | number t => exact @Std.OrientedCmp.eq_swap _ compareNumberText _ s t
      | _ => rfl
    | binary s =>
      cases y with
      | binary t => exact @Std.OrientedCmp.eq_swap _ compareBytes _ s t
      | _ => rfl

instance : Std.LawfulEqCmp compare where
  eq_of_compare {x y} h := by
    cases x with
    | text s =>
      cases y with
      | text t => exact congrArg text (@Std.LawfulEqCmp.eq_of_compare _ compareText _ _ _ h)
      | _ => cases h
    | number s =>
      cases y with
      | number t => exact congrArg number (@Std.LawfulEqCmp.eq_of_compare _ compareNumberText _ _ _ h)
      | _ => cases h
    | binary s =>
      cases y with
      | binary t => exact congrArg binary (@Std.LawfulEqCmp.eq_of_compare _ compareBytes _ _ _ h)
      | _ => cases h

/-- Three numbers of which one upsets the two others. -/
def Entangled (x y z : KeyValue) : Prop :=
  ∃ a b c, x = number a ∧ y = number b ∧ z = number c ∧
    (Upsets a b c ∨ Upsets b c a ∨ Upsets c a b)

theorem circle_iff_entangled {x y z : KeyValue} : Circle compare x y z ↔ Entangled x y z := by
  constructor
  · intro h
    have hxy := rank_le_of_compare h.first
    have hyz := rank_le_of_compare h.second
    have hzx := rank_le_of_compare h.third
    have hsame : y.rank = x.rank ∧ z.rank = x.rank := by omega
    cases x with
    | text a =>
      cases y <;> cases hsame.1
      cases z <;> cases hsame.2
      exact absurd ⟨h.first, h.second, h.third⟩ (@not_circle _ compareText _ _ _ _)
    | number a =>
      cases y <;> cases hsame.1
      cases z <;> cases hsame.2
      exact ⟨a, _, _, rfl, rfl, rfl, circle_compareNumberText.mp ⟨h.first, h.second, h.third⟩⟩
    | binary a =>
      cases y <;> cases hsame.1
      cases z <;> cases hsame.2
      exact absurd ⟨h.first, h.second, h.third⟩ (@not_circle _ compareBytes _ _ _ _)
  · rintro ⟨a, b, c, rfl, rfl, rfl, h⟩
    obtain ⟨hfirst, hsecond, hthird⟩ := circle_compareNumberText.mpr h
    exact ⟨hfirst, hsecond, hthird⟩

theorem isNumber_of_fits {type : ScalarType} {digits : String} (h : Fits type (number digits)) :
    IsNumber digits := by
  cases h with
  | number trimmed read finite =>
    rw [IsNumber, numberValue, trimmed, read, Option.getD_some]
    rintro rfl
    cases finite

theorem not_entangled_of_fits {type type' type'' : ScalarType} {x y z : KeyValue} (hx : Fits type x)
    (hy : Fits type' y) (hz : Fits type'' z) : ¬ Entangled x y z := by
  rintro ⟨a, b, c, rfl, rfl, rfl, h | h | h⟩
  · exact h.not_number (isNumber_of_fits hx)
  · exact h.not_number (isNumber_of_fits hy)
  · exact h.not_number (isNumber_of_fits hz)

end KeyValue

/-! ### Keys -/

namespace PrimaryKey

instance : Std.OrientedCmp compareSort where
  eq_swap {x y} := by
    cases x with
    | none => cases y <;> rfl
    | some a =>
      cases y with
      | none => rfl
      | some b => exact @Std.OrientedCmp.eq_swap _ KeyValue.compare _ a b

instance : Std.LawfulEqCmp compareSort where
  eq_of_compare {x y} h := by
    cases x with
    | none =>
      cases y with
      | none => rfl
      | some y => cases h
    | some x =>
      cases y with
      | none => cases h
      | some y => exact congrArg some (@Std.LawfulEqCmp.eq_of_compare _ KeyValue.compare _ _ _ h)

instance : Std.OrientedCmp compare where
  eq_swap {x y} := by
    rw [compare, compare, Ordering.swap_then, ← @Std.OrientedCmp.eq_swap _ KeyValue.compare,
      ← @Std.OrientedCmp.eq_swap _ compareSort]

instance : Std.LawfulEqCmp compare where
  eq_of_compare {x y} h := by
    obtain ⟨hpartition, hsort⟩ := Ordering.then_eq_eq.mp h
    cases x
    cases y
    cases @Std.LawfulEqCmp.eq_of_compare _ KeyValue.compare _ _ _ hpartition
    cases @Std.LawfulEqCmp.eq_of_compare _ compareSort _ _ _ hsort
    rfl

/-- Three keys whose partition values are entangled, or all the same while their sort values are
entangled. -/
def Entangled (x y z : PrimaryKey) : Prop :=
  KeyValue.Entangled x.partition y.partition z.partition ∨
    x.partition = y.partition ∧ y.partition = z.partition ∧
      ∃ a b c, x.sort = some a ∧ y.sort = some b ∧ z.sort = some c ∧ KeyValue.Entangled a b c

theorem circle_compareSort {x y z : Option KeyValue} :
    Circle compareSort x y z ↔
      ∃ a b c, x = some a ∧ y = some b ∧ z = some c ∧ KeyValue.Entangled a b c := by
  constructor
  · rintro ⟨hxy, hyz, hzx⟩
    cases x with
    | none => cases z <;> cases hzx
    | some a =>
      cases y with
      | none => cases hxy
      | some b =>
        cases z with
        | none => cases hyz
        | some c => exact ⟨a, b, c, rfl, rfl, rfl, KeyValue.circle_iff_entangled.mp ⟨hxy, hyz, hzx⟩⟩
  · rintro ⟨a, b, c, rfl, rfl, rfl, h⟩
    obtain ⟨hfirst, hsecond, hthird⟩ := KeyValue.circle_iff_entangled.mpr h
    exact ⟨hfirst, hsecond, hthird⟩

/-- The keys in a circle are the entangled ones. -/
theorem circle_iff_entangled {x y z : PrimaryKey} : Circle compare x y z ↔ Entangled x y z := by
  have hlt : ∀ {x y : PrimaryKey}, compare x y = .lt ↔ x.partition.compare y.partition = .lt ∨
      x.partition = y.partition ∧ compareSort x.sort y.sort = .lt := fun {x y} => by
    rw [compare, Ordering.then_eq_lt, @Std.LawfulEqCmp.compare_eq_iff_eq _ KeyValue.compare]
  constructor
  · rintro ⟨hxy, hyz, hzx⟩
    have hle : ∀ {x y : PrimaryKey}, compare x y = .lt → (x.partition.compare y.partition).isLE :=
      fun {x y} h => by
        rcases hlt.mp h with h | ⟨heq, -⟩
        · exact Ordering.isLE_of_eq_lt h
        · rw [heq]
          exact Std.ReflCmp.isLE_rfl
    by_cases hgt : x.partition.compare z.partition = .gt
    · exact .inl (KeyValue.circle_iff_entangled.mp (circle_iff.mpr ⟨hle hxy, hle hyz, hgt⟩))
    · -- The partition values ascend all around, and so are the same.
      have hxz : x.partition = z.partition := Std.LawfulEqCmp.eq_of_compare
        (Std.OrientedCmp.isLE_antisymm (Ordering.isLE_iff_ne_gt.mpr hgt) (hle hzx))
      have hyzle := hle hyz
      rw [← hxz] at hyzle
      have hpartition : x.partition = y.partition :=
        Std.LawfulEqCmp.eq_of_compare (Std.OrientedCmp.isLE_antisymm (hle hxy) hyzle)
      have hsort : ∀ {x y : PrimaryKey}, compare x y = .lt → x.partition = y.partition →
          compareSort x.sort y.sort = .lt := fun {x y} h heq => by
        rw [compare, heq, @Std.ReflCmp.compare_self _ KeyValue.compare, Ordering.eq_then] at h
        exact h
      have hsame : y.partition = z.partition := hpartition.symm.trans hxz
      exact .inr ⟨hpartition, hsame, circle_compareSort.mp
        ⟨hsort hxy hpartition, hsort hyz hsame, hsort hzx hxz.symm⟩⟩
  · rintro (h | ⟨hxy, hyz, h⟩)
    · obtain ⟨hfirst, hsecond, hthird⟩ := KeyValue.circle_iff_entangled.mpr h
      exact ⟨hlt.mpr (.inl hfirst), hlt.mpr (.inl hsecond), hlt.mpr (.inl hthird)⟩
    · obtain ⟨hfirst, hsecond, hthird⟩ := circle_compareSort.mpr h
      exact ⟨hlt.mpr (.inr ⟨hxy, hfirst⟩), hlt.mpr (.inr ⟨hyz, hsecond⟩),
        hlt.mpr (.inr ⟨(hxy.trans hyz).symm, hthird⟩)⟩

theorem not_entangled_of_fits {options : CodecOptions} {d : TableDescriptor} {x y z : PrimaryKey}
    (hx : Fits options d x) (hy : Fits options d y) (hz : Fits options d z) : ¬ Entangled x y z := by
  have hsort : ∀ {key : PrimaryKey} {value : KeyValue}, Fits options d key → key.sort = some value →
      ∃ type, KeyValue.Fits type value := fun {key value} hkey hvalue => by
    have hrel := hkey.sort
    rw [hvalue] at hrel
    generalize d.sortMember? = member at hrel
    cases hrel with
    | some hfits =>
      obtain ⟨type, -, hfits⟩ := hfits
      exact ⟨type, hfits⟩
  rintro (h | ⟨-, -, a, b, c, ha, hb, hc, h⟩)
  · obtain ⟨_, -, hx⟩ := hx.partition
    obtain ⟨_, -, hy⟩ := hy.partition
    obtain ⟨_, -, hz⟩ := hz.partition
    exact KeyValue.not_entangled_of_fits hx hy hz h
  · obtain ⟨_, ha⟩ := hsort hx ha
    obtain ⟨_, hb⟩ := hsort hy hb
    obtain ⟨_, hc⟩ := hsort hz hc
    exact KeyValue.not_entangled_of_fits ha hb hc h

/-- Values and keys can be compared in either direction, and only equal ones compare equal. Three of them
are compared against transitivity just where they are entangled, and keys of a table that a text can stand
for never are. -/
theorem order_laws (a b c : KeyValue) (x y z : PrimaryKey) :
    (b.compare a = (a.compare b).swap ∧ (a.compare b = .eq ↔ a = b)) ∧
      (KeyValue.Entangled a b c ↔
        (a.compare b).isLE ∧ (b.compare c).isLE ∧ a.compare c = .gt) ∧
      (y.compare x = (x.compare y).swap ∧ (x.compare y = .eq ↔ x = y)) ∧
      (Entangled x y z ↔ (x.compare y).isLE ∧ (y.compare z).isLE ∧ x.compare z = .gt) ∧
      ∀ options d, Fits options d x → Fits options d y → Fits options d z → ¬ Entangled x y z :=
  ⟨⟨Std.OrientedCmp.eq_swap, Std.LawfulEqCmp.compare_eq_iff_eq⟩,
    KeyValue.circle_iff_entangled.symm.trans circle_iff,
    ⟨Std.OrientedCmp.eq_swap, Std.LawfulEqCmp.compare_eq_iff_eq⟩,
    circle_iff_entangled.symm.trans circle_iff, fun _ _ => not_entangled_of_fits⟩

/-- Two numbers with a text that denotes none between them. -/
theorem order_laws_nineTenAndWord :
    (KeyValue.number "9").compare (.number "10") = .lt ∧
      (KeyValue.number "10").compare (.number "5x") = .lt ∧
      (KeyValue.number "9").compare (.number "5x") = .gt ∧
      KeyValue.Entangled (.number "9") (.number "10") (.number "5x") ∧
      Entangled ⟨.text "p", some (.number "9")⟩ ⟨.text "p", some (.number "10")⟩
        ⟨.text "p", some (.number "5x")⟩ := by
  have hup : (KeyValue.number "9").compare (.number "10") = .lt := by decide +kernel
  have hword : (KeyValue.number "10").compare (.number "5x") = .lt := by decide +kernel
  have hdown : (KeyValue.number "9").compare (.number "5x") = .gt := by decide +kernel
  obtain ⟨-, hvalues, -, hkeys, -⟩ := order_laws (.number "9") (.number "10") (.number "5x")
    ⟨.text "p", some (.number "9")⟩ ⟨.text "p", some (.number "10")⟩
    ⟨.text "p", some (.number "5x")⟩
  refine ⟨hup, hword, hdown, hvalues.mpr ?_, hkeys.mpr ?_⟩
  · rw [hup, hword, hdown]
    exact ⟨rfl, rfl, rfl⟩
  · exact ⟨by decide +kernel, by decide +kernel, by decide +kernel⟩

end PrimaryKey

end ItemMapper
