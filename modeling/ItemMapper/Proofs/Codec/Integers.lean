import Mathlib
import ItemMapper.Proofs.Codec.Scalars
import ItemMapper.Proofs.Key.Integers
import ItemMapper.Proofs.Number.Rationals
import ItemMapper.Proofs.Values.Literals

/-!
# Integers read from number text

Digits with a sign that the type allows are read as the integer that they write. Any other number is
first rounded to a double and the double, if it is whole, is brought into the range of signed integers of
128 bits; only then is it looked at whether the type has it. So a number that is neither digits nor a
double can be read as an integer that it is not, as can one beyond that range, and no others.

## Main definitions

* `IntType.Literal`: an integer in digits.
* `IntType.Reads`: what a text is read as.

## Main statements

* `IntType.read?_eq_some_iff`: the reader of integers.
* `IntType.saturate128_eq_iff`: when a double that is read for a number is this number.
* `IntType.Reads.exact_iff`: when the integer that is read is the number that was written.
* `IntType.Reads.abs_sub_le`: how near the integer that is read is to the number that was written.
* `Codec.decode_int`: decoding of integers.
-/

namespace ItemMapper

open Floating (Denotes IsDouble double ofRat)

namespace IntType

variable {t : IntType} {text : String} {v i : Int} {q : ℚ}

/-- The text is an integer in digits, with a minus sign only if the type has negative values. -/
def Literal (t : IntType) (text : String) (v : Int) : Prop :=
  SpellsInt v text.toList ∧ (t.isSigned = false → text.toList.head? ≠ some '-')

/-- What a text without white space around it is read as. -/
inductive Reads (t : IntType) (text : String) (v : Int) : Prop where
  /-- An integer in digits, if the type has it. -/
  | literal (hliteral : t.Literal text v) (hv : t.Holds v)
  /-- The double nearest to any other number, if it is whole, brought into the range of 128 bits. -/
  | rounded (q : ℚ) (i : Int) (hnone : ∀ w, t.Literal text w → ¬t.Holds w) (hq : Denotes text q)
    (hi : (ofRat double q).toInt? = some i) (hv : t.Holds v) (hsaturated : saturate128 i = v)

/-! ### The reader -/

theorem check?_eq_some_iff : t.check? i = some v ↔ i = v ∧ t.Holds v := by
  rw [check?]
  split
  · rename_i h
    rw [Option.some_inj]
    exact ⟨fun heq => ⟨heq, heq ▸ h⟩, And.left⟩
  · rename_i h
    constructor
    · nofun
    · rintro ⟨rfl, hv⟩
      exact absurd hv h

theorem readDigits?_eq_some_iff : t.readDigits? text = some v ↔ t.Literal text v ∧ t.Holds v := by
  unfold readDigits? Literal
  cases hsigned : t.isSigned with
  | true =>
    simp only [if_true, Option.bind_eq_some_iff, check?_eq_some_iff, readInt?_eq_some_iff,
      Bool.true_eq_false, false_imp_iff, and_true]
    constructor
    · rintro ⟨_, hi, rfl, hv⟩
      exact ⟨hi, hv⟩
    · rintro ⟨hv, hholds⟩
      exact ⟨v, hv, rfl, hholds⟩
  | false =>
    simp only [Bool.false_eq_true, if_false, Option.bind_eq_some_iff, Option.map_eq_some_iff,
      check?_eq_some_iff, readNat?_eq_some_iff, forall_const]
    constructor
    · rintro ⟨_, ⟨n, hn, rfl⟩, rfl, hv⟩
      exact ⟨hn, hv⟩
    · rintro ⟨hliteral, hv⟩
      have hnonneg : 0 ≤ v := by
        have hlow := hv.1
        rwa [low, hsigned] at hlow
      obtain ⟨n, rfl⟩ := Int.eq_ofNat_of_zero_le hnonneg
      exact ⟨n, ⟨n, hliteral, rfl⟩, rfl, hv⟩

/-- **The reader of integers**, for each type. -/
theorem read?_eq_some_iff : t.read? text = some v ↔ t.Reads (Unicode.trim text) v := by
  rw [read?]
  generalize Unicode.trim text = trimmed
  cases hdigits : t.readDigits? trimmed with
  | some w =>
    obtain ⟨hliteral, hw⟩ := readDigits?_eq_some_iff.mp hdigits
    dsimp only
    rw [Option.some_inj]
    constructor
    · rintro rfl
      exact .literal hliteral hw
    · rintro (⟨hother, hv⟩ | ⟨_, _, hnone⟩)
      · have hread := readDigits?_eq_some_iff.mpr ⟨hother, hv⟩
        exact Option.some.inj (hdigits.symm.trans hread)
      · exact absurd hw (hnone w hliteral)
  | none =>
    have hnone : ∀ w, t.Literal trimmed w → ¬t.Holds w := by
      intro w hliteral hw
      have hread := readDigits?_eq_some_iff.mpr ⟨hliteral, hw⟩
      rw [hdigits] at hread
      cases hread
    dsimp only
    constructor
    · intro h
      obtain ⟨x, hx, h⟩ := Option.bind_eq_some_iff.mp h
      obtain ⟨i, hi, h⟩ := Option.bind_eq_some_iff.mp h
      obtain ⟨hsaturated, hv⟩ := check?_eq_some_iff.mp h
      have hfinite : x.isFinite = true := by
        cases x with
        | finite => rfl
        | nan | infinite => cases hi
      obtain ⟨n, hn, rfl⟩ := Floating.exists_spells_of_read? hx hfinite
      rw [Floating.toInt?_rounded] at hi
      exact .rounded n.value i hnone ⟨n, hn, rfl⟩ hi hv hsaturated
    · rintro (⟨hliteral, hv⟩ | ⟨q, i, -, ⟨n, hn, rfl⟩, hi, hv, hsaturated⟩)
      · exact absurd hv (hnone v hliteral)
      · refine Option.bind_eq_some_iff.mpr ⟨_, Floating.read?_of_spells hn, ?_⟩
        rw [Floating.toInt?_rounded, hi]
        exact check?_eq_some_iff.mpr ⟨hsaturated, hv⟩

/-! ### Exactness -/

/-- An integer in digits denotes itself. -/
theorem denotes_of_spellsInt (h : SpellsInt v text.toList) : Denotes text v := by
  obtain ⟨negative, sign, digits, hsign, hne, hdigits, htext, rfl⟩ := h
  refine ⟨⟨negative, digits, [], 0⟩,
    ⟨sign, [], [], hsign, hdigits, .none, .none, .inl hne, ?_⟩, ?_⟩
  · rw [htext, List.nil_append, List.append_nil]
  · cases negative <;> simp [Floating.Numeral.value, Floating.Numeral.digits, Floating.Numeral.scale]

theorem toInt?_ofRat_of_eq {j k : Int} (hread : (Floating.ofInt double j).toInt? = some k)
    (hq : q = j) (hi : (ofRat double q).toInt? = some i) : i = k := by
  rw [hq, Floating.ofRat_intCast, hread] at hi
  exact (Option.some.inj hi).symm

theorem saturate128_of_lt (h : i < -(2 ^ 127)) : saturate128 i = -(2 ^ 127) := by
  unfold saturate128
  omega

theorem saturate128_of_mem (hlow : -(2 ^ 127) ≤ i) (hhigh : i < 2 ^ 127) : saturate128 i = i := by
  unfold saturate128
  omega

theorem saturate128_of_ge (h : 2 ^ 127 ≤ i) : saturate128 i = 2 ^ 127 - 1 := by
  unfold saturate128
  omega

/-- **The double that is read for a number** is this number where the number is a double within 128 bits,
and also where it is the greatest integer there, whose double is beyond them. -/
theorem saturate128_eq_iff (hi : (ofRat double q).toInt? = some i) :
    (saturate128 i : ℚ) = q ↔
      IsDouble q ∧ -(2 ^ 127) ≤ q ∧ q < 2 ^ 127 ∨ q = 2 ^ 127 - 1 := by
  have hgreatest : q = 2 ^ 127 - 1 → i = 2 ^ 127 := fun h =>
    toInt?_ofRat_of_eq (j := 2 ^ 127 - 1) (by decide +kernel) (by rw [h]; norm_num) hi
  have hleast : q = -(2 ^ 127) → i = -(2 ^ 127) := fun h =>
    toInt?_ofRat_of_eq (j := -(2 ^ 127)) (by decide +kernel) (by rw [h]; norm_num) hi
  rw [Floating.isDouble_iff hi]
  constructor
  · intro h
    rcases lt_or_ge i (-(2 ^ 127)) with hbelow | hlow
    · have hq : q = -(2 ^ 127) := by
        rw [← h, saturate128_of_lt hbelow]
        norm_num
      exact absurd (hleast hq) (Int.ne_of_lt hbelow)
    rcases lt_or_ge i (2 ^ 127) with hhigh | habove
    · rw [saturate128_of_mem hlow hhigh] at h
      refine .inl ⟨h, ?_, ?_⟩
      · rw [← h]
        exact_mod_cast hlow
      · rw [← h]
        exact_mod_cast hhigh
    · refine .inr ?_
      rw [← h, saturate128_of_ge habove]
      norm_num
  · rintro (⟨rfl, hlow, hhigh⟩ | hq)
    · rw [saturate128_of_mem (by exact_mod_cast hlow) (by exact_mod_cast hhigh)]
    · rw [saturate128_of_ge (hgreatest hq).ge, hq]
      norm_num

/-- A double within 128 bits is no nearer to a number than the double that is read for the number, once
this is brought there. -/
theorem abs_saturate128_sub_le {j : Int} (hi : (ofRat double q).toInt? = some i) (hj : IsDouble j)
    (hlow : -(2 ^ 127) ≤ j) (hhigh : j < 2 ^ 127) : |(saturate128 i : ℚ) - q| ≤ |(j : ℚ) - q| := by
  have hnearest : |(i : ℚ) - q| ≤ |(j : ℚ) - q| :=
    Floating.abs_ofRat_sub_le (Floating.toRat?_of_toInt? hi) hj
  have hbetween : i ≤ saturate128 i ∧ saturate128 i ≤ j ∨ j ≤ saturate128 i ∧ saturate128 i ≤ i := by
    unfold saturate128
    omega
  -- what is between two numbers is not farther from a third than both of them
  rcases hbetween with ⟨hle, hge⟩ | ⟨hle, hge⟩
  · exact (abs_le_max_abs_abs (sub_le_sub_right (Int.cast_le.mpr hle) q)
      (sub_le_sub_right (Int.cast_le.mpr hge) q)).trans (max_le hnearest le_rfl)
  · exact (abs_le_max_abs_abs (sub_le_sub_right (Int.cast_le.mpr hle) q)
      (sub_le_sub_right (Int.cast_le.mpr hge) q)).trans (max_le le_rfl hnearest)

/-- **The integer that is read is the number that was written** where this is an integer in digits, a
double within 128 bits, or the greatest integer there. -/
theorem Reads.exact_iff (h : t.Reads text v) (hq : Denotes text q) :
    (v : ℚ) = q ↔ t.Literal text v ∨ IsDouble q ∧ -(2 ^ 127) ≤ q ∧ q < 2 ^ 127 ∨ q = 2 ^ 127 - 1 := by
  rcases h with ⟨hliteral, -⟩ | ⟨r, i, hnone, hr, hi, hv, rfl⟩
  · exact iff_of_true ((denotes_of_spellsInt hliteral.1).unique hq) (.inl hliteral)
  · obtain rfl := hr.unique hq
    rw [saturate128_eq_iff hi, or_iff_right fun hliteral => hnone _ hliteral hv]

/-- **No double within 128 bits is nearer** to the number that was written than the integer that is read. -/
theorem Reads.abs_sub_le {j : Int} (h : t.Reads text v) (hq : Denotes text q) (hj : IsDouble j)
    (hlow : -(2 ^ 127) ≤ j) (hhigh : j < 2 ^ 127) : |(v : ℚ) - q| ≤ |(j : ℚ) - q| := by
  rcases h with ⟨hliteral, -⟩ | ⟨r, i, -, hr, hi, -, rfl⟩
  · rw [(denotes_of_spellsInt hliteral.1).unique hq, sub_self, abs_zero]
    exact abs_nonneg _
  · obtain rfl := hr.unique hq
    exact abs_saturate128_sub_le hi hj hlow hhigh

/-- What is read denotes a number. -/
theorem Reads.exists_denotes (h : t.Reads text v) : ∃ q, Denotes text q := by
  rcases h with ⟨hliteral, -⟩ | ⟨q, -, -, hq, -⟩
  · exact ⟨v, denotes_of_spellsInt hliteral.1⟩
  · exact ⟨q, hq⟩

/-- However a small integer of the type is written, it is read. -/
theorem reads_of_denotes (hq : Denotes text v) (hv : t.Holds v) (hsmall : v.natAbs ≤ 2 ^ 53) :
    t.Reads text v := by
  by_cases hsome : ∃ w, t.Literal text w ∧ t.Holds w
  · obtain ⟨w, hliteral, hw⟩ := hsome
    obtain rfl : w = v := by
      exact_mod_cast (denotes_of_spellsInt hliteral.1).unique hq
    exact .literal hliteral hw
  · refine .rounded v v (fun w hliteral hw => hsome ⟨w, hliteral, hw⟩) hq ?_ hv ?_
    · rw [Floating.ofRat_intCast, Floating.toInt?_ofInt hsmall]
    · exact saturate128_of_mem (by omega) (by omega)

end IntType

namespace Codec

open IntType (Reads Literal)

variable {c : Codec}

/-- An integer is decoded by its reader, whose refusal is the complaint about the number. -/
theorem decode_int_eq (hc : c.converters = Converter.builtins) (t : IntType) (text : String) :
    c.decode (.scalar (.int t)) (.number text) =
      match t.read? text with
      | some v => .ok (.int v)
      | none => .error (Cause.invalidNumber text (c.typeName (.scalar (.int t)))) := by
  have hleaf : c.readLeaf (.scalar (.int t)) (.number text) = (do
      let typed ← (Converter.readNumber (c.target (.scalar (.int t))) text).map fun datum =>
        (⟨.scalar (.int t), datum⟩ : Typed)
      if typed.type = .scalar (.int t) then pure typed.datum
      else .error (Cause.unsupportedType (c.typeName (.scalar (.int t)))
        s!"converter primitive produced a different type")) := by
    rw [readLeaf, hc]
    rfl
  have hread : Converter.readNumber (c.target (.scalar (.int t))) text =
      match t.read? text with
      | some v => .ok (.int v)
      | none => .error (Cause.invalidNumber text (c.typeName (.scalar (.int t)))) := rfl
  rw [decode, hleaf, hread]
  cases t.read? text with
  | none => rfl
  | some v => exact if_pos rfl

/-- **Decoding of integers.** A text is accepted with what it is read as, and is refused as a number if
there is no such integer. What is read is the number that was written where this is in digits, or a double
within 128 bits, and no double there is nearer to it otherwise. Small integers are read however they are
written. -/
theorem decode_int (hc : c.converters = Converter.builtins) (t : IntType) (text : String) :
    (∀ v, c.decode (.scalar (.int t)) (.number text) = .ok (.int v) ↔
      t.Reads (Unicode.trim text) v) ∧
    (c.decode (.scalar (.int t)) (.number text) =
        .error (Cause.invalidNumber text (c.typeName (.scalar (.int t)))) ↔
      ∀ v, ¬t.Reads (Unicode.trim text) v) ∧
    (∀ v, t.Reads (Unicode.trim text) v → ∃ q, Denotes (Unicode.trim text) q ∧
      ((v : ℚ) = q ↔ t.Literal (Unicode.trim text) v ∨
        IsDouble q ∧ -(2 ^ 127) ≤ q ∧ q < 2 ^ 127 ∨ q = 2 ^ 127 - 1) ∧
      ∀ j : Int, IsDouble j → -(2 ^ 127) ≤ j → j < 2 ^ 127 → |(v : ℚ) - q| ≤ |(j : ℚ) - q|) ∧
    (∀ v : Int, Denotes (Unicode.trim text) v → t.Holds v → v.natAbs ≤ 2 ^ 53 →
      c.decode (.scalar (.int t)) (.number text) = .ok (.int v)) := by
  have haccepted : ∀ v, c.decode (.scalar (.int t)) (.number text) = .ok (.int v) ↔
      t.Reads (Unicode.trim text) v := by
    intro v
    rw [decode_int_eq hc, ← IntType.read?_eq_some_iff]
    cases t.read? text <;> simp
  refine ⟨haccepted, ?_, fun v hv => ?_, fun v hq hv hsmall => ?_⟩
  · simp only [← IntType.read?_eq_some_iff]
    rw [decode_int_eq hc]
    cases t.read? text <;> simp
  · obtain ⟨q, hq⟩ := hv.exists_denotes
    exact ⟨q, hq, hv.exact_iff hq, fun j => hv.abs_sub_le hq⟩
  · exact (haccepted v).mpr (IntType.reads_of_denotes hq hv hsmall)

/-- A power of ten that is a double is read as it is, if the type has it; beyond 128 bits, a power of ten
is read as the greatest integer there. -/
theorem decode_int_powers :
    bare.decode (.scalar (.int .int32)) (.number " 1e3 ") = .ok (.int 1000) ∧
      bare.decode (.scalar (.int .int8)) (.number "1e3") =
        .error (Cause.invalidNumber "1e3" (bare.typeName (.scalar (.int .int8)))) ∧
      bare.decode (.scalar (.int .int128)) (.number "1e39") = .ok (.int (2 ^ 127 - 1)) ∧
      Denotes "1e39" (10 ^ 39) ∧ ((2 ^ 127 - 1 : Int) : ℚ) ≠ 10 ^ 39 := by
  have htrim : Unicode.trim " 1e3 " = "1e3" := by cbv
  have hthousand : Denotes "1e3" (1000 : Int) := by
    have hthree : SpellsInt 3 ['3'] :=
      ⟨false, [], ['3'], .none, List.cons_ne_nil _ _, List.forall_mem_singleton.mpr rfl, rfl, rfl⟩
    have hpower : ((1000 : Int) : ℚ) = 10 ^ (3 : Int) := by norm_num
    rw [hpower]
    exact Floating.denotes_power hthree rfl
  have hgreat : Denotes "1e39" (10 ^ 39) := by
    have hdigits : AllDigits ['3', '9'] :=
      List.forall_mem_cons.mpr ⟨rfl, List.forall_mem_singleton.mpr rfl⟩
    exact Floating.denotes_power ⟨false, [], ['3', '9'], .none, List.cons_ne_nil _ _, hdigits, rfl, rfl⟩ rfl
  have hnone : IntType.int8.read? "1e3" = none := by decide +kernel
  have hgreatest : IntType.int128.read? "1e39" = some (2 ^ 127 - 1) := by decide +kernel
  refine ⟨?_, ?_, ?_, hgreat, by norm_num⟩
  · refine (decode_int rfl .int32 " 1e3 ").2.2.2 1000 ?_ (by decide) (by decide)
    rw [htrim]
    exact hthousand
  · refine (decode_int rfl .int8 "1e3").2.1.mpr fun v hv => ?_
    rw [← IntType.read?_eq_some_iff, hnone] at hv
    cases hv
  · exact ((decode_int rfl .int128 "1e39").1 _).mpr (IntType.read?_eq_some_iff.mp hgreatest)

end Codec

end ItemMapper
