import Mathlib.Data.List.Basic
import Mathlib.Tactic.IntervalCases
import ItemMapper.Number.Floating
import ItemMapper.Time.Uuid

/-!
# Identifiers are read back

The text of an identifier of 128 bits has 36 characters, and the digits in its five groups are those of
its number, with zeros in front.

## Main statements

* `Uuid.hexNumber?_digits`: the digits of an identifier denote its number.
* `Uuid.read?_text`: an identifier is read back from its text.
-/

namespace ItemMapper.Uuid

theorem hexValue?_digitChar {n : Nat} (h : n < 16) : hexValue? (Nat.digitChar n) = some n := by
  interval_cases n <;> rfl

theorem hexNumber?_concat (cs : List Char) (c : Char) :
    hexNumber? (cs ++ [c]) =
      (hexNumber? cs).bind fun value => (hexValue? c).map (value * 16 + ·) := by
  unfold hexNumber?
  rw [List.foldl_append]
  cases List.foldl _ _ cs with
  | none => rfl
  | some value =>
    cases hvalue : hexValue? c <;> simp [hvalue]

theorem hexNumber?_zeros (k : Nat) : hexNumber? (List.replicate k '0') = some 0 := by
  induction k with
  | zero => rfl
  | succ k ih =>
    rw [List.replicate_succ', hexNumber?_concat, ih]
    rfl

theorem hexNumber?_toDigits (k n : Nat) :
    hexNumber? (List.replicate k '0' ++ Nat.toDigits 16 n) = some n := by
  induction n using Nat.strongRecOn with
  | ind n ih =>
    by_cases hsmall : n < 16
    · rw [Nat.toDigits_of_lt_base hsmall, hexNumber?_concat, hexNumber?_zeros,
        hexValue?_digitChar hsmall]
      simp
    · have hdigit : n % 16 < 16 := Nat.mod_lt n (by decide)
      have hlarge : 16 ≤ n := Nat.le_of_not_lt hsmall
      rw [Nat.toDigits_of_base_le (by decide) hlarge, ← List.append_assoc, hexNumber?_concat,
        ih (n / 16) (Nat.div_lt_self (by omega) (by decide)), hexValue?_digitChar hdigit]
      exact congrArg some (Nat.div_add_mod' n 16)

/-- The digits of an identifier denote its number. -/
theorem hexNumber?_digits (u : Uuid) : hexNumber? u.digits = some u.value :=
  hexNumber?_toDigits _ _

theorem length_digits {u : Uuid} (h : u.value < 2 ^ 128) : u.digits.length = 32 := by
  have hle : (Nat.toDigits 16 u.value).length ≤ 32 :=
    (Nat.length_toDigits_le_iff (by decide) (by decide)).mpr h
  rw [digits, List.length_append, List.length_replicate]
  omega

theorem ofGroups?_append {a b c d e : List Char} (ha : a.length = 8) (hb : b.length = 4)
    (hc : c.length = 4) (hd : d.length = 4) (he : e.length = 12) :
    ofGroups? (a ++ '-' :: b ++ '-' :: c ++ '-' :: d ++ '-' :: e) =
      ofDigits? (a ++ b ++ c ++ d ++ e) := by
  rw [ofGroups?, if_pos]
  · congr 1
    simp [List.drop_append, List.drop_of_length_le, ha, hb, hc, hd]
  · constructor
    · simp [ha, hb, hc, hd, he]
    · simp [List.getElem?_append, ha, hb, hc, hd]

/-- An identifier is read back from its text. -/
theorem read?_text {u : Uuid} (h : u.value < 2 ^ 128) : read? u.text = some u := by
  have hlength := length_digits h
  have hparts : u.digits.take 8 ++ (u.digits.drop 8).take 4 ++ (u.digits.drop 12).take 4 ++
      (u.digits.drop 16).take 4 ++ u.digits.drop 20 = u.digits := by
    rw [← List.take_add, ← List.take_add, ← List.take_add, List.take_append_drop]
  have hgroups : ofGroups? u.text.toList = some u := by
    rw [text, String.toList_ofList, ofGroups?_append (by simp [hlength]) (by simp [hlength])
      (by simp [hlength]) (by simp [hlength]) (by simp [hlength]), hparts, ofDigits?,
      if_pos hlength, hexNumber?_digits]
    rfl
  have htext : u.text.toList.length = 36 := by simp [text, hlength]
  rw [read?]
  simp only [htext, hgroups]

end ItemMapper.Uuid
