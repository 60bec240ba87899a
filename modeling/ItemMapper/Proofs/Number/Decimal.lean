import Mathlib.Data.List.Basic
import ItemMapper.Number.Decimal
import ItemMapper.Number.Shortest
import ItemMapper.Unicode.Blank

/-!
# Written numbers

An integer that is written in decimal digits is read back, unsigned or with a sign. Integers and finite
floating-point numbers are written without white space, so that trimming their texts changes nothing.

## Main statements

* `readNat?_toString`, `readInt?_toString`: the integer that was written.
* `trim_toString`: the text of an integer.
* `Floating.trim_print`: the text of a finite number.
-/

namespace ItemMapper

theorem digitValue?_of_isDigit {c : Char} (h : c.isDigit = true) :
    digitValue? c = some (c.toNat - '0'.toNat) := by
  rw [Char.isDigit, Bool.and_eq_true, decide_eq_true_eq, decide_eq_true_eq] at h
  exact if_pos h

theorem isDigit_of_mem_toDigits {n : Nat} {c : Char} (h : c ∈ Nat.toDigits 10 n) :
    isDigit c = true := by
  rw [isDigit, digitValue?_of_isDigit (Nat.isDigit_of_mem_toDigits (by decide) (by decide) h)]
  rfl

theorem digitsValue_toDigits (n : Nat) : digitsValue 0 (Nat.toDigits 10 n) = n := by
  have hfold : digitsValue 0 (Nat.toDigits 10 n) = Nat.ofDigitChars 10 (Nat.toDigits 10 n) 0 := by
    rw [digitsValue, Nat.ofDigitChars_eq_foldl]
    refine List.foldl_ext _ _ _ fun value c hc => ?_
    rw [digitValue?_of_isDigit (Nat.isDigit_of_mem_toDigits (by decide) (by decide) hc),
      Option.getD_some, Nat.mul_comm]
  rw [hfold, Nat.ofDigitChars_ten_toDigits]

theorem toDigits_ne_nil (n : Nat) : Nat.toDigits 10 n ≠ [] := by
  intro h
  have hlength := Nat.length_toDigits_pos (b := 10) (n := n)
  rw [h] at hlength
  exact absurd hlength (by decide)

theorem readDigits?_toDigits (n : Nat) : readDigits? (Nat.toDigits 10 n) = some n := by
  have hall : (Nat.toDigits 10 n).all isDigit = true :=
    List.all_eq_true.mpr fun c hc => isDigit_of_mem_toDigits hc
  rw [readDigits?, if_pos ⟨toDigits_ne_nil n, hall⟩, digitsValue_toDigits]

theorem toDigits_ne_sign {n : Nat} {sign : Char} (hsign : sign.isDigit = false)
    (rest : List Char) : Nat.toDigits 10 n ≠ sign :: rest := by
  intro h
  have hmem : sign ∈ Nat.toDigits 10 n := by
    rw [h]
    exact List.mem_cons_self
  exact absurd (Nat.isDigit_of_mem_toDigits (by decide) (by decide) hmem) (by simp [hsign])

theorem readNat?_toString (n : Nat) : readNat? (toString n) = some n := by
  unfold readNat?
  rw [Nat.toString_eq_repr, Nat.toList_repr]
  split
  · rename_i rest heq
    exact absurd heq (toDigits_ne_sign rfl rest)
  · exact readDigits?_toDigits n

theorem takeSign_toDigits (n : Nat) :
    takeSign (Nat.toDigits 10 n) = (false, Nat.toDigits 10 n) := by
  unfold takeSign
  split
  · rename_i rest heq
    exact absurd heq (toDigits_ne_sign rfl rest)
  · rename_i rest heq
    exact absurd heq (toDigits_ne_sign rfl rest)
  · rfl

theorem readInt?_toString (i : Int) : readInt? (toString i) = some i := by
  cases i with
  | ofNat n =>
    have htext : (toString (Int.ofNat n)).toList = Nat.toDigits 10 n := by
      rw [← Nat.toList_repr]
      rfl
    rw [readInt?, htext, takeSign_toDigits]
    simp only [readDigits?_toDigits]
    rfl
  | negSucc n =>
    have htext : (toString (Int.negSucc n)).toList = '-' :: Nat.toDigits 10 (n + 1) := by
      rw [← Nat.toList_repr]
      change ("-" ++ Nat.repr (n + 1)).toList = _
      rw [String.toList_append]
      rfl
    rw [readInt?, htext]
    simp only [takeSign, readDigits?_toDigits]
    rfl

theorem readInt64?_toString {i : Int} (h : -(2 ^ 63) ≤ i ∧ i < 2 ^ 63) :
    readInt64? (toString i) = some i := by
  unfold readInt64?
  rw [readInt?_toString]
  exact if_pos h

/-! ### White space -/

theorem Unicode.trim_eq_self {text : String} (h : ∀ ch ∈ text.toList, isBlank ch = false) :
    trim text = text := by
  have hdrop : ∀ cs : List Char, (∀ ch ∈ cs, isBlank ch = false) → cs.dropWhile isBlank = cs := by
    intro cs hcs
    cases cs with
    | nil => rfl
    | cons ch cs =>
      rw [List.dropWhile_cons_of_neg]
      rw [hcs ch List.mem_cons_self]
      exact Bool.false_ne_true
  rw [trim, trimChars, hdrop _ h, hdrop _ fun ch hch => h ch (List.mem_reverse.mp hch),
    List.reverse_reverse, String.ofList_toList]

theorem isBlank_of_isDigit {ch : Char} (h : ch.isDigit = true) : Unicode.isBlank ch = false := by
  rw [Char.isDigit, Bool.and_eq_true, decide_eq_true_eq, decide_eq_true_eq] at h
  have hlow : 48 ≤ ch.toNat := h.1
  have hhigh : ch.toNat ≤ 57 := h.2
  unfold Unicode.isBlank
  simp only [Bool.or_eq_false_iff, Bool.and_eq_false_iff, decide_eq_false_iff_not]
  omega

theorem isBlank_of_mem_toDigits {n : Nat} {ch : Char} (h : ch ∈ Nat.toDigits 10 n) :
    Unicode.isBlank ch = false :=
  isBlank_of_isDigit (Nat.isDigit_of_mem_toDigits (by decide) (by decide) h)

theorem trim_toString (value : Int) : Unicode.trim (toString value) = toString value := by
  refine Unicode.trim_eq_self fun ch hch => ?_
  cases value with
  | ofNat n =>
    refine isBlank_of_mem_toDigits (n := n) ?_
    rwa [← Nat.toList_repr]
  | negSucc n =>
    change ch ∈ ("-" ++ Nat.repr (n + 1)).toList at hch
    rw [String.toList_append, Nat.toList_repr] at hch
    rcases List.mem_append.mp hch with hch | hch
    · cases List.mem_singleton.mp hch
      rfl
    · exact isBlank_of_mem_toDigits hch

theorem isBlank_of_mem_zeros {n : Nat} {ch : Char} (h : ch ∈ List.replicate n '0') :
    Unicode.isBlank ch = false := by
  rw [List.eq_of_mem_replicate h]
  rfl

namespace Floating

theorem isBlank_of_mem_text {d : Decimal} {ch : Char} (h : ch ∈ d.text.toList) :
    Unicode.isBlank ch = false := by
  unfold Decimal.text at h
  by_cases hexponent : 0 ≤ d.exponent
  · rw [if_pos hexponent, String.toList_ofList] at h
    rcases List.mem_append.mp h with h | h
    · exact isBlank_of_mem_toDigits h
    · exact isBlank_of_mem_zeros h
  · rw [if_neg hexponent] at h
    have hpadded : ∀ c ∈ List.replicate ((-d.exponent).toNat + 1 - (Nat.toDigits 10 d.digits).length)
        '0' ++ Nat.toDigits 10 d.digits, Unicode.isBlank c = false := by
      intro c hc
      rcases List.mem_append.mp hc with hc | hc
      · exact isBlank_of_mem_zeros hc
      · exact isBlank_of_mem_toDigits hc
    simp only [String.toList_ofList] at h
    split at h
    · exact hpadded ch (List.mem_of_mem_take h)
    · rcases List.mem_append.mp h with h | h
      · exact hpadded ch (List.mem_of_mem_take h)
      · rcases List.mem_cons.mp h with rfl | h
        · rfl
        · have hfraction := (List.dropWhile_sublist _).subset (List.mem_reverse.mp h)
          exact hpadded ch (List.mem_of_mem_drop (List.mem_reverse.mp hfraction))

theorem trim_print {f : Format} {x : Floating} (h : x.isFinite = true) :
    Unicode.trim (x.print f) = x.print f := by
  refine Unicode.trim_eq_self fun ch hch => ?_
  cases x with
  | nan => cases h
  | infinite s => cases h
  | finite s u =>
    have hmagnitude : ∀ c ∈ (if u = 0 then "0" else (shortest .up f u).text).toList,
        Unicode.isBlank c = false := by
      intro c hc
      by_cases hu : u = 0
      · rw [if_pos hu] at hc
        cases List.mem_singleton.mp hc
        rfl
      · rw [if_neg hu] at hc
        exact isBlank_of_mem_text hc
    cases s with
    | false => exact hmagnitude ch hch
    | true =>
      rw [print, if_pos rfl, String.toList_append] at hch
      rcases List.mem_append.mp hch with hch | hch
      · cases List.mem_singleton.mp hch
        rfl
      · exact hmagnitude ch hch

end Floating

end ItemMapper
