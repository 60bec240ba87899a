import Mathlib.Data.List.TakeWhile
import ItemMapper.Number.Shortest
import ItemMapper.Proofs.Number.Decimal

/-!
# Reading plain decimals

A run of digits, perhaps with a sign in front and with a point between two of them, is read as the decimal
that it writes down. No such text is one of the words that stand for special numbers.

## Main definitions

* `Floating.plain`: digits with a point between them.
* `Floating.signed`: a minus sign in front of what stands for a negative number.

## Main statements

* `Floating.read?_plain`: the number that a plain decimal is read as.
* `Floating.read?_toString`: an integer read as a number of a format.
-/

namespace ItemMapper

theorem bounds_of_isDigit {c : Char} (h : isDigit c = true) : 48 ≤ c.toNat ∧ c.toNat ≤ 57 := by
  unfold isDigit digitValue? at h
  split at h
  · rename_i hbounds
    exact hbounds
  · cases h

theorem takeSign_cons_digit {c : Char} (h : isDigit c = true) (cs : List Char) :
    takeSign (c :: cs) = (false, c :: cs) := by
  unfold takeSign
  split
  · rename_i heq
    cases heq
    cases h
  · rename_i heq
    cases heq
    cases h
  · rfl

namespace Floating

/-- Digits with a point in front of the last ones, if there are any last ones. -/
def plain (whole fraction : List Char) : List Char :=
  if fraction = [] then whole else whole ++ '.' :: fraction

/-- What stands for a number, after the sign of a negative one. -/
def signed (negative : Bool) (cs : List Char) : List Char := if negative then '-' :: cs else cs

theorem takeSign_signed {c : Char} (h : isDigit c = true) (negative : Bool) (cs : List Char) :
    takeSign (signed negative (c :: cs)) = (negative, c :: cs) := by
  cases negative with
  | true => rfl
  | false => exact takeSign_cons_digit h cs

/-- A text that begins with a digit or a point is no word that begins with a letter. -/
theorem lowered_ne {c letter : Char} (hc : c.toNat ≤ 57) (hletter : 57 < letter.toNat)
    (cs letters : List Char) : String.ofList (lowered (c :: cs)) ≠ String.ofList (letter :: letters) := by
  have hlower : c.toLower = c := by
    refine dif_neg fun hupper => ?_
    have hlow : 65 ≤ c.toNat := hupper.1
    omega
  intro heq
  have hlists := congrArg String.toList heq
  rw [String.toList_ofList, String.toList_ofList, lowered, List.map_cons, hlower] at hlists
  cases (List.cons.inj hlists).1
  omega

/-- What begins with a digit or a point after its sign is read as a number written with digits. -/
theorem read?_eq_readMagnitude? (f : Format) {text : String} {negative : Bool} {c : Char}
    {rest : List Char} (hsign : takeSign text.toList = (negative, c :: rest)) (hc : c.toNat ≤ 57) :
    read? f text = readMagnitude? f negative (c :: rest) := by
  have hnan : String.ofList (lowered (c :: rest)) ≠ "nan" := lowered_ne hc (by decide) rest _
  have hinf : String.ofList (lowered (c :: rest)) ≠ "inf" := lowered_ne hc (by decide) rest _
  have hinfinity : String.ofList (lowered (c :: rest)) ≠ "infinity" :=
    lowered_ne hc (by decide) rest _
  rw [read?, hsign]
  simp only [hnan, hinf, hinfinity, or_self, if_false]

variable {whole fraction : List Char}

theorem readMagnitude?_plain (f : Format) (negative : Bool) (hne : whole ≠ [])
    (hwhole : ∀ c ∈ whole, isDigit c = true) (hfraction : ∀ c ∈ fraction, isDigit c = true) :
    readMagnitude? f negative (plain whole fraction) =
      some (ofDecimal f negative (digitsValue 0 (whole ++ fraction)) (-fraction.length)) := by
  have hvalue : digitsValue 0 (whole ++ fraction) = digitsValue (digitsValue 0 whole) fraction :=
    List.foldl_append
  have hexponent : readExponent? [] = some 0 := rfl
  rw [hvalue, ← Int.zero_sub]
  unfold plain readMagnitude?
  by_cases hnil : fraction = []
  · have htake : whole.takeWhile isDigit = whole := List.takeWhile_eq_self_iff.mpr hwhole
    have hdrop : whole.dropWhile isDigit = [] := List.dropWhile_eq_nil_iff.mpr hwhole
    rw [if_pos hnil, htake, hdrop, hnil]
    simp only [guard, if_pos (Or.inl hne), hexponent]
    rfl
  · have htake : (whole ++ '.' :: fraction).takeWhile isDigit = whole := by
      rw [List.takeWhile_append_of_pos hwhole, List.takeWhile_cons_of_neg (by decide), List.append_nil]
    have hdrop : (whole ++ '.' :: fraction).dropWhile isDigit = '.' :: fraction := by
      rw [List.dropWhile_append_of_pos hwhole, List.dropWhile_cons_of_neg (by decide)]
    have hrest : fraction.takeWhile isDigit = fraction := List.takeWhile_eq_self_iff.mpr hfraction
    have hend : fraction.dropWhile isDigit = [] := List.dropWhile_eq_nil_iff.mpr hfraction
    rw [if_neg hnil, htake, hdrop]
    simp only [guard, hrest, hend, if_pos (Or.inl hne), hexponent]
    rfl

/-- A plain decimal is read as what it writes down. -/
theorem read?_plain (f : Format) (negative : Bool) (hne : whole ≠ [])
    (hwhole : ∀ c ∈ whole, isDigit c = true) (hfraction : ∀ c ∈ fraction, isDigit c = true) :
    read? f (String.ofList (signed negative (plain whole fraction))) =
      some (ofDecimal f negative (digitsValue 0 (whole ++ fraction)) (-fraction.length)) := by
  have hmagnitude := readMagnitude?_plain f negative hne hwhole hfraction
  obtain ⟨c, tail, rfl⟩ := List.exists_cons_of_ne_nil hne
  have hdigit := hwhole c List.mem_cons_self
  obtain ⟨rest, hcons⟩ : ∃ rest, plain (c :: tail) fraction = c :: rest := by
    unfold plain
    split
    · exact ⟨tail, rfl⟩
    · exact ⟨tail ++ '.' :: fraction, rfl⟩
  rw [hcons] at hmagnitude ⊢
  have hsign : takeSign (String.ofList (signed negative (c :: rest))).toList = (negative, c :: rest) := by
    rw [String.toList_ofList, takeSign_signed hdigit]
  rw [read?_eq_readMagnitude? f hsign (bounds_of_isDigit hdigit).2]
  exact hmagnitude

theorem length_toString (n : Nat) : (toString n).length = decimalLength n := by
  rw [Nat.toString_eq_ofList_toDigits, String.length_ofList]
  rfl

theorem toList_toString (i : Int) :
    (toString i).toList = signed (i < 0) (Nat.toDigits 10 i.natAbs) := by
  cases i with
  | ofNat n =>
    have hsign : decide (Int.ofNat n < 0) = false := decide_eq_false (Int.not_lt.mpr (Int.natCast_nonneg n))
    rw [hsign]
    exact Nat.toList_repr
  | negSucc n =>
    have hsign : decide (Int.negSucc n < 0) = true := decide_eq_true (Int.negSucc_lt_zero n)
    rw [hsign]
    change ("-" ++ Nat.repr (n + 1)).toList = _
    rw [String.toList_append, Nat.toList_repr]
    rfl

/-- An integer is read as a number of a format. -/
theorem read?_toString (f : Format) (i : Int) :
    read? f (toString i) = some (ofDecimal f (i < 0) i.natAbs 0) := by
  have hread := read?_plain f (i < 0) (toDigits_ne_nil i.natAbs)
    (fun c hc => isDigit_of_mem_toDigits hc) fun c hc => absurd hc List.not_mem_nil
  rw [List.append_nil, digitsValue_toDigits] at hread
  rw [← String.ofList_toList (s := toString i), toList_toString]
  exact hread

end Floating

end ItemMapper
