import Mathlib
import ItemMapper.Proofs.Number.Reading

/-!
# The grammar of numbers

An integer is written as digits after an optional sign. A number is written as an optional sign,
digits, an optional point with digits after it, and an optional power of ten; there is a digit before
or after the point. The reader of integers reads just what the first grammar gives, and the reader of
floating-point numbers what the second gives, apart from the words for special numbers.

## Main definitions

* `SpellsInt`: how an integer is written.
* `Floating.Numeral`: the parts of a number that is written with digits, and `Floating.Numeral.Spells`,
  how they are written.
* `Floating.Numeral.value`: the rational number that the parts stand for.
* `Floating.Denotes`: the rational number that a text denotes.

## Main statements

* `readInt?_eq_some_iff`, `readNat?_eq_some_iff`: which texts are read as integers.
* `Floating.read?_of_spells`, `Floating.exists_spells_of_read?`: which texts are read as numbers.
* `Floating.Denotes.unique`: a text denotes one number at most.
-/

namespace ItemMapper

/-! ### Integers -/

/-- Digits, and nothing else. -/
def AllDigits (cs : List Char) : Prop := ∀ c ∈ cs, isDigit c = true

/-- How a sign is written; none and a plus sign are the same. -/
inductive SpellsSign : Bool → List Char → Prop where
  | minus : SpellsSign true ['-']
  | plus : SpellsSign false ['+']
  | none : SpellsSign false []

/-- How an integer is written: digits after an optional sign. -/
def SpellsInt (i : Int) (cs : List Char) : Prop :=
  ∃ negative sign digits, SpellsSign negative sign ∧ digits ≠ [] ∧ AllDigits digits ∧
    cs = sign ++ digits ∧ i = if negative then -(digitsValue 0 digits : Int) else digitsValue 0 digits

/-- The integer that is read of digits after an optional sign. -/
def readSigned? (cs : List Char) : Option Int :=
  let (negative, rest) := takeSign cs
  (readDigits? rest).map fun n => if negative then -(n : Int) else n

variable {cs : List Char} {negative : Bool} {sign rest : List Char}

theorem readDigits?_eq_some_iff {n : Nat} :
    readDigits? cs = some n ↔ cs ≠ [] ∧ AllDigits cs ∧ digitsValue 0 cs = n := by
  simp only [readDigits?, List.all_eq_true]
  split
  · rename_i h
    rw [Option.some_inj]
    exact ⟨fun heq => ⟨h.1, h.2, heq⟩, fun heq => heq.2.2⟩
  · rename_i h
    refine ⟨fun heq => ?_, fun heq => absurd ⟨heq.1, heq.2.1⟩ h⟩
    cases heq

/-- A sign is taken off what does not begin with another one. -/
theorem takeSign_append (h : SpellsSign negative sign) (hrest : ∀ c ∈ rest.head?, c ≠ '-' ∧ c ≠ '+') :
    takeSign (sign ++ rest) = (negative, rest) := by
  cases h with
  | minus | plus => rfl
  | none =>
    rw [List.nil_append]
    unfold takeSign
    split
    · exact absurd rfl (hrest _ rfl).1
    · exact absurd rfl (hrest _ rfl).2
    · rfl

/-- What is taken off a text is a sign. -/
theorem exists_sign (cs : List Char) :
    ∃ sign, SpellsSign (takeSign cs).1 sign ∧ cs = sign ++ (takeSign cs).2 := by
  unfold takeSign
  split
  · exact ⟨_, .minus, rfl⟩
  · exact ⟨_, .plus, rfl⟩
  · exact ⟨_, .none, rfl⟩

theorem ne_sign_of_isDigit {c : Char} (h : isDigit c = true) : c ≠ '-' ∧ c ≠ '+' := by
  constructor <;> rintro rfl <;> cases h

theorem takeSign_append_digits (h : SpellsSign negative sign) {digits : List Char}
    (hdigits : AllDigits digits) : takeSign (sign ++ digits) = (negative, digits) :=
  takeSign_append h fun c hc => ne_sign_of_isDigit (hdigits c (List.mem_of_mem_head? hc))

theorem readSigned?_of_takeSign (h : takeSign cs = (negative, rest)) :
    readSigned? cs =
      (readDigits? rest).map fun n : Nat => if negative then -(n : Int) else n := by
  rw [readSigned?, h]
  dsimp only
  cases readDigits? rest <;> rfl

theorem readSigned?_eq_some_iff {i : Int} : readSigned? cs = some i ↔ SpellsInt i cs := by
  constructor
  · intro h
    rw [readSigned?_of_takeSign (Prod.eta _).symm, Option.map_eq_some_iff] at h
    obtain ⟨n, hn, rfl⟩ := h
    obtain ⟨hne, hdigits, rfl⟩ := readDigits?_eq_some_iff.mp hn
    obtain ⟨sign, hsign, hcs⟩ := exists_sign cs
    exact ⟨_, sign, _, hsign, hne, hdigits, hcs, rfl⟩
  · rintro ⟨negative, sign, digits, hsign, hne, hdigits, rfl, rfl⟩
    rw [readSigned?_of_takeSign (takeSign_append_digits hsign hdigits),
      readDigits?_eq_some_iff.mpr ⟨hne, hdigits, rfl⟩]
    rfl

/-- **Which texts are read as integers.** -/
theorem readInt?_eq_some_iff {text : String} {i : Int} :
    readInt? text = some i ↔ SpellsInt i text.toList := by
  have hread : readInt? text = readSigned? text.toList := rfl
  rw [hread, readSigned?_eq_some_iff]

/-- **Which texts are read as natural numbers**: those of integers without a minus sign. -/
theorem readNat?_eq_some_iff {text : String} {n : Nat} :
    readNat? text = some n ↔ SpellsInt n text.toList ∧ text.toList.head? ≠ some '-' := by
  rw [← readSigned?_eq_some_iff]
  have hmap : ∀ digits : Option Nat,
      digits = some n ↔ digits.map (fun n : Nat => (n : Int)) = some (n : Int) := by
    intro digits
    cases digits <;> simp
  unfold readNat?
  generalize text.toList = cs
  split
  next rest =>
    have hsign : takeSign ('+' :: rest) = (false, rest) := rfl
    rw [and_iff_left nofun, readSigned?_of_takeSign hsign]
    exact hmap _
  next hplus =>
    by_cases hminus : cs.head? = some '-'
    · obtain ⟨rest, hcs⟩ := List.head?_eq_some_iff.mp hminus
      refine iff_of_false (fun h => ?_) fun h => h.2 hminus
      have hdigit := (readDigits?_eq_some_iff.mp h).2.1 '-' (hcs ▸ List.mem_cons_self)
      cases hdigit
    · have hsign : takeSign cs = (false, cs) := by
        refine takeSign_append .none fun c hc => ⟨?_, ?_⟩
        · rintro rfl
          exact hminus hc
        · rintro rfl
          obtain ⟨rest, hcs⟩ := List.head?_eq_some_iff.mp hc
          exact hplus rest hcs
      rw [and_iff_left hminus, readSigned?_of_takeSign hsign]
      exact hmap _

/-! ### Numbers with a point and a power of ten -/

namespace Floating

/-- How the digits after the point are written; without digits, the point may be left out. -/
inductive SpellsFraction : List Char → List Char → Prop where
  | none : SpellsFraction [] []
  | point {fraction : List Char} (h : AllDigits fraction) : SpellsFraction fraction ('.' :: fraction)

/-- How the power of ten is written; the power of nothing is zero. -/
inductive SpellsExponent : Int → List Char → Prop where
  | none : SpellsExponent 0 []
  | letter {exponent : Int} {c : Char} {power : List Char} (hletter : c = 'e' ∨ c = 'E')
    (h : SpellsInt exponent power) : SpellsExponent exponent (c :: power)

/-- The parts of a number that is written with digits. -/
structure Numeral where
  negative : Bool
  /-- The digits before the point. -/
  whole : List Char
  /-- The digits after the point. -/
  fraction : List Char
  /-- The power of ten. -/
  exponent : Int

namespace Numeral

/-- How a number is written: an optional sign, digits, an optional point with digits after it, and an
optional power of ten, with a digit before or after the point. -/
def Spells (n : Numeral) (cs : List Char) : Prop :=
  ∃ sign point power, SpellsSign n.negative sign ∧ AllDigits n.whole ∧
    SpellsFraction n.fraction point ∧ SpellsExponent n.exponent power ∧
    (n.whole ≠ [] ∨ n.fraction ≠ []) ∧ cs = sign ++ (n.whole ++ (point ++ power))

/-- The digits before and after the point as one natural number. -/
def digits (n : Numeral) : Nat := digitsValue 0 (n.whole ++ n.fraction)

/-- The power of ten that this number is taken times. -/
def scale (n : Numeral) : Int := n.exponent - n.fraction.length

/-- The rational number that the parts stand for. -/
def value (n : Numeral) : ℚ := (if n.negative then -1 else 1) * (n.digits * 10 ^ n.scale)

/-- The number of a format that the parts are rounded to. -/
def rounded (f : Format) (n : Numeral) : Floating := ofDecimal f n.negative n.digits n.scale

end Numeral

/-- The text is a number written with digits, whose exact value is given. -/
def Denotes (text : String) (q : ℚ) : Prop := ∃ n : Numeral, n.Spells text.toList ∧ n.value = q

/-! ### What is read -/

/-- The digits after the point, and what follows them. -/
def splitPoint : List Char → List Char × List Char
  | '.' :: tail => (tail.takeWhile isDigit, tail.dropWhile isDigit)
  | tail => ([], tail)

/-- The parts of a number that is written with digits. -/
def Numeral.read? (cs : List Char) : Option Numeral :=
  let (negative, rest) := takeSign cs
  let whole := rest.takeWhile isDigit
  let (fraction, power) := splitPoint (rest.dropWhile isDigit)
  if whole ≠ [] ∨ fraction ≠ [] then
    (readExponent? power).map fun exponent => ⟨negative, whole, fraction, exponent⟩
  else none

variable {cs rest point power whole fraction sign : List Char} {negative : Bool} {exponent : Int}
  {n m : Numeral} {f : Format} {text : String}

theorem readExponent?_eq_some_iff :
    readExponent? cs = some exponent ↔ SpellsExponent exponent cs := by
  cases cs with
  | nil =>
    constructor
    · rintro ⟨⟩
      exact .none
    · rintro ⟨⟩
      rfl
  | cons c power =>
    have hread : readExponent? (c :: power) = if c = 'e' ∨ c = 'E' then readSigned? power else none :=
      rfl
    rw [hread]
    split
    · rename_i hletter
      rw [readSigned?_eq_some_iff]
      constructor
      · exact .letter hletter
      · rintro ⟨⟩
        assumption
    · rename_i hletter
      constructor
      · nofun
      · rintro ⟨⟩
        exact absurd ‹_› hletter

/-- A power of ten begins with no digit and no point. -/
theorem SpellsExponent.head (h : SpellsExponent exponent power) :
    ∀ c ∈ power.head?, isDigit c = false ∧ c ≠ '.' := by
  cases h with
  | none => nofun
  | letter hletter _ =>
    rintro c ⟨⟩
    rcases hletter with rfl | rfl <;> exact ⟨rfl, by decide⟩

theorem takeWhile_digits (hdigits : AllDigits whole) (hrest : ∀ c ∈ rest.head?, isDigit c = false) :
    (whole ++ rest).takeWhile isDigit = whole ∧ (whole ++ rest).dropWhile isDigit = rest := by
  rw [List.takeWhile_append_of_pos hdigits, List.dropWhile_append_of_pos hdigits]
  cases rest with
  | nil => exact ⟨List.append_nil _, rfl⟩
  | cons c rest =>
    have hc : ¬isDigit c = true := by
      rw [hrest c rfl]
      exact Bool.false_ne_true
    rw [List.takeWhile_cons_of_neg hc, List.dropWhile_cons_of_neg hc, List.append_nil]
    exact ⟨rfl, rfl⟩

theorem splitPoint_append (hfraction : SpellsFraction fraction point)
    (hpower : SpellsExponent exponent power) : splitPoint (point ++ power) = (fraction, power) := by
  cases hfraction with
  | none =>
    rw [List.nil_append]
    unfold splitPoint
    split
    · exact absurd rfl (hpower.head _ rfl).2
    · rfl
  | point hdigits =>
    obtain ⟨htake, hdrop⟩ := takeWhile_digits hdigits fun c hc => (hpower.head c hc).1
    rw [List.cons_append, splitPoint, htake, hdrop]

/-- What is taken off as the digits after a point is written so. -/
theorem exists_point (rest : List Char) :
    ∃ point, SpellsFraction (splitPoint rest).1 point ∧ rest = point ++ (splitPoint rest).2 := by
  unfold splitPoint
  split
  · rename_i tail
    refine ⟨_, .point fun c hc => List.mem_takeWhile_imp hc, ?_⟩
    rw [List.cons_append, List.takeWhile_append_dropWhile]
  · exact ⟨_, .none, rfl⟩

theorem SpellsFraction.head (h : SpellsFraction fraction point) (hpower : SpellsExponent exponent power) :
    ∀ c ∈ (point ++ power).head?, isDigit c = false := by
  cases h with
  | none => exact fun c hc => (hpower.head c hc).1
  | point hdigits =>
    rintro c ⟨⟩
    rfl

/-- After the sign, a number begins with a digit or a point. -/
theorem exists_head (hwhole : AllDigits whole) (hfraction : SpellsFraction fraction point)
    (hsome : whole ≠ [] ∨ fraction ≠ []) (power : List Char) :
    ∃ c tail, whole ++ (point ++ power) = c :: tail ∧ c.toNat ≤ 57 ∧ c ≠ '-' ∧ c ≠ '+' := by
  cases whole with
  | cons c tail =>
    have hdigit := hwhole c List.mem_cons_self
    exact ⟨c, _, rfl, (bounds_of_isDigit hdigit).2, ne_sign_of_isDigit hdigit⟩
  | nil =>
    cases hfraction with
    | none => simp at hsome
    | point => exact ⟨'.', _, rfl, by decide, by decide⟩

/-- **The parts of a number** are read just where they are written. -/
theorem Numeral.read?_eq_some_iff : Numeral.read? cs = some n ↔ n.Spells cs := by
  constructor
  · intro h
    obtain ⟨sign, hsign, hcs⟩ := exists_sign cs
    rw [Numeral.read?] at h
    generalize takeSign cs = taken at h hsign hcs
    obtain ⟨negative, rest⟩ := taken
    dsimp only at h
    obtain ⟨point, hpoint, hrest⟩ := exists_point (rest.dropWhile isDigit)
    split at h
    · rename_i hsome
      obtain ⟨exponent, hexponent, rfl⟩ := Option.map_eq_some_iff.mp h
      refine ⟨sign, point, _, hsign, fun c hc => List.mem_takeWhile_imp hc, hpoint,
        readExponent?_eq_some_iff.mp hexponent, hsome, ?_⟩
      rw [hcs, ← hrest, List.takeWhile_append_dropWhile]
    · cases h
  · rintro ⟨sign, point, power, hsign, hwhole, hfraction, hpower, hsome, rfl⟩
    obtain ⟨c, tail, hhead, -, hne⟩ := exists_head hwhole hfraction hsome power
    have htaken : takeSign (sign ++ (n.whole ++ (point ++ power))) =
        (n.negative, n.whole ++ (point ++ power)) := by
      refine takeSign_append hsign fun c' hc' => ?_
      rw [hhead] at hc'
      cases hc'
      exact hne
    obtain ⟨htake, hdrop⟩ := takeWhile_digits hwhole (hfraction.head hpower)
    rw [Numeral.read?, htaken]
    dsimp only
    rw [htake, hdrop, splitPoint_append hfraction hpower]
    dsimp only
    rw [if_pos hsome, readExponent?_eq_some_iff.mpr hpower]
    rfl

/-- A number written with digits is read as what its parts are rounded to. -/
theorem readMagnitude?_eq (f : Format) (h : takeSign cs = (negative, rest)) :
    readMagnitude? f negative rest = (Numeral.read? cs).map (Numeral.rounded f) := by
  have hread : readMagnitude? f negative rest = (do
      guard (rest.takeWhile isDigit ≠ [] ∨ (splitPoint (rest.dropWhile isDigit)).1 ≠ [])
      let exponent ← readExponent? (splitPoint (rest.dropWhile isDigit)).2
      pure (ofDecimal f negative (digitsValue (digitsValue 0 (rest.takeWhile isDigit))
        (splitPoint (rest.dropWhile isDigit)).1)
        (exponent - (splitPoint (rest.dropWhile isDigit)).1.length))) := rfl
  have hdigits : ∀ whole fraction : List Char,
      digitsValue (digitsValue 0 whole) fraction = digitsValue 0 (whole ++ fraction) :=
    fun whole fraction => List.foldl_append.symm
  rw [hread, hdigits, Numeral.read?, h]
  dsimp only
  unfold guard
  split
  · cases readExponent? (splitPoint (rest.dropWhile isDigit)).2 <;> rfl
  · rfl

/-- **Numbers are read**: a number that is written with digits is read as what it is rounded to. -/
theorem read?_of_spells (h : n.Spells text.toList) : read? f text = some (n.rounded f) := by
  have hparts := Numeral.read?_eq_some_iff.mpr h
  obtain ⟨sign, point, power, hsign, hwhole, hfraction, hpower, hsome, htext⟩ := h
  obtain ⟨c, tail, hhead, hlow, hne⟩ := exists_head hwhole hfraction hsome power
  have htaken : takeSign text.toList = (n.negative, c :: tail) := by
    rw [htext, hhead]
    refine takeSign_append hsign fun c' hc' => ?_
    cases hc'
    exact hne
  rw [read?_eq_readMagnitude? f htaken hlow, readMagnitude?_eq f htaken, hparts]
  rfl

/-- **Only numbers are read as finite numbers.** -/
theorem exists_spells_of_read? {x : Floating} (h : read? f text = some x) (hx : x.isFinite = true) :
    ∃ n : Numeral, n.Spells text.toList ∧ n.rounded f = x := by
  rw [read?] at h
  dsimp only at h
  split at h
  · cases h
    cases hx
  · split at h
    · cases h
      cases hx
    · rw [readMagnitude?_eq f (Prod.eta _).symm, Option.map_eq_some_iff] at h
      obtain ⟨n, hn, hrounded⟩ := h
      exact ⟨n, Numeral.read?_eq_some_iff.mp hn, hrounded⟩

/-- The parts of a number are written in one text only as those of that number. -/
theorem Numeral.Spells.unique (h : n.Spells cs) (h' : m.Spells cs) : n = m :=
  Option.some.inj ((Numeral.read?_eq_some_iff.mpr h).symm.trans (Numeral.read?_eq_some_iff.mpr h'))

/-- **A text denotes one number at most.** -/
theorem Denotes.unique {q r : ℚ} (h : Denotes text q) (h' : Denotes text r) : q = r := by
  obtain ⟨n, hn, rfl⟩ := h
  obtain ⟨m, hm, rfl⟩ := h'
  rw [hn.unique hm]

/-- One with a power of ten denotes the power. -/
theorem denotes_power {k : Int} (hk : SpellsInt k power)
    (htext : text.toList = '1' :: 'e' :: power) : Denotes text (10 ^ k) := by
  have hone : AllDigits ['1'] := List.forall_mem_singleton.mpr rfl
  refine ⟨⟨false, ['1'], [], k⟩, ⟨[], [], 'e' :: power, .none, hone, .none, .letter (.inl rfl) hk,
    .inl (List.cons_ne_nil _ _), htext⟩, ?_⟩
  have hdigits : Numeral.digits ⟨false, ['1'], [], k⟩ = 1 := rfl
  have hscale : Numeral.scale ⟨false, ['1'], [], k⟩ = k := Int.sub_zero k
  rw [Numeral.value, hdigits, hscale]
  simp

end Floating

end ItemMapper
