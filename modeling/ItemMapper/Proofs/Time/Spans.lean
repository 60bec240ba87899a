import ItemMapper.Proofs.Number.Numerals
import ItemMapper.Proofs.Number.Printing
import ItemMapper.Time.Span

/-!
# Spans of time are read back

The text of a span has a grammar: days that end at a point, hours, minutes and seconds between colons, and
a fraction of one to nine digits after a point. The readers of spans read just what the grammar gives, as
long as the span is within their bounds. A span is written in this grammar, so it is read back, and so is
everything that has been read from some other text.

The readers count in natural numbers. In words of 64 bits, where the days are multiplied and the rest is
added under a test for overflow, and the time of day is counted without one, the count is the same.

## Main definitions

* `SpellsNat`: how a natural number is written.
* `Span.Parts`, `Span.Parts.Spells`: the parts of a span, and how they are written.
* `Span.SpellsUnsigned`, `Span.SpellsSigned`: how a span is written.
* `Span.readWords?`: a span is read in words.

## Main statements

* `Span.readBody?_eq_some_iff`: which texts are read as spans without a sign.
* `Span.readBody?_eq_readWords?`: **reading in words neither overflows nor wraps**.
* `Span.spellsSigned_text`: a span is written in the grammar.
* `Span.reads_back`: **spans are read back, and nothing is read that is not written so**.
-/

namespace ItemMapper

/-- How a natural number is written: digits after an optional plus sign. -/
def SpellsNat (n : Nat) (cs : List Char) : Prop := SpellsInt n cs ∧ cs.head? ≠ some '-'

namespace Span

variable {cs before after digits : List Char} {mark : Char} {n nanos : Nat}

/-! ### Numbers between marks -/

theorem spellsNat_of_digits (hne : digits ≠ []) (hdigits : AllDigits digits) :
    SpellsNat (digitsValue 0 digits) digits := by
  refine ⟨⟨false, [], digits, .none, hne, hdigits, rfl, rfl⟩, fun hhead => ?_⟩
  exact (ne_sign_of_isDigit (hdigits _ (List.mem_of_mem_head? hhead))).1 rfl

/-- A number has no other characters than digits and a plus sign. -/
theorem notMem_of_spellsNat (h : SpellsNat n cs) (mark : Char) (hdigit : isDigit mark = false)
    (hplus : mark ≠ '+') : mark ∉ cs := by
  obtain ⟨⟨negative, sign, digits, hsign, -, hdigits, rfl, -⟩, hhead⟩ := h
  have hrest : mark ∉ digits := fun hmem => by simp [hdigits mark hmem] at hdigit
  cases hsign with
  | minus => exact absurd rfl hhead
  | plus => simp [hrest, hplus]
  | none => exact hrest

theorem readWord?_eq_some_iff : readWord? cs = some n ↔ SpellsNat n cs ∧ n < 2 ^ 64 := by
  have hread : SpellsNat n cs ↔ readNat? (String.ofList cs) = some n := by
    rw [readNat?_eq_some_iff, String.toList_ofList, SpellsNat]
  rw [hread, readWord?]
  cases readNat? (String.ofList cs) with
  | none => simp
  | some m =>
    dsimp only
    split <;> grind

theorem splitFirst?_eq_some_iff :
    splitFirst? mark cs = some (before, after) ↔ cs = before ++ mark :: after ∧ mark ∉ before := by
  induction cs generalizing before with
  | nil => simp [splitFirst?]
  | cons c cs ih =>
    rw [splitFirst?]
    split
    · cases before <;> grind
    · rw [Option.map_eq_some_iff]
      cases before <;> grind

theorem splitFirst?_eq_none_iff : splitFirst? mark cs = none ↔ mark ∉ cs := by
  induction cs with
  | nil => simp [splitFirst?]
  | cons c cs ih =>
    rw [splitFirst?]
    split
    · grind
    · rw [Option.map_eq_none_iff, ih]
      grind

/-! ### The parts of a span -/

/-- The parts of a span without its sign. -/
structure Parts where
  days : Nat
  hours : Nat
  minutes : Nat
  seconds : Nat
  /-- The fraction of a second, in nanoseconds. -/
  nanos : Nat

/-- How days are written; without days, there is no point either. -/
inductive SpellsDays : Nat → List Char → Prop where
  | none : SpellsDays 0 []
  | point {n : Nat} {days : List Char} (h : SpellsNat n days) : SpellsDays n (days ++ ['.'])

/-- How a fraction of a second is written: up to nine digits after a point, or not at all. -/
inductive SpellsNanos : Nat → List Char → Prop where
  | none : SpellsNanos 0 []
  | point {digits : List Char} (hne : digits ≠ []) (hlength : digits.length ≤ 9)
    (hdigits : AllDigits digits) :
    SpellsNanos (digitsValue 0 digits * 10 ^ (9 - digits.length)) ('.' :: digits)

namespace Parts

/-- How the parts of a span are written. -/
def Spells (p : Parts) (cs : List Char) : Prop :=
  ∃ days hours minutes seconds fraction, SpellsDays p.days days ∧ SpellsNat p.hours hours ∧
    SpellsNat p.minutes minutes ∧ SpellsNat p.seconds seconds ∧ SpellsNanos p.nanos fraction ∧
    cs = days ++ (hours ++ ':' :: (minutes ++ ':' :: (seconds ++ fraction)))

/-- The time of day is one. -/
@[mk_iff]
structure Clocked (p : Parts) : Prop where
  hours : p.hours < 24
  minutes : p.minutes < 60
  seconds : p.seconds < 60

instance (p : Parts) : Decidable p.Clocked :=
  decidable_of_iff' _ (clocked_iff p)

/-- The whole seconds of a span. -/
def wholeSeconds (p : Parts) : Nat := p.days * day + p.hours * 3600 + p.minutes * 60 + p.seconds

/-- The span in nanoseconds. -/
def total (p : Parts) : Nat := p.wholeSeconds * second + p.nanos

end Parts

variable {p : Parts}

/-! ### What is read -/

theorem readFraction?_eq_some_iff : readFraction? digits = some n ↔ SpellsNanos n ('.' :: digits) := by
  rw [readFraction?]
  constructor
  · intro h
    split at h
    · rename_i hcond
      cases h
      exact .point hcond.1 hcond.2.1 (List.all_eq_true.mp hcond.2.2)
    · cases h
  · intro h
    cases h with
    | point hne hlength hdigits => exact if_pos ⟨hne, hlength, List.all_eq_true.mpr hdigits⟩

theorem digitsValue_lt (hdigits : AllDigits digits) (start : Nat) :
    digitsValue start digits < (start + 1) * 10 ^ digits.length := by
  induction digits generalizing start with
  | nil => exact Nat.lt_of_lt_of_eq (Nat.lt_succ_self start) (Nat.mul_one _).symm
  | cons c rest ih =>
    have hrest := ih (fun d hd => hdigits d (List.mem_cons_of_mem c hd))
    have hvalue : (digitValue? c).getD 0 < 10 := by
      have hbounds := bounds_of_isDigit (hdigits c List.mem_cons_self)
      have hzero : '0'.toNat = 48 := rfl
      rw [digitValue?]
      split
      · rw [Option.getD_some]
        omega
      · decide
    calc digitsValue (start * 10 + (digitValue? c).getD 0) rest
        < (start * 10 + (digitValue? c).getD 0 + 1) * 10 ^ rest.length := hrest _
      _ ≤ (start + 1) * 10 * 10 ^ rest.length := Nat.mul_le_mul_right _ (by omega)
      _ = (start + 1) * 10 ^ (rest.length + 1) := by rw [Nat.mul_assoc, Nat.pow_succ']

/-- A fraction is less than a second. -/
theorem SpellsNanos.lt (h : SpellsNanos n cs) : n < second := by
  cases h with
  | none => decide
  | @point digits hne hlength hdigits =>
    have hvalue : digitsValue 0 digits < 10 ^ digits.length :=
      Nat.lt_of_lt_of_eq (digitsValue_lt hdigits 0) (Nat.one_mul _)
    calc digitsValue 0 digits * 10 ^ (9 - digits.length)
        < 10 ^ digits.length * 10 ^ (9 - digits.length) :=
          Nat.mul_lt_mul_of_pos_right hvalue (Nat.pow_pos (by decide))
      _ = 10 ^ 9 := by rw [← Nat.pow_add, Nat.add_sub_cancel' hlength]

/-- The seconds of a minute, and their fraction. -/
def readSecondParts? (cs : List Char) : Option (Nat × Nat) :=
  match splitFirst? '.' cs with
  | none => (readWord? cs).map fun seconds => (seconds, 0)
  | some (whole, fraction) => do
    let nanos ← readFraction? fraction
    let seconds ← readWord? whole
    pure (seconds, nanos)

/-- The parts of a span without its sign. -/
def readParts? (cs : List Char) : Option Parts := do
  let (days, clock) ← readDays? cs
  let (hours, rest) ← splitFirst? ':' clock
  let (minutes, seconds) ← splitFirst? ':' rest
  let hours ← readWord? hours
  let minutes ← readWord? minutes
  let (seconds, nanos) ← readSecondParts? seconds
  pure ⟨days, hours, minutes, seconds, nanos⟩

/-- Days are read where they are written, if they fit into a word. -/
theorem readDays?_append {days hours rest : List Char} (hdays : SpellsDays n days) (hfit : n < 2 ^ 64)
    (hcolon : ':' ∉ hours) (hpoint : '.' ∉ hours) :
    readDays? (days ++ (hours ++ ':' :: rest)) = some (n, hours ++ ':' :: rest) := by
  rw [readDays?]
  cases hdays with
  | none =>
    rw [List.nil_append, splitFirst?_eq_some_iff.mpr ⟨rfl, hcolon⟩]
    simp [splitFirst?_eq_none_iff.mpr hpoint]
  | @point _ days hdays =>
    have hcolon' : ':' ∉ days ++ '.' :: hours := by
      simp [notMem_of_spellsNat hdays ':' rfl (by decide), hcolon]
    have hpoint' := notMem_of_spellsNat hdays '.' rfl (by decide)
    have hsplit : days ++ ['.'] ++ (hours ++ ':' :: rest) = (days ++ '.' :: hours) ++ ':' :: rest := by
      simp
    rw [hsplit, splitFirst?_eq_some_iff.mpr ⟨rfl, hcolon'⟩]
    simp [splitFirst?_eq_some_iff.mpr ⟨rfl, hpoint'⟩, readWord?_eq_some_iff.mpr ⟨hdays, hfit⟩]

/-- What is read as days is written so. -/
theorem exists_days {clock : List Char} (h : readDays? cs = some (n, clock)) :
    ∃ days, SpellsDays n days ∧ n < 2 ^ 64 ∧ cs = days ++ clock := by
  obtain ⟨⟨hours, rest⟩, hcolon, h⟩ := Option.bind_eq_some_iff.mp h
  obtain ⟨rfl, -⟩ := splitFirst?_eq_some_iff.mp hcolon
  dsimp only at h
  split at h
  · cases h
    exact ⟨[], .none, by decide, rfl⟩
  · rename_i days hours' hpoint
    obtain ⟨rfl, -⟩ := splitFirst?_eq_some_iff.mp hpoint
    obtain ⟨m, hword, h⟩ := Option.bind_eq_some_iff.mp h
    cases h
    obtain ⟨hdays, hfit⟩ := readWord?_eq_some_iff.mp hword
    refine ⟨days ++ ['.'], .point hdays, hfit, ?_⟩
    simp [List.drop_append]

theorem readSecondParts?_eq_some_iff {m : Nat} :
    readSecondParts? cs = some (m, nanos) ↔ ∃ seconds fraction, SpellsNat m seconds ∧ m < 2 ^ 64 ∧
      SpellsNanos nanos fraction ∧ cs = seconds ++ fraction := by
  rw [readSecondParts?]
  constructor
  · intro h
    split at h
    · obtain ⟨m', hword, heq⟩ := Option.map_eq_some_iff.mp h
      cases heq
      obtain ⟨hspells, hfit⟩ := readWord?_eq_some_iff.mp hword
      exact ⟨cs, [], hspells, hfit, .none, (List.append_nil cs).symm⟩
    · rename_i whole fraction hpoint
      obtain ⟨n', hfraction, h⟩ := Option.bind_eq_some_iff.mp h
      obtain ⟨m', hword, h⟩ := Option.bind_eq_some_iff.mp h
      cases h
      obtain ⟨hspells, hfit⟩ := readWord?_eq_some_iff.mp hword
      exact ⟨whole, '.' :: fraction, hspells, hfit, readFraction?_eq_some_iff.mp hfraction,
        (splitFirst?_eq_some_iff.mp hpoint).1⟩
  · rintro ⟨seconds, fraction, hseconds, hfit, hfraction, rfl⟩
    have hpoint := notMem_of_spellsNat hseconds '.' rfl (by decide)
    have hword := readWord?_eq_some_iff.mpr ⟨hseconds, hfit⟩
    cases fraction with
    | nil =>
      cases hfraction
      rw [List.append_nil, splitFirst?_eq_none_iff.mpr hpoint]
      simp [hword]
    | cons c digits =>
      obtain rfl : c = '.' := by
        cases hfraction
        rfl
      rw [splitFirst?_eq_some_iff.mpr ⟨rfl, hpoint⟩]
      simp [hword, readFraction?_eq_some_iff.mpr hfraction]

/-- **Which texts have the parts of a span**: those in which the parts are written, each within a word. -/
theorem readParts?_eq_some_iff :
    readParts? cs = some p ↔ p.Spells cs ∧
      p.days < 2 ^ 64 ∧ p.hours < 2 ^ 64 ∧ p.minutes < 2 ^ 64 ∧ p.seconds < 2 ^ 64 := by
  rw [readParts?]
  constructor
  · intro h
    obtain ⟨⟨d, clock⟩, hreadDays, h⟩ := Option.bind_eq_some_iff.mp h
    obtain ⟨⟨hours, rest⟩, hfirst, h⟩ := Option.bind_eq_some_iff.mp h
    obtain ⟨⟨minutes, tail⟩, hsecond, h⟩ := Option.bind_eq_some_iff.mp h
    obtain ⟨hour, hreadHours, h⟩ := Option.bind_eq_some_iff.mp h
    obtain ⟨minute, hreadMinutes, h⟩ := Option.bind_eq_some_iff.mp h
    obtain ⟨⟨s, nanos⟩, hreadSeconds, h⟩ := Option.bind_eq_some_iff.mp h
    cases h
    obtain ⟨days, hdays, hdaysFit, rfl⟩ := exists_days hreadDays
    obtain ⟨rfl, -⟩ := splitFirst?_eq_some_iff.mp hfirst
    obtain ⟨rfl, -⟩ := splitFirst?_eq_some_iff.mp hsecond
    obtain ⟨hhours, hhoursFit⟩ := readWord?_eq_some_iff.mp hreadHours
    obtain ⟨hminutes, hminutesFit⟩ := readWord?_eq_some_iff.mp hreadMinutes
    obtain ⟨seconds, fraction, hseconds, hsecondsFit, hnanos, rfl⟩ :=
      readSecondParts?_eq_some_iff.mp hreadSeconds
    exact ⟨⟨days, hours, minutes, seconds, fraction, hdays, hhours, hminutes, hseconds, hnanos, rfl⟩,
      hdaysFit, hhoursFit, hminutesFit, hsecondsFit⟩
  · rintro ⟨⟨days, hours, minutes, seconds, fraction, hdays, hhours, hminutes, hseconds, hnanos, rfl⟩,
      hdaysFit, hhoursFit, hminutesFit, hsecondsFit⟩
    have hcolon := notMem_of_spellsNat hhours ':' rfl (by decide)
    have hcolon' := notMem_of_spellsNat hminutes ':' rfl (by decide)
    have hpoint := notMem_of_spellsNat hhours '.' rfl (by decide)
    rw [readDays?_append hdays hdaysFit hcolon hpoint]
    simp [splitFirst?_eq_some_iff.mpr ⟨rfl, hcolon⟩, splitFirst?_eq_some_iff.mpr ⟨rfl, hcolon'⟩,
      readWord?_eq_some_iff.mpr ⟨hhours, hhoursFit⟩, readWord?_eq_some_iff.mpr ⟨hminutes, hminutesFit⟩,
      readSecondParts?_eq_some_iff.mpr ⟨seconds, fraction, hseconds, hsecondsFit, hnanos, rfl⟩]

/-- The span of the parts in nanoseconds, if they are within their bounds. -/
def Parts.total? (p : Parts) : Option Nat :=
  if p.Clocked ∧ p.total < 2 ^ 64 * second then some p.total else none

theorem readSeconds?_eq : readSeconds? cs = (readSecondParts? cs).bind fun (seconds, nanos) =>
    if seconds < 60 then some (seconds * second + nanos) else none := by
  rw [readSeconds?, readSecondParts?]
  cases splitFirst? '.' cs with
  | none => cases hword : readWord? cs <;> simp [hword]
  | some parted =>
    obtain ⟨whole, fraction⟩ := parted
    cases hfraction : readFraction? fraction with
    | none => simp [hfraction]
    | some nanos => cases hword : readWord? whole <;> simp [hfraction, hword]

theorem readBody?_eq : readBody? cs = (readParts? cs).bind Parts.total? := by
  simp only [readBody?, readParts?, readSeconds?_eq, Option.bind_eq_bind, Option.bind_assoc]
  refine Option.bind_congr fun ⟨days, clock⟩ _ => Option.bind_congr fun ⟨hours, rest⟩ _ =>
    Option.bind_congr fun ⟨minutes, tail⟩ _ => Option.bind_congr fun hour _ =>
      Option.bind_congr fun minute _ => Option.bind_congr fun ⟨seconds, nanos⟩ _ => ?_
  have htotal : (days * day + hour * 3600 + minute * 60) * second + (seconds * second + nanos) =
      Parts.total ⟨days, hour, minute, seconds, nanos⟩ := by
    rw [Parts.total, Parts.wholeSeconds, Nat.add_mul _ seconds, ← Nat.add_assoc]
  have hclocked := Parts.clocked_iff ⟨days, hour, minute, seconds, nanos⟩
  by_cases hseconds : seconds < 60
  · simp [hseconds, hclocked, htotal, Parts.total?, ite_and]
  · simp [hseconds, hclocked, Parts.total?]

/-- How a span without its sign is written. -/
def SpellsUnsigned (n : Nat) (cs : List Char) : Prop := ∃ p : Parts, p.Spells cs ∧ p.Clocked ∧ p.total = n

/-- **Which texts are read as spans without a sign**: those in which a span is written that is within the
bounds. -/
theorem readBody?_eq_some_iff :
    readBody? cs = some n ↔ SpellsUnsigned n cs ∧ n < 2 ^ 64 * second := by
  rw [readBody?_eq, Option.bind_eq_some_iff]
  constructor
  · rintro ⟨p, hread, htotal⟩
    rw [Parts.total?] at htotal
    split at htotal
    · rename_i hbounds
      cases htotal
      exact ⟨⟨p, (readParts?_eq_some_iff.mp hread).1, hbounds.1, rfl⟩, hbounds.2⟩
    · cases htotal
  · rintro ⟨⟨p, hspells, hclocked, rfl⟩, hbound⟩
    have hdays : p.days < 2 ^ 64 := by
      simp only [Parts.total, Parts.wholeSeconds, second, day] at hbound
      omega
    have hfits : p.hours < 2 ^ 64 ∧ p.minutes < 2 ^ 64 ∧ p.seconds < 2 ^ 64 := by
      obtain ⟨hhours, hminutes, hseconds⟩ := hclocked
      omega
    exact ⟨p, readParts?_eq_some_iff.mpr ⟨hspells, hdays, hfits⟩, if_pos ⟨hclocked, hbound⟩⟩

/-! ### Reading in words -/

/-- A product of words, if it does not overflow. -/
def mulWord? {w : Nat} (x y : BitVec w) : Option (BitVec w) :=
  if x.umulOverflow y then none else some (x * y)

/-- A sum of words, if it does not overflow. -/
def addWord? {w : Nat} (x y : BitVec w) : Option (BitVec w) :=
  if x.uaddOverflow y then none else some (x + y)

/-- The whole seconds and the nanoseconds of the parts, in words. Only the days are multiplied and the rest is
added to them under a test for overflow. -/
def Parts.words? (p : Parts) : Option (BitVec 64 × BitVec 32) :=
  if p.Clocked then do
    let days ← mulWord? (.ofNat 64 p.days) (.ofNat 64 day)
    let seconds ← addWord? days
      (.ofNat 64 p.hours * .ofNat 64 3600 + .ofNat 64 p.minutes * .ofNat 64 60 + .ofNat 64 p.seconds)
    pure (seconds, .ofNat 32 p.nanos)
  else none

/-- Reads the whole seconds and the nanoseconds of a span without its sign, in words. -/
def readWords? (cs : List Char) : Option (BitVec 64 × BitVec 32) := (readParts? cs).bind Parts.words?

theorem mulWord?_eq_some_iff {w : Nat} {x y z : BitVec w} :
    mulWord? x y = some z ↔ z.toNat = x.toNat * y.toNat := by
  rw [mulWord?]
  split
  · rename_i hover
    rw [BitVec.umulOverflow, decide_eq_true_eq] at hover
    have hlt := z.isLt
    exact iff_of_false nofun (by omega)
  · rename_i hover
    rw [Option.some_inj, ← BitVec.toNat_inj, BitVec.toNat_mul_of_not_umulOverflow hover]
    exact eq_comm

theorem addWord?_eq_some_iff {w : Nat} {x y z : BitVec w} :
    addWord? x y = some z ↔ z.toNat = x.toNat + y.toNat := by
  rw [addWord?]
  split
  · rename_i hover
    rw [BitVec.uaddOverflow, decide_eq_true_eq] at hover
    have hlt := z.isLt
    exact iff_of_false nofun (by omega)
  · rename_i hover
    rw [Option.some_inj, ← BitVec.toNat_inj, BitVec.toNat_add_of_not_uaddOverflow hover]
    exact eq_comm

/-- The time of day does not wrap. -/
theorem Parts.Clocked.toNat_words (h : p.Clocked) :
    (.ofNat 64 p.hours * .ofNat 64 3600 + .ofNat 64 p.minutes * .ofNat 64 60 + .ofNat 64 p.seconds :
      BitVec 64).toNat =
      p.hours * 3600 + p.minutes * 60 + p.seconds := by
  obtain ⟨hhours, hminutes, hseconds⟩ := h
  simp only [BitVec.toNat_add, BitVec.toNat_mul, BitVec.toNat_ofNat]
  omega

/-- The words of the parts, of which each fits into one, are their whole seconds and nanoseconds. -/
theorem Parts.words?_eq_some_iff (hdays : p.days < 2 ^ 64) {s : BitVec 64} {f : BitVec 32} :
    p.words? = some (s, f) ↔ p.Clocked ∧ s.toNat = p.wholeSeconds ∧ f = .ofNat 32 p.nanos := by
  rw [words?]
  split
  · rename_i hclocked
    rw [and_iff_right hclocked]
    have hproduct : ∀ z : BitVec 64, mulWord? (.ofNat 64 p.days) (.ofNat 64 day) = some z ↔
        z.toNat = p.days * day := by
      intro z
      rw [mulWord?_eq_some_iff, BitVec.toNat_ofNat, Nat.mod_eq_of_lt hdays]
      rfl
    simp only [Option.bind_eq_bind, Option.bind_eq_some_iff, hproduct, addWord?_eq_some_iff,
      hclocked.toNat_words, Option.pure_def, Option.some_inj, Prod.mk.injEq, wholeSeconds]
    constructor
    · rintro ⟨d, hd, t, ht, rfl, rfl⟩
      exact ⟨by omega, rfl⟩
    · rintro ⟨hs, rfl⟩
      have hlt := s.isLt
      have hd : (BitVec.ofNat 64 (p.days * day)).toNat = p.days * day := by
        rw [BitVec.toNat_ofNat]
        exact Nat.mod_eq_of_lt (by omega)
      exact ⟨.ofNat 64 (p.days * day), hd, s, by omega, rfl, rfl⟩
  · rename_i hclocked
    exact iff_of_false nofun fun h => hclocked h.1

/-- A fraction is less than a second. -/
theorem Parts.Spells.nanos_lt (h : p.Spells cs) : p.nanos < second := by
  obtain ⟨_, _, _, _, _, -, -, -, -, hnanos, -⟩ := h
  exact hnanos.lt

/-- **Reading in words neither overflows nor wraps**: it fails where the reader does, and gives the same
span otherwise. -/
theorem readBody?_eq_readWords? :
    readBody? cs = (readWords? cs).map fun (seconds, nanos) => seconds.toNat * second + nanos.toNat := by
  rw [readBody?_eq, readWords?, Option.map_bind]
  refine Option.bind_congr fun p hread => ?_
  obtain ⟨hspells, hdays, -⟩ := readParts?_eq_some_iff.mp hread
  have hnanos := hspells.nanos_lt
  have hwords := @p.words?_eq_some_iff hdays
  rw [Parts.total?]
  split
  · rename_i hbounds
    obtain ⟨hclocked, hbound⟩ := hbounds
    have hwhole : p.wholeSeconds < 2 ^ 64 := by
      rw [Parts.total] at hbound
      simp only [second] at hbound
      omega
    have hseconds : (BitVec.ofNat 64 p.wholeSeconds).toNat = p.wholeSeconds := by
      rw [BitVec.toNat_ofNat, Nat.mod_eq_of_lt hwhole]
    have hfraction : (BitVec.ofNat 32 p.nanos).toNat = p.nanos := by
      rw [BitVec.toNat_ofNat]
      exact Nat.mod_eq_of_lt (Nat.lt_trans hnanos (by decide))
    simp only [Function.comp_apply, hwords.mpr ⟨hclocked, hseconds, rfl⟩, Option.map_some, hseconds,
      hfraction, Parts.total]
  · rename_i hbounds
    symm
    rw [Function.comp_apply, Option.map_eq_none_iff, Option.eq_none_iff_forall_ne_some]
    rintro ⟨s, f⟩ hsome
    obtain ⟨hclocked, hs, -⟩ := hwords.mp hsome
    have hlt := s.isLt
    refine hbounds ⟨hclocked, ?_⟩
    rw [Parts.total]
    simp only [second] at hnanos ⊢
    omega

/-! ### What is written -/

theorem toList_padded (width n : Nat) : (padded width n).toList =
    List.replicate (width - (Nat.toDigits 10 n).length) '0' ++ Nat.toDigits 10 n := by
  rw [padded, Nat.toString_eq_ofList_toDigits]
  simp only [String.toList_append, String.toList_ofList, String.length_ofList]

theorem allDigits_padded (width n : Nat) : AllDigits (padded width n).toList := by
  rw [toList_padded]
  refine List.forall_mem_append.mpr ⟨fun c hc => ?_, fun c => isDigit_of_mem_toDigits⟩
  rw [List.eq_of_mem_replicate hc]
  rfl

theorem digitsValue_padded (width n : Nat) : digitsValue 0 (padded width n).toList = n := by
  rw [toList_padded, Floating.digitsValue_append, Floating.digitsValue_zeros, Nat.zero_mul,
    digitsValue_toDigits]

theorem padded_ne_nil (width n : Nat) : (padded width n).toList ≠ [] := by
  rw [toList_padded]
  exact List.append_ne_nil_of_right_ne_nil _ (toDigits_ne_nil n)

theorem spellsNat_padded (width n : Nat) : SpellsNat n (padded width n).toList := by
  have hspells := spellsNat_of_digits (padded_ne_nil width n) (allDigits_padded width n)
  rwa [digitsValue_padded] at hspells

theorem length_padded {width : Nat} (hwidth : 0 < width) (h : n < 10 ^ width) :
    (padded width n).toList.length = width := by
  have hle := (Nat.length_toDigits_le_iff (by decide) hwidth).mpr h
  rw [toList_padded, List.length_append, List.length_replicate]
  omega

/-- The parts of a span. -/
def Parts.ofNanos (nanos : Nat) : Parts where
  days := nanos / second / day
  hours := nanos / second % day / 3600
  minutes := nanos / second % day % 3600 / 60
  seconds := nanos / second % day % 60
  nanos := nanos % second

theorem Parts.clocked_ofNanos (nanos : Nat) : (ofNanos nanos).Clocked := by
  constructor <;> simp only [ofNanos, day] <;> omega

theorem Parts.total_ofNanos (nanos : Nat) : (ofNanos nanos).total = nanos := by
  simp only [total, wholeSeconds, ofNanos, day, second]
  omega

theorem spellsDays_text (n : Nat) :
    SpellsDays n (if 0 < n then toString n ++ "." else "").toList := by
  split
  · have hdigits : SpellsNat n (Nat.toDigits 10 n) := by
      have hspells := spellsNat_of_digits (toDigits_ne_nil n) fun c => isDigit_of_mem_toDigits
      rwa [digitsValue_toDigits] at hspells
    rw [String.toList_append, Nat.toString_eq_repr, Nat.toList_repr]
    exact .point hdigits
  · obtain rfl : n = 0 := by omega
    exact .none

theorem spellsNanos_text (h : n < second) :
    SpellsNanos n (if 0 < n then "." ++ padded 9 n else "").toList := by
  split
  · have hlength : (padded 9 n).toList.length = 9 := length_padded (by decide) h
    have hspells := SpellsNanos.point (padded_ne_nil 9 n) hlength.le (allDigits_padded 9 n)
    rw [digitsValue_padded, hlength, Nat.sub_self, Nat.pow_zero, Nat.mul_one] at hspells
    rw [String.toList_append]
    exact hspells
  · obtain rfl : n = 0 := by omega
    exact .none

theorem Parts.spells_ofNanos (nanos : Nat) : (ofNanos nanos).Spells (unsignedText nanos).toList := by
  have hcolon : ":".toList = [':'] := rfl
  refine ⟨_, _, _, _, _, spellsDays_text _, spellsNat_padded 2 _, spellsNat_padded 2 _,
    spellsNat_padded 2 _, spellsNanos_text (Nat.mod_lt _ (by decide)), ?_⟩
  simp only [unsignedText, String.toList_append, hcolon, List.append_assoc, List.cons_append,
    List.nil_append, ofNanos]
  rfl

/-- **A span without its sign is written in the grammar.** -/
theorem spellsUnsigned_text (nanos : Nat) : SpellsUnsigned nanos (unsignedText nanos).toList :=
  ⟨.ofNanos nanos, Parts.spells_ofNanos nanos, Parts.clocked_ofNanos nanos, Parts.total_ofNanos nanos⟩

/-! ### Signs -/

/-- How a span is written. -/
inductive SpellsSigned : Int → List Char → Prop where
  | plain {n : Nat} {cs : List Char} (h : SpellsUnsigned n cs) : SpellsSigned n cs
  | minus {n : Nat} {cs : List Char} (h : SpellsUnsigned n cs) : SpellsSigned (-n) ('-' :: cs)

theorem spellsSigned_text (i : Int) : SpellsSigned i (text i).toList := by
  rw [text]
  split
  · rename_i hneg
    have hspells := SpellsSigned.minus (spellsUnsigned_text i.natAbs)
    rw [Int.ofNat_natAbs_of_nonpos hneg.le, Int.neg_neg] at hspells
    rwa [String.toList_append]
  · rename_i hpos
    have hspells := SpellsSigned.plain (spellsUnsigned_text i.natAbs)
    rw [Int.natAbs_of_nonneg (Int.not_lt.mp hpos)] at hspells
    rwa [String.empty_append]

theorem text_natCast (n : Nat) : text n = unsignedText n := by
  rw [text, if_neg (Int.not_lt.mpr (Int.natCast_nonneg n)), String.empty_append, Int.natAbs_natCast]

/-- What is written without a sign does not begin with one. -/
theorem SpellsUnsigned.head?_ne (h : SpellsUnsigned n cs) : cs.head? ≠ some '-' := by
  have hnumber : ∀ {m number rest}, SpellsNat m number → (number ++ rest).head? ≠ some '-' := by
    rintro m number rest ⟨⟨-, sign, digits, -, hne, -, rfl, -⟩, hhead⟩
    rwa [List.head?_append_of_ne_nil _ (List.append_ne_nil_of_right_ne_nil sign hne)]
  obtain ⟨⟨d, hour, minute, s, nanos⟩,
    ⟨days, hours, minutes, seconds, fraction, hdays, hhours, -, -, -, rfl⟩, -, -⟩ := h
  cases hdays with
  | none =>
    rw [List.nil_append]
    exact hnumber hhours
  | point hdays =>
    rw [List.append_assoc]
    exact hnumber hdays

theorem readUnsigned?_eq_some_iff {source : String} :
    readUnsigned? source = some n ↔ SpellsUnsigned n source.toList ∧ n < 2 ^ 64 * second := by
  rw [readUnsigned?]
  split
  · rename_i heq
    refine iff_of_false nofun fun h => h.1.head?_ne ?_
    rw [heq]
    rfl
  · exact readBody?_eq_some_iff

/-- A span is written behind the minus sign that is taken off it. -/
theorem spellsSigned_iff {negative : Bool} {body : List Char} {i : Int}
    (h : (match cs with
      | '-' :: rest => (true, rest)
      | cs => (false, cs)) = (negative, body)) :
    SpellsSigned i cs ↔ ∃ n : Nat, SpellsUnsigned n body ∧ i = if negative then -(n : Int) else n := by
  split at h
  · cases h
    constructor
    · rintro (hplain | hminus)
      · exact absurd rfl hplain.head?_ne
      · exact ⟨_, hminus, rfl⟩
    · rintro ⟨n, hspells, rfl⟩
      exact .minus hspells
  · rename_i hplain
    cases h
    constructor
    · rintro (hspells | _)
      · exact ⟨_, hspells, rfl⟩
      · exact absurd rfl (hplain _)
    · rintro ⟨n, hspells, rfl⟩
      exact .plain hspells

/-- **Which texts are read as signed spans.** -/
theorem readSigned?_eq_some_iff {source : String} {i : Int} :
    readSigned? source = some i ↔ SpellsSigned i source.toList ∧ i.natAbs ≤ maxSigned := by
  rw [readSigned?]
  split
  rename_i negative body htaken
  rw [spellsSigned_iff htaken]
  constructor
  · intro h
    split at h
    · rename_i nanos hread
      split at h
      · rename_i hbound
        cases h
        exact ⟨⟨nanos, (readBody?_eq_some_iff.mp hread).1, rfl⟩, by split <;> omega⟩
      · cases h
    · cases h
  · rintro ⟨⟨n, hspells, rfl⟩, hbound⟩
    have hn : n ≤ maxSigned := by
      split at hbound <;> omega
    have hmax : maxSigned < 2 ^ 64 * second := by decide
    rw [readBody?_eq_some_iff.mpr ⟨hspells, Nat.lt_of_le_of_lt hn hmax⟩]
    exact if_pos hn

/-! ### The texts of spans -/

/-- **Spans are read back, and nothing is read that is not written so.** Every unsigned span of whole seconds
below 2^64, and every signed span of up to 2^63 - 1 milliseconds either way, is read back from its text. A
text is read as just the span that is written in it, if this is within the bounds, and fails otherwise; in
words, reading neither overflows nor wraps. What is read from any text is read again from its own. -/
theorem reads_back :
    (∀ nanos : Nat, nanos < 2 ^ 64 * second → readUnsigned? (text nanos) = some nanos) ∧
    (∀ nanos : Int, nanos.natAbs ≤ maxSigned → readSigned? (text nanos) = some nanos) ∧
    (∀ source nanos, readUnsigned? source = some nanos ↔
      SpellsUnsigned nanos source.toList ∧ nanos < 2 ^ 64 * second) ∧
    (∀ source nanos, readSigned? source = some nanos ↔
      SpellsSigned nanos source.toList ∧ nanos.natAbs ≤ maxSigned) ∧
    (∀ cs, readBody? cs =
      (readWords? cs).map fun (seconds, nanos) => seconds.toNat * second + nanos.toNat) ∧
    (∀ source nanos, readUnsigned? source = some nanos → readUnsigned? (text nanos) = some nanos) ∧
    ∀ source nanos, readSigned? source = some nanos → readSigned? (text nanos) = some nanos := by
  have hunsigned : ∀ nanos : Nat, nanos < 2 ^ 64 * second → readUnsigned? (text nanos) = some nanos := by
    intro nanos hbound
    rw [text_natCast]
    exact readUnsigned?_eq_some_iff.mpr ⟨spellsUnsigned_text nanos, hbound⟩
  have hsigned : ∀ nanos : Int, nanos.natAbs ≤ maxSigned → readSigned? (text nanos) = some nanos :=
    fun nanos hbound => readSigned?_eq_some_iff.mpr ⟨spellsSigned_text nanos, hbound⟩
  exact ⟨hunsigned, hsigned, fun _ _ => readUnsigned?_eq_some_iff, fun _ _ => readSigned?_eq_some_iff,
    fun _ => readBody?_eq_readWords?,
    fun _ nanos hread => hunsigned nanos (readUnsigned?_eq_some_iff.mp hread).2,
    fun _ nanos hread => hsigned nanos (readSigned?_eq_some_iff.mp hread).2⟩

/-- The largest spans, the smallest one, and a fraction below zero. -/
theorem reads_back_atBounds :
    readUnsigned? (text (2 ^ 64 * second - 1 : Nat)) = some (2 ^ 64 * second - 1) ∧
      readSigned? (text maxSigned) = some (maxSigned : Int) ∧
      readSigned? (text (-maxSigned)) = some (-maxSigned : Int) ∧
      readSigned? (text (-1500000000)) = some (-1500000000) := by
  obtain ⟨hunsigned, hsigned, -⟩ := reads_back
  exact ⟨hunsigned _ (by decide), hsigned _ (by decide), hsigned _ (by decide), hsigned _ (by decide)⟩

example : text (-maxSigned) = "-106751991167.07:12:55.807000000" := by decide

end Span

end ItemMapper
