import ItemMapper.Expression.Clauses
import ItemMapper.Proofs.Expression.Names

/-!
# The verbs of a text

The verbs of a text that is put together from pieces are those of the pieces, one after the other: a
blank ends a word, and a piece whose parentheses are closed leaves the depth as it was. Inside
parentheses there are no verbs at all.

## Main definitions

* `Clauses.rise`: how many more parentheses a text opens than it closes.
* `Clauses.verbsFrom`: the verbs of a text that begins at a position and a depth.
* `Clauses.BlanksFrom`: a text whose blanks all stand at some depth.

## Main statements

* `Clauses.verbsFrom_append_blank`: the verbs on both sides of white space.
* `Clauses.isWordStart_of_mem_verbsFrom`: a verb stands at the front or behind a blank.
* `Clauses.verbsAmong_of_blanksFrom`: there are no verbs inside parentheses.
-/

namespace ItemMapper

open Unicode (isBlank)

/-- A verb has letters only. -/
theorem UpdateVerb.isAlpha_of_ofWord? {word : String} {verb : UpdateVerb}
    (h : UpdateVerb.ofWord? word = some verb) {c : Char} (hc : c ∈ word.toList) :
    c.isAlpha = true := by
  have hsame : sameIgnoringCase verb.keyword word = true := by
    simpa using List.find?_some h
  have hupper := congrArg String.toList (map_toUpper_of_sameIgnoringCase hsame)
  rw [String.toList_map, String.toList_map] at hupper
  have hmem : c.toUpper ∈ verb.keyword.toList.map Char.toUpper := by
    rw [← hupper]
    exact List.mem_map_of_mem hc
  have hletters : (verb.keyword.toList.map Char.toUpper).all Char.isUpper = true := by
    cases verb <;> rfl
  rw [Char.isAlpha, Bool.or_eq_true]
  by_cases hlower : c.isLower = true
  · exact .inr hlower
  · have hsame := List.all_eq_true.mp hletters _ hmem
    rw [Char.toUpper_eq_of_not_isLower hlower] at hsame
    exact .inl hsame

/-- The verb of a word, by its letters. -/
def UpdateVerb.ofLetters? (word : List Char) : Option UpdateVerb :=
  UpdateVerb.all.find? fun verb => verb.keyword.toList.map Char.toLower == word.map Char.toLower

theorem UpdateVerb.ofWord?_ofList (word : List Char) :
    UpdateVerb.ofWord? (String.ofList word) = ofLetters? word := by
  unfold ofWord? ofLetters?
  congr 1
  funext verb
  rw [sameIgnoringCase, lowerAscii, lowerAscii, Bool.eq_iff_iff, beq_iff_eq, beq_iff_eq,
    ← String.toList_inj, String.toList_map, String.toList_map, String.toList_ofList]

namespace Clauses

/-! ### Depth -/

/-- What a character does to the depth. -/
def nesting (c : Char) : Int :=
  if c = '(' ∨ c = '[' then 1 else if c = ')' ∨ c = ']' then -1 else 0

/-- How many more parentheses and brackets a text opens than it closes. -/
def rise (text : List Char) : Int := (text.map nesting).sum

theorem rise_nil : rise [] = 0 := rfl

theorem rise_cons (c : Char) (text : List Char) : rise (c :: text) = nesting c + rise text := by
  rw [rise, List.map_cons, List.sum_cons, rise]

theorem rise_append (xs ys : List Char) : rise (xs ++ ys) = rise xs + rise ys := by
  rw [rise, List.map_append, List.sum_append, rise, rise]

theorem depthAfter_eq (depth : Int) (text : List Char) :
    depthAfter depth text = depth + rise text := by
  induction text generalizing depth with
  | nil => exact (Int.add_zero depth).symm
  | cons c text ih =>
    have hstep : depthAfter depth (c :: text) = depthAfter (depth + nesting c) text := by
      unfold depthAfter nesting
      rw [List.foldl_cons]
      congr 1
      split
      · rfl
      · split
        · rfl
        · exact (Int.add_zero depth).symm
    rw [hstep, ih, rise_cons, Int.add_assoc]

/-- Letters, digits and underscores do not change the depth. -/
theorem nesting_of_isNameChar {c : Char} (h : isNameChar c = true) : nesting c = 0 := by
  unfold nesting
  rw [if_neg, if_neg]
  · rintro (rfl | rfl) <;> cases h
  · rintro (rfl | rfl) <;> cases h

/-- Letters, digits and underscores are no blanks. -/
theorem isBlank_of_isNameChar {c : Char} (h : isNameChar c = true) : isBlank c = false := by
  have hcode : c.toNat = c.val.toNat := rfl
  simp only [isNameChar, Char.isAlphanum, Char.isAlpha, Char.isUpper, Char.isLower, Char.isDigit,
    Bool.or_eq_true, Bool.and_eq_true, decide_eq_true_eq, UInt32.le_iff_toNat_le, ge_iff_le] at h
  rcases h with h | rfl
  · simp only [isBlank, Bool.or_eq_false_iff, Bool.and_eq_false_iff, decide_eq_false_iff_not, hcode]
    have hbounds : 48 ≤ c.val.toNat ∧ c.val.toNat ≤ 122 := by
      rcases h with (h | h) | h <;> exact ⟨le_trans (by decide) h.1, le_trans h.2 (by decide)⟩
    omega
  · rfl

theorem nesting_of_isBlank {c : Char} (h : isBlank c = true) : nesting c = 0 := by
  unfold nesting
  rw [if_neg, if_neg]
  · rintro (rfl | rfl) <;> cases h
  · rintro (rfl | rfl) <;> cases h

theorem rise_eq_zero {text : List Char} (h : ∀ c ∈ text, nesting c = 0) : rise text = 0 := by
  induction text with
  | nil => rfl
  | cons c text ih =>
    rw [rise_cons, h c List.mem_cons_self, ih fun c hc => h c (List.mem_cons_of_mem _ hc)]
    rfl

theorem rise_of_ofWord? {word : List Char} {verb : UpdateVerb}
    (h : UpdateVerb.ofWord? (String.ofList word) = some verb) : rise word = 0 := by
  refine rise_eq_zero fun c hc => nesting_of_isNameChar ?_
  have halpha := UpdateVerb.isAlpha_of_ofWord? h (c := c) (by rwa [String.toList_ofList])
  rw [isNameChar, Char.isAlphanum, halpha]
  rfl

/-! ### Words -/

theorem words_of_isBlank {c : Char} (h : isBlank c = true) (position : Nat) (word rest : List Char) :
    words position word (c :: rest) = words position word [] ++ words (position + 1) [] rest := by
  rw [words, words, if_pos h]
  by_cases hword : word.isEmpty = true
  · rw [if_pos hword, if_pos hword, List.nil_append]
  · rw [if_neg hword, if_neg hword]
    rfl

theorem words_of_not_isBlank {c : Char} (h : isBlank c = false) (position : Nat)
    (word rest : List Char) :
    words position word (c :: rest) = words (position + 1) (c :: word) rest := by
  rw [words, if_neg (by rw [h]; exact Bool.false_ne_true)]

/-- **A blank ends a word.** -/
theorem words_append {b : Char} (hb : isBlank b = true) (position : Nat)
    (word xs ys : List Char) :
    words position word (xs ++ b :: ys) =
      words position word xs ++ words (position + xs.length + 1) [] ys := by
  induction xs generalizing position word with
  | nil => exact words_of_isBlank hb position word ys
  | cons c xs ih =>
    have hposition : position + (c :: xs).length + 1 = position + 1 + xs.length + 1 := by
      rw [List.length_cons]
      omega
    rw [hposition, List.cons_append]
    cases hc : isBlank c with
    | true => rw [words_of_isBlank hc, ih, words_of_isBlank hc, List.append_assoc]
    | false => rw [words_of_not_isBlank hc, ih, words_of_not_isBlank hc]

theorem words_append_of_solid {xs : List Char} (h : ∀ c ∈ xs, isBlank c = false) (position : Nat)
    (word ys : List Char) :
    words position word (xs ++ ys) = words (position + xs.length) (xs.reverse ++ word) ys := by
  induction xs generalizing position word with
  | nil => rfl
  | cons c xs ih =>
    rw [List.cons_append, words_of_not_isBlank (h c List.mem_cons_self),
      ih fun c hc => h c (List.mem_cons_of_mem _ hc), List.length_cons, List.reverse_cons,
      List.append_assoc]
    congr 1
    omega

theorem words_nil_of_ne_nil {word : List Char} (h : word ≠ []) (position : Nat) :
    words position word [] = [(position - word.length, word.reverse)] := by
  rw [words, if_neg (by rwa [List.isEmpty_iff])]

/-- A text without blanks is one word. -/
theorem words_of_solid {position : Nat} {text : List Char} (hne : text ≠ [])
    (h : ∀ c ∈ text, isBlank c = false) : words position [] text = [(position, text)] := by
  rw [← List.append_nil text, words_append_of_solid h, List.append_nil, List.append_nil,
    words_nil_of_ne_nil (by rwa [ne_eq, List.reverse_eq_nil_iff]), List.length_reverse,
    List.reverse_reverse, Nat.add_sub_cancel]

/-- Where a text stands does not matter for its words. -/
theorem map_snd_words (position other : Nat) (word text : List Char) :
    (words position word text).map (·.2) = (words other word text).map (·.2) := by
  induction text generalizing position other word with
  | nil =>
    rw [words, words]
    split <;> rfl
  | cons c text ih =>
    cases hc : isBlank c with
    | true =>
      rw [words_of_isBlank hc, words_of_isBlank hc, List.map_append, List.map_append,
        ih (position + 1) (other + 1)]
      congr 1
      rw [words, words]
      split <;> rfl
    | false =>
      rw [words_of_not_isBlank hc, words_of_not_isBlank hc]
      exact ih _ _ _

theorem sum_rise_words (position : Nat) (word text : List Char) :
    ((words position word text).map fun entry => rise entry.2).sum = rise word.reverse + rise text := by
  have hnil : ∀ position word, ((words position word []).map fun entry => rise entry.2).sum =
      rise word.reverse := by
    intro position word
    cases word with
    | nil => rfl
    | cons c word =>
      rw [words_nil_of_ne_nil (List.cons_ne_nil c word)]
      exact Int.add_zero _
  induction text generalizing position word with
  | nil => rw [hnil, rise_nil, Int.add_zero]
  | cons c text ih =>
    cases hc : isBlank c with
    | true =>
      rw [words_of_isBlank hc, List.map_append, List.sum_append, hnil, ih, rise_cons,
        nesting_of_isBlank hc]
      rfl
    | false =>
      rw [words_of_not_isBlank hc, ih, List.reverse_cons, rise_append, rise_cons, rise_cons,
        rise_nil]
      omega

/-- A position of a text that begins at another one: at the front or behind a blank, and not at the
end. -/
def IsWordStart (start : Nat) (text : List Char) (position : Nat) : Prop :=
  ∃ before after, text = before ++ after ∧ position = start + before.length ∧ after ≠ [] ∧
    ∀ b, before.getLast? = some b → isBlank b = true

theorem isWordStart_front (start : Nat) {text : List Char} (h : text ≠ []) :
    IsWordStart start text start :=
  ⟨[], text, rfl, rfl, h, nofun⟩

/-- The start of a word behind a blank. -/
theorem IsWordStart.append {start position : Nat} {front text : List Char} {b : Char}
    (hb : isBlank b = true) (h : IsWordStart (start + front.length + 1) text position) :
    IsWordStart start (front ++ b :: text) position := by
  obtain ⟨before, after, rfl, rfl, hne, hlast⟩ := h
  refine ⟨front ++ b :: before, after, by simp, ?_, hne, ?_⟩
  · rw [List.length_append, List.length_cons]
    omega
  · intro c hc
    rw [List.getLast?_append_of_ne_nil _ (List.cons_ne_nil b before), List.getLast?_cons] at hc
    cases hbefore : before.getLast? with
    | none =>
      rw [hbefore] at hc
      cases hc
      exact hb
    | some last =>
      rw [hbefore] at hc
      cases hc
      exact hlast last hbefore

/-- **A word stands at the front or behind a blank.** -/
theorem isWordStart_of_mem_words (start : Nat) (word text : List Char) {entry : Nat × List Char}
    (h : entry ∈ words (start + word.length) word text) :
    IsWordStart start (word.reverse ++ text) entry.1 := by
  have hnil : ∀ (start : Nat) {word text : List Char},
      entry ∈ words (start + word.length) word [] →
      IsWordStart start (word.reverse ++ text) entry.1 := by
    intro start word text h
    cases word with
    | nil => cases h
    | cons c word =>
      rw [words_nil_of_ne_nil (List.cons_ne_nil c word), List.mem_singleton] at h
      rw [h, Nat.add_sub_cancel]
      exact isWordStart_front start (by simp)
  induction text generalizing start word with
  | nil => exact hnil start h
  | cons c text ih =>
    cases hc : isBlank c with
    | true =>
      rw [words_of_isBlank hc, List.mem_append] at h
      rcases h with h | h
      · exact hnil start h
      · refine IsWordStart.append hc ?_
        rw [List.length_reverse]
        exact ih (start + word.length + 1) [] h
    | false =>
      rw [words_of_not_isBlank hc] at h
      rw [← List.singleton_append, ← List.append_assoc, ← List.reverse_cons]
      exact ih start (c :: word) h

/-! ### Verbs -/

theorem verbsAmong_cons (depth : Int) (start : Nat) (word : List Char)
    (rest : List (Nat × List Char)) :
    verbsAmong depth ((start, word) :: rest) =
      match if depth = 0 then UpdateVerb.ofLetters? word else none with
      | some verb => ⟨start, start + word.length, verb⟩ :: verbsAmong depth rest
      | none => verbsAmong (depthAfter depth word) rest := by
  rw [← UpdateVerb.ofWord?_ofList]
  rfl

theorem verbsAmong_append (depth : Int) (xs ys : List (Nat × List Char)) :
    verbsAmong depth (xs ++ ys) = verbsAmong depth xs ++
      verbsAmong (depth + (xs.map fun entry => rise entry.2).sum) ys := by
  induction xs generalizing depth with
  | nil =>
    rw [List.map_nil, List.sum_nil, Int.add_zero]
    rfl
  | cons entry xs ih =>
    obtain ⟨start, word⟩ := entry
    rw [List.cons_append, verbsAmong, verbsAmong, List.map_cons, List.sum_cons, ← Int.add_assoc]
    split
    · rename_i verb hverb
      have hrise : rise word = 0 := by
        by_cases hdepth : depth = 0
        · rw [if_pos hdepth] at hverb
          exact rise_of_ofWord? hverb
        · rw [if_neg hdepth] at hverb
          cases hverb
      rw [ih, hrise, Int.add_zero]
      rfl
    · rw [ih, depthAfter_eq]

/-- The verbs of a text that begins at a position and a depth. -/
def verbsFrom (position : Nat) (depth : Int) (text : List Char) : List Occurrence :=
  verbsAmong depth (words position [] text)

theorem verbs_eq (text : List Char) : verbs text = verbsFrom 0 0 text := rfl

/-- **The verbs on both sides of white space.** -/
theorem verbsFrom_append_blank {b : Char} (hb : isBlank b = true) (position : Nat) (depth : Int)
    (xs ys : List Char) :
    verbsFrom position depth (xs ++ b :: ys) = verbsFrom position depth xs ++
      verbsFrom (position + xs.length + 1) (depth + rise xs) ys := by
  rw [verbsFrom, words_append hb, verbsAmong_append, sum_rise_words]
  rw [List.reverse_nil, rise_nil, Int.zero_add]
  rfl

/-- **The verbs on both sides of a blank.** -/
theorem verbsFrom_append (position : Nat) (depth : Int) (xs ys : List Char) :
    verbsFrom position depth (xs ++ ' ' :: ys) = verbsFrom position depth xs ++
      verbsFrom (position + xs.length + 1) (depth + rise xs) ys :=
  verbsFrom_append_blank (by decide) position depth xs ys

/-- Where a text stands does not matter for the verbs in it. -/
theorem map_verb_verbsFrom (position other : Nat) (depth : Int) (text : List Char) :
    (verbsFrom position depth text).map (·.verb) = (verbsFrom other depth text).map (·.verb) := by
  have hwords : ∀ (depth : Int) (xs ys : List (Nat × List Char)),
      xs.map (·.2) = ys.map (·.2) →
      (verbsAmong depth xs).map (·.verb) = (verbsAmong depth ys).map (·.verb) := by
    intro depth xs
    induction xs generalizing depth with
    | nil =>
      intro ys h
      rw [List.map_eq_nil_iff.mp h.symm]
    | cons entry xs ih =>
      intro ys h
      obtain ⟨entry', ys, rfl, hword, htail⟩ := List.map_eq_cons_iff.mp h.symm
      obtain ⟨start, word⟩ := entry
      obtain ⟨start', word'⟩ := entry'
      cases hword
      rw [verbsAmong, verbsAmong]
      split
      · rw [List.map_cons, List.map_cons, ih depth ys htail.symm]
      · exact ih _ ys htail.symm
  exact hwords depth _ _ (map_snd_words position other [] text)

theorem mem_words_of_mem_verbsAmong {depth : Int} {entries : List (Nat × List Char)}
    {o : Occurrence} (h : o ∈ verbsAmong depth entries) :
    ∃ word, (o.start, word) ∈ entries ∧ UpdateVerb.ofWord? (String.ofList word) = some o.verb := by
  induction entries generalizing depth with
  | nil => cases h
  | cons entry entries ih =>
    obtain ⟨start, word⟩ := entry
    rw [verbsAmong] at h
    split at h
    · rename_i verb hverb
      rcases List.mem_cons.mp h with rfl | h
      · refine ⟨word, List.mem_cons_self, ?_⟩
        by_cases hdepth : depth = 0
        · rwa [if_pos hdepth] at hverb
        · rw [if_neg hdepth] at hverb
          cases hverb
      · obtain ⟨word, hmem, hword⟩ := ih h
        exact ⟨word, List.mem_cons_of_mem _ hmem, hword⟩
    · obtain ⟨word, hmem, hword⟩ := ih h
      exact ⟨word, List.mem_cons_of_mem _ hmem, hword⟩

/-- **A verb stands at the front or behind a blank.** -/
theorem isWordStart_of_mem_verbsFrom {position : Nat} {depth : Int} {text : List Char}
    {o : Occurrence} (h : o ∈ verbsFrom position depth text) :
    IsWordStart position text o.start := by
  obtain ⟨word, hmem, -⟩ := mem_words_of_mem_verbsAmong h
  exact isWordStart_of_mem_words position [] text hmem

/-! ### Parentheses -/

/-- All blanks of a text that begins at a depth stand at least so deep. -/
def BlanksFrom (low depth : Int) : List Char → Prop
  | [] => True
  | c :: rest => (isBlank c = true → low ≤ depth) ∧ BlanksFrom low (depth + nesting c) rest

theorem blanksFrom_append {low depth : Int} {xs ys : List Char} :
    BlanksFrom low depth (xs ++ ys) ↔
      BlanksFrom low depth xs ∧ BlanksFrom low (depth + rise xs) ys := by
  induction xs generalizing depth with
  | nil =>
    rw [rise_nil, Int.add_zero]
    exact (and_iff_right trivial).symm
  | cons c xs ih =>
    rw [List.cons_append, BlanksFrom, BlanksFrom, ih, rise_cons, Int.add_assoc, and_assoc]

theorem blanksFrom_of_solid {low depth : Int} {text : List Char}
    (h : ∀ c ∈ text, isBlank c = false) : BlanksFrom low depth text := by
  induction text generalizing depth with
  | nil => trivial
  | cons c text ih =>
    refine ⟨fun hc => ?_, ih fun c hc => h c (List.mem_cons_of_mem _ hc)⟩
    rw [h c List.mem_cons_self] at hc
    cases hc

theorem BlanksFrom.mono {low low' depth depth' : Int} {text : List Char}
    (h : BlanksFrom low depth text) (hle : low' + depth ≤ low + depth') :
    BlanksFrom low' depth' text := by
  induction text generalizing depth depth' with
  | nil => trivial
  | cons c text ih =>
    obtain ⟨hc, htext⟩ := h
    refine ⟨fun hblank => ?_, ih htext (by omega)⟩
    have hlow := hc hblank
    omega

/-- A word is no verb inside parentheses, or with a character that is no letter. -/
theorem verbsAmong_cons_of_not_verb {depth : Int} {start : Nat} {word : List Char}
    {entries : List (Nat × List Char)} (h : depth ≠ 0 ∨ ∃ c ∈ word, c.isAlpha = false) :
    verbsAmong depth ((start, word) :: entries) = verbsAmong (depth + rise word) entries := by
  rw [verbsAmong, depthAfter_eq]
  split
  · rename_i verb hverb
    by_cases hdepth : depth = 0
    · rw [if_pos hdepth] at hverb
      obtain ⟨c, hc, halpha⟩ := h.resolve_left (not_not_intro hdepth)
      rw [UpdateVerb.isAlpha_of_ofWord? hverb (by rwa [String.toList_ofList])] at halpha
      cases halpha
    · rw [if_neg hdepth] at hverb
      cases hverb
  · rfl

/-- **There are no verbs inside parentheses.** The first word may begin in front of them, if it is no
verb. -/
theorem verbsAmong_of_blanksFrom {position : Nat} {depth : Int} {word text : List Char}
    (hblanks : BlanksFrom 1 (depth + rise word.reverse) text)
    (hword : 0 < depth ∨ ∃ c ∈ word, c.isAlpha = false) :
    verbsAmong depth (words position word text) = [] := by
  have hnil : ∀ (position : Nat) (depth : Int) (word : List Char)
      (entries : List (Nat × List Char)), (0 < depth ∨ ∃ c ∈ word, c.isAlpha = false) →
      verbsAmong depth (words position word [] ++ entries) =
        verbsAmong (depth + rise word.reverse) entries := by
    intro position depth word entries hword
    cases word with
    | nil =>
      rw [List.reverse_nil, rise_nil, Int.add_zero]
      rfl
    | cons c word =>
      rw [words_nil_of_ne_nil (List.cons_ne_nil c word)]
      refine verbsAmong_cons_of_not_verb (hword.imp ne_of_gt ?_)
      rintro ⟨d, hd, halpha⟩
      exact ⟨d, List.mem_reverse.mpr hd, halpha⟩
  induction text generalizing position depth word with
  | nil =>
    have hempty := hnil position depth word [] hword
    rwa [List.append_nil] at hempty
  | cons c text ih =>
    obtain ⟨hc, htext⟩ := hblanks
    cases hblank : isBlank c with
    | true =>
      have hdeep := hc hblank
      rw [nesting_of_isBlank hblank, Int.add_zero] at htext
      rw [words_of_isBlank hblank, hnil position depth word _ hword]
      refine ih ?_ (.inl (by omega))
      rwa [List.reverse_nil, rise_nil, Int.add_zero]
    | false =>
      rw [words_of_not_isBlank hblank]
      refine ih ?_ ?_
      · rwa [List.reverse_cons, rise_append, rise_cons, rise_nil, Int.add_zero, ← Int.add_assoc]
      · exact hword.imp_right fun ⟨d, hd, halpha⟩ => ⟨d, List.mem_cons_of_mem _ hd, halpha⟩

/-- A comma behind a text without verbs does not make one. -/
theorem verbsFrom_comma {position : Nat} {depth : Int} {text : List Char}
    (h : verbsFrom position depth text = []) : verbsFrom position depth (text ++ [',']) = [] := by
  have hwords : ∀ (text : List Char) (position : Nat) (depth : Int) (word : List Char),
      verbsAmong depth (words position word text) = [] →
      verbsAmong depth (words position word (text ++ [','])) = [] := by
    intro text
    induction text with
    | nil =>
      intro position depth word _
      rw [List.nil_append, words_of_not_isBlank (by decide),
        words_nil_of_ne_nil (List.cons_ne_nil ',' word), verbsAmong_cons_of_not_verb]
      · rfl
      · exact .inr ⟨',', by simp, rfl⟩
    | cons c text ih =>
      intro position depth word h
      rw [List.cons_append]
      cases hc : isBlank c with
      | true =>
        rw [words_of_isBlank hc, verbsAmong_append, List.append_eq_nil_iff] at h ⊢
        exact ⟨h.1, ih _ _ _ h.2⟩
      | false =>
        rw [words_of_not_isBlank hc] at h ⊢
        exact ih _ _ _ h
  exact hwords text position depth [] h

end Clauses

end ItemMapper
