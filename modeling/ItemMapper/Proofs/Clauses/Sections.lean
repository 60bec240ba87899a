import ItemMapper.Proofs.Clauses.Insertion
import ItemMapper.Proofs.Key.Text

/-!
# The clauses of a text

The text of an update is cut at its verbs. What it falls into are sections: a verb in letters of either
case, white space, the body of the clause, white space. A text is accepted exactly if it is made of
sections, perhaps with white space in front, that can be told apart: no word outside the parentheses of a
body reads as a verb, and all bodies but the last one close the parentheses that they open. Neither the
letters of a verb nor the white space around a body matters for this, so that the same clauses are found
when verbs and bodies are joined again.

## Main definitions

* `Clauses.Section`: a clause as it stands in a text.
* `Clauses.Parts`: sections that can be told apart.
* `Clauses.rejoin`: verbs and bodies with single blanks between them.

## Main statements

* `Clauses.verbsFrom_append_of_parted`: the verbs of two texts that no word joins.
* `Clauses.exists_first_verb`: a text without verbs, or cut at its first verb.
* `Clauses.split_eq_ok_iff`: which texts are accepted, and what their clauses are.
* `Clauses.split_rejoined`: **nothing is lost**, and joined clauses are found again.
-/

namespace ItemMapper.Clauses

open Unicode (isBlank trimChars)

/-! ### Words across texts -/

/-- A text of white space. -/
def Blank (text : List Char) : Prop := ∀ c ∈ text, isBlank c = true

/-- A text that is empty or ends with white space. -/
def EndsBlank (text : List Char) : Prop := ∀ c, text.getLast? = some c → isBlank c = true

/-- A text that is empty or begins with white space. -/
def BeginsBlank (text : List Char) : Prop := ∀ c, text.head? = some c → isBlank c = true

section
variable {position : Nat} {depth : Int} {text xs ys front keyword rest : List Char} {verb : UpdateVerb}

theorem Blank.endsBlank (h : Blank xs) : EndsBlank xs := fun c hc => h c (List.mem_of_getLast? hc)

theorem Blank.rise (h : Blank text) : rise text = 0 :=
  rise_eq_zero fun c hc => nesting_of_isBlank (h c hc)

theorem EndsBlank.append (h : EndsBlank ys) (hne : ys ≠ []) (xs : List Char) : EndsBlank (xs ++ ys) := by
  intro c hc
  rw [List.getLast?_append_of_ne_nil _ hne] at hc
  exact h c hc

theorem Blank.beginsBlank_append (h : Blank xs) (hne : xs ≠ []) (ys : List Char) :
    BeginsBlank (xs ++ ys) := by
  intro c hc
  rw [List.head?_append_of_ne_nil _ hne] at hc
  exact h c (List.mem_of_head? hc)

theorem verbsFrom_nil (position : Nat) (depth : Int) : verbsFrom position depth [] = [] := rfl

theorem verbsFrom_cons_blank {b : Char} (hb : isBlank b = true) (position : Nat) (depth : Int)
    (ys : List Char) : verbsFrom position depth (b :: ys) = verbsFrom (position + 1) depth ys := by
  rw [verbsFrom, words_of_isBlank hb]
  rfl

theorem verbsFrom_of_blank (h : Blank text) : verbsFrom position depth text = [] := by
  induction text generalizing position with
  | nil => rfl
  | cons b text ih =>
    rw [verbsFrom_cons_blank (h b List.mem_cons_self)]
    exact ih fun c hc => h c (List.mem_cons_of_mem b hc)

/-- **The verbs of two texts that no word joins.** -/
theorem verbsFrom_append_of_parted (h : EndsBlank xs ∨ BeginsBlank ys) :
    verbsFrom position depth (xs ++ ys) = verbsFrom position depth xs ++
      verbsFrom (position + xs.length) (depth + rise xs) ys := by
  rcases h with h | h
  · rcases List.eq_nil_or_concat' xs with rfl | ⟨init, b, rfl⟩
    · rw [rise_nil, Int.add_zero]
      rfl
    · have hb : isBlank b = true := h b List.getLast?_concat
      rw [List.append_assoc, List.singleton_append, verbsFrom_append_blank hb,
        verbsFrom_append_blank hb, rise_append, rise_cons, nesting_of_isBlank hb, rise_nil,
        List.length_append, List.length_singleton, Nat.add_assoc]
      rw [verbsFrom_nil, List.append_nil, Int.add_zero, Int.add_zero]
  · cases ys with
    | nil => rw [List.append_nil, verbsFrom_nil, List.append_nil]
    | cons b ys =>
      have hb : isBlank b = true := h b rfl
      rw [verbsFrom_append_blank hb, verbsFrom_cons_blank hb]

/-- Where a text stands does not matter for whether there are verbs in it. -/
theorem verbsFrom_eq_nil_iff (position other : Nat) (depth : Int) (text : List Char) :
    verbsFrom position depth text = [] ↔ verbsFrom other depth text = [] := by
  rw [← List.map_eq_nil_iff (f := (·.verb)), map_verb_verbsFrom position other, List.map_eq_nil_iff]

/-! ### The first verb -/

/-- A written verb is not empty and has no white space. -/
theorem solid_of_ofWord? (h : UpdateVerb.ofWord? (String.ofList keyword) = some verb) :
    keyword ≠ [] ∧ ∀ c ∈ keyword, isBlank c = false := by
  constructor
  · rintro rfl
    have hnone : UpdateVerb.ofWord? (String.ofList []) = none := by
      rw [UpdateVerb.ofWord?_ofList]
      decide
    rw [hnone] at h
    cases h
  · intro c hc
    have halpha := UpdateVerb.isAlpha_of_ofWord? h (c := c) (by rwa [String.toList_ofList])
    refine isBlank_of_isNameChar ?_
    rw [isNameChar, Char.isAlphanum, halpha]
    rfl

/-- A written verb is found at depth zero. -/
theorem verbsFrom_keyword (h : UpdateVerb.ofWord? (String.ofList keyword) = some verb) (position : Nat) :
    verbsFrom position 0 keyword = [⟨position, position + keyword.length, verb⟩] := by
  obtain ⟨hne, hsolid⟩ := solid_of_ofWord? h
  rw [verbsFrom, words_of_solid hne hsolid, verbsAmong, if_pos rfl, h]
  rfl

/-- A word that is not a verb at its depth. -/
theorem verbsFrom_word (hne : xs ≠ []) (hsolid : ∀ c ∈ xs, isBlank c = false)
    (h : depth ≠ 0 ∨ UpdateVerb.ofWord? (String.ofList xs) = none) (position : Nat) :
    verbsFrom position depth xs = [] := by
  have hnone : (if depth = 0 then UpdateVerb.ofWord? (String.ofList xs) else none) = none := by
    rcases h with h | h
    · exact if_neg h
    · rw [h, ite_self]
  rw [verbsFrom, words_of_solid hne hsolid, verbsAmong, hnone]
  rfl

/-- A text in front of its first verb, the verb and the rest. -/
theorem verbsFrom_of_first_verb (hfront : EndsBlank front) (hnone : verbsFrom position depth front = [])
    (hdepth : depth + rise front = 0) (h : UpdateVerb.ofWord? (String.ofList keyword) = some verb)
    (hrest : BeginsBlank rest) :
    verbsFrom position depth (front ++ (keyword ++ rest)) =
      ⟨position + front.length, position + front.length + keyword.length, verb⟩ ::
        verbsFrom (position + front.length + keyword.length) 0 rest := by
  rw [verbsFrom_append_of_parted (.inl hfront), hnone, hdepth, verbsFrom_append_of_parted (.inr hrest),
    verbsFrom_keyword h, rise_of_ofWord? h]
  rfl

/-- A text is white space, or it has a first word. -/
theorem exists_first_word (text : List Char) : Blank text ∨
    ∃ gap word rest, text = gap ++ (word ++ rest) ∧ Blank gap ∧ word ≠ [] ∧
      (∀ c ∈ word, isBlank c = false) ∧ BeginsBlank rest := by
  have hblank : Blank (text.takeWhile isBlank) := fun c hc => List.mem_takeWhile_imp hc
  rcases htail : text.dropWhile isBlank with - | ⟨c, tail⟩
  · left
    rw [← List.takeWhile_append_dropWhile (p := isBlank) (l := text), htail, List.append_nil]
    exact hblank
  · right
    have hc : isBlank c = false := by
      have hnot := List.head?_dropWhile_not isBlank text
      rwa [htail] at hnot
    refine ⟨text.takeWhile isBlank, c :: tail.takeWhile (!isBlank ·), tail.dropWhile (!isBlank ·), ?_,
      hblank, List.cons_ne_nil _ _, ?_, ?_⟩
    · rw [List.cons_append, List.takeWhile_append_dropWhile, ← htail, List.takeWhile_append_dropWhile]
    · intro d hd
      rcases List.mem_cons.mp hd with rfl | hd
      · exact hc
      · simpa using List.mem_takeWhile_imp hd
    · intro d hd
      have hnot := List.head?_dropWhile_not (!isBlank ·) tail
      rw [hd] at hnot
      simpa using hnot

/-- **A text without verbs, or cut at its first verb.** By induction on the length of the text: its first
word is the verb, or belongs in front of it. -/
theorem exists_first_verb (position : Nat) (depth : Int) (text : List Char) :
    verbsFrom position depth text = [] ∨
      ∃ front keyword rest verb, text = front ++ (keyword ++ rest) ∧ EndsBlank front ∧
        verbsFrom position depth front = [] ∧ depth + rise front = 0 ∧
        UpdateVerb.ofWord? (String.ofList keyword) = some verb ∧ BeginsBlank rest := by
  induction hlength : text.length using Nat.strong_induction_on generalizing position depth text with
  | _ n ih =>
    rcases exists_first_word text with hblank | ⟨gap, word, tail, rfl, hgap, hne, hsolid, htail⟩
    · exact .inl (verbsFrom_of_blank hblank)
    by_cases hverb : depth = 0 ∧ ∃ verb, UpdateVerb.ofWord? (String.ofList word) = some verb
    · obtain ⟨rfl, verb, hverb⟩ := hverb
      refine .inr ⟨gap, word, tail, verb, rfl, hgap.endsBlank, verbsFrom_of_blank hgap, ?_, hverb, htail⟩
      rw [hgap.rise, Int.zero_add]
    have hword : ∀ position, verbsFrom position depth word = [] :=
      verbsFrom_word hne hsolid (by
        by_cases hdepth : depth = 0
        · right
          rw [Option.eq_none_iff_forall_ne_some]
          exact fun verb hsome => hverb ⟨hdepth, verb, hsome⟩
        · exact .inl hdepth)
    have happend : ∀ more, BeginsBlank more → verbsFrom position depth (gap ++ (word ++ more)) =
        verbsFrom (position + gap.length + word.length) (depth + rise word) more := by
      intro more hmore
      rw [verbsFrom_append_of_parted (.inl hgap.endsBlank), verbsFrom_of_blank hgap, hgap.rise,
        Int.add_zero, verbsFrom_append_of_parted (.inr hmore), hword]
      rfl
    have hshorter : tail.length < n := by
      have hpos := List.length_pos_of_ne_nil hne
      simp only [List.length_append] at hlength
      omega
    rcases ih tail.length hshorter (position + gap.length + word.length) (depth + rise word) tail rfl with
      hnone | ⟨front, keyword, rest, verb, rfl, hfront, hnone, hdepth, hkeyword, hrest⟩
    · exact .inl ((happend tail htail).trans hnone)
    · have hfrontNe : front ≠ [] := by
        rintro rfl
        obtain ⟨hkeywordNe, hkeywordSolid⟩ := solid_of_ofWord? hkeyword
        obtain ⟨c, letters, rfl⟩ := List.exists_cons_of_ne_nil hkeywordNe
        have hblank : isBlank c = true := htail c rfl
        rw [hkeywordSolid c List.mem_cons_self] at hblank
        cases hblank
      have hbegins : BeginsBlank front := by
        intro c hc
        exact htail c (by rw [List.head?_append_of_ne_nil _ hfrontNe, hc])
      refine .inr ⟨gap ++ (word ++ front), keyword, rest, verb, by simp only [List.append_assoc], ?_,
        (happend front hbegins).trans hnone, ?_, hkeyword, hrest⟩
      · exact (hfront.append hfrontNe word).append (by simp [hne]) gap
      · rw [rise_append, rise_append, hgap.rise, Int.zero_add, ← Int.add_assoc]
        exact hdepth

/-! ### Sections -/

/-- A text that begins and ends with something else than white space. -/
structure Trimmed (text : List Char) : Prop where
  first : ∃ c, text.head? = some c ∧ isBlank c = false
  last : Solid text

theorem dropWhile_isBlank_append (hxs : Blank xs) (hys : ∃ c, ys.head? = some c ∧ isBlank c = false) :
    (xs ++ ys).dropWhile isBlank = ys := by
  obtain ⟨c, hhead, hc⟩ := hys
  obtain ⟨rest, rfl⟩ := List.head?_eq_some_iff.mp hhead
  rw [List.dropWhile_append_of_pos hxs, List.dropWhile_cons_of_neg (by rw [hc]; exact Bool.false_ne_true)]

/-- White space around a trimmed text is trimmed off. -/
theorem Trimmed.trimChars_eq (h : Trimmed text) (hxs : Blank xs) (hys : Blank ys) :
    trimChars (xs ++ (text ++ ys)) = text := by
  obtain ⟨c, hfirst, hc⟩ := h.first
  obtain ⟨d, hlast, hd⟩ := h.last
  have hfront : (xs ++ (text ++ ys)).dropWhile isBlank = text ++ ys :=
    dropWhile_isBlank_append hxs ⟨c, by rw [List.head?_append, hfirst]; rfl, hc⟩
  have hback : (ys.reverse ++ text.reverse).dropWhile isBlank = text.reverse :=
    dropWhile_isBlank_append (fun c hc => hys c (List.mem_reverse.mp hc))
      ⟨d, by rw [List.head?_reverse, hlast], hd⟩
  rw [trimChars, hfront, List.reverse_append, hback, List.reverse_reverse]

/-- What is left of a text that is more than white space. -/
theorem exists_trimChars (h : trimChars text ≠ []) : ∃ gap rest,
    text = gap ++ (trimChars text ++ rest) ∧ Blank gap ∧ Blank rest ∧ Trimmed (trimChars text) := by
  have hcore : text.dropWhile isBlank =
      trimChars text ++ ((text.dropWhile isBlank).reverse.takeWhile isBlank).reverse := by
    rw [trimChars, ← List.reverse_append, List.takeWhile_append_dropWhile, List.reverse_reverse]
  refine ⟨text.takeWhile isBlank, ((text.dropWhile isBlank).reverse.takeWhile isBlank).reverse, ?_,
    fun c hc => List.mem_takeWhile_imp hc,
    fun c hc => List.mem_takeWhile_imp (List.mem_reverse.mp hc), ?_, ?_⟩
  · rw [← hcore, List.takeWhile_append_dropWhile]
  · obtain ⟨c, more, hcons⟩ := List.exists_cons_of_ne_nil h
    have hnot := List.head?_dropWhile_not isBlank text
    rw [hcore, hcons] at hnot
    exact ⟨c, by rw [hcons]; rfl, by simpa using hnot⟩
  · obtain ⟨c, hc⟩ := Option.isSome_iff_exists.mp (List.getLast?_isSome.mpr h)
    have hnot := List.head?_dropWhile_not isBlank (text.dropWhile isBlank).reverse
    rw [← List.getLast?_reverse, ← trimChars, hc] at hnot
    exact ⟨c, hc, by simpa using hnot⟩

end

/-- A clause as it stands in a text. -/
structure Section where
  verb : UpdateVerb
  /-- The verb as it is written. -/
  keyword : List Char
  /-- The white space behind the verb. -/
  gap : List Char
  body : List Char
  /-- The white space behind the body. -/
  rest : List Char
  spelled : UpdateVerb.ofWord? (String.ofList keyword) = some verb
  gap_blank : Blank gap
  gap_ne_nil : gap ≠ []
  trimmed : Trimmed body
  rest_blank : Blank rest

namespace Section

/-- The text behind the verb. -/
def behind (s : Section) : List Char := s.gap ++ (s.body ++ s.rest)

/-- The text of a section. -/
def text (s : Section) : List Char := s.keyword ++ s.behind

/-- The verb and the body. -/
def clause (s : Section) : UpdateVerb × List Char := (s.verb, s.body)

/-- The verb as it is written and the body. -/
def written (s : Section) : List Char × List Char := (s.keyword, s.body)

variable (s : Section)

theorem body_ne_nil : s.body ≠ [] := by
  obtain ⟨c, hfirst, -⟩ := s.trimmed.first
  intro hnil
  rw [hnil] at hfirst
  cases hfirst

theorem trimChars_behind : trimChars s.behind = s.body :=
  s.trimmed.trimChars_eq s.gap_blank s.rest_blank

theorem rise_behind : rise s.behind = rise s.body := by
  rw [behind, rise_append, rise_append, s.gap_blank.rise, s.rest_blank.rise, Int.zero_add, Int.add_zero]

theorem beginsBlank_behind (more : List Char) : BeginsBlank (s.behind ++ more) := by
  rw [behind, List.append_assoc]
  exact s.gap_blank.beginsBlank_append s.gap_ne_nil _

theorem verbsFrom_behind_eq_nil_iff (position : Nat) :
    verbsFrom position 0 s.behind = [] ↔ verbs s.body = [] := by
  have hrest : BeginsBlank s.rest := fun c hc => s.rest_blank c (List.mem_of_head? hc)
  rw [behind, verbsFrom_append_of_parted (.inl s.gap_blank.endsBlank), verbsFrom_of_blank s.gap_blank,
    s.gap_blank.rise, Int.add_zero, List.nil_append, verbsFrom_append_of_parted (.inr hrest),
    verbsFrom_of_blank s.rest_blank, List.append_nil]
  exact verbsFrom_eq_nil_iff _ 0 0 s.body

end Section

/-! ### Texts of sections -/

/-- The text of sections. -/
def textOf (sections : List Section) : List Char := sections.flatMap Section.text

/-- Where the verbs of sections stand in a text, the first of which begins at a position. -/
def occurrences (position : Nat) : List Section → List Occurrence
  | [] => []
  | s :: more =>
    ⟨position, position + s.keyword.length, s.verb⟩ :: occurrences (position + s.text.length) more

/-- Sections that can be told apart: there are no verbs in the bodies, and where another section follows,
the parentheses of the body are closed and white space stands between them. -/
def Parts : List Section → Prop
  | [] => True
  | s :: more => verbs s.body = [] ∧ (more ≠ [] → rise s.body = 0 ∧ s.rest ≠ []) ∧ Parts more

variable {lead text : List Char} {sections : List Section} {clauses : List (UpdateVerb × List Char)}

theorem textOf_cons (s : Section) (more : List Section) : textOf (s :: more) = s.text ++ textOf more := rfl

/-- The verbs of a text of sections are those of the sections. -/
theorem verbsFrom_textOf (h : Parts sections) (position : Nat) :
    verbsFrom position 0 (textOf sections) = occurrences position sections := by
  induction sections generalizing position with
  | nil => rfl
  | cons s more ih =>
    obtain ⟨hbody, hmore, hparts⟩ := h
    have hbehind : verbsFrom (position + s.keyword.length) 0 s.behind = [] :=
      (s.verbsFrom_behind_eq_nil_iff _).mpr hbody
    rw [textOf_cons, Section.text, List.append_assoc, verbsFrom_append_of_parted
      (.inr (s.beginsBlank_behind _)), verbsFrom_keyword s.spelled, rise_of_ofWord? s.spelled]
    cases more with
    | nil =>
      rw [textOf, List.flatMap_nil, List.append_nil, Int.add_zero, hbehind]
      rfl
    | cons next rest =>
      obtain ⟨hrise, hrest⟩ := hmore (List.cons_ne_nil next rest)
      have hends : EndsBlank s.behind :=
        (s.rest_blank.endsBlank.append hrest s.body).append (by simp [hrest]) s.gap
      rw [verbsFrom_append_of_parted (.inl hends), Int.add_zero, hbehind, s.rise_behind, hrise,
        Int.zero_add, List.nil_append, ih hparts, Nat.add_assoc, ← List.length_append]
      rfl

/-- The clauses of a text of sections are those of the sections. -/
theorem bodies_textOf (before : List Char) (sections : List Section) :
    bodies (before ++ textOf sections) (occurrences before.length sections) =
      .ok (sections.map Section.clause) := by
  induction sections generalizing before with
  | nil => rfl
  | cons s more ih =>
    have hstop : ((occurrences (before.length + s.text.length) more).head?.map (·.start)).getD
        (before ++ textOf (s :: more)).length = (before ++ s.text).length := by
      cases more with
      | nil => simp [occurrences, textOf]
      | cons next rest => simp [occurrences]
    have hbody : trimChars (((before ++ textOf (s :: more)).take (before ++ s.text).length).drop
        (before.length + s.keyword.length)) = s.body := by
      rw [textOf_cons, ← List.append_assoc, List.take_left, Section.text, ← List.append_assoc,
        List.drop_left' (List.length_append ..), s.trimChars_behind]
    have hmore := ih (before ++ s.text)
    rw [List.append_assoc, ← textOf_cons, List.length_append] at hmore
    rw [occurrences, bodies, hstop]
    dsimp only
    rw [hbody, hmore, if_neg (by rw [List.isEmpty_iff]; exact s.body_ne_nil)]
    rfl

/-- **A text of sections is accepted**, and its clauses are those of the sections. -/
theorem split_textOf (hlead : Blank lead) (hne : sections ≠ []) (h : Parts sections) :
    split (lead ++ textOf sections) = .ok (sections.map Section.clause) := by
  obtain ⟨s, more, rfl⟩ := List.exists_cons_of_ne_nil hne
  have hverbs : verbs (lead ++ textOf (s :: more)) = occurrences lead.length (s :: more) := by
    rw [verbs_eq, verbsFrom_append_of_parted (.inl hlead.endsBlank), verbsFrom_of_blank hlead,
      hlead.rise, Int.zero_add, verbsFrom_textOf h, Nat.zero_add, List.nil_append]
  have hleading : (lead.all isBlank) = true := List.all_eq_true.mpr hlead
  rw [split, hverbs]
  simp only [occurrences, List.head?_cons, Option.map_some, Option.getD_some, List.take_left,
    hleading, List.isEmpty_cons, Bool.false_eq_true, Bool.not_true, or_self, if_false]
  exact bodies_textOf lead (s :: more)

/-! ### Accepted texts -/

/-- A verb and what stands behind it, if that is more than white space and begins with some. -/
theorem exists_section {keyword behind : List Char} {verb : UpdateVerb}
    (hkeyword : UpdateVerb.ofWord? (String.ofList keyword) = some verb) (hbegins : BeginsBlank behind)
    (hbody : trimChars behind ≠ []) :
    ∃ s : Section, s.text = keyword ++ behind ∧ s.behind = behind ∧
      s.clause = (verb, trimChars behind) := by
  obtain ⟨gap, rest, hbehind, hgap, hrest, htrimmed⟩ := exists_trimChars hbody
  have hgapNe : gap ≠ [] := by
    rintro rfl
    obtain ⟨c, hfirst, hc⟩ := htrimmed.first
    have hhead : behind.head? = some c := by
      rw [hbehind, List.nil_append, List.head?_append, hfirst]
      rfl
    rw [hbegins c hhead] at hc
    cases hc
  refine ⟨⟨verb, keyword, gap, trimChars behind, rest, hkeyword, hgap, hgapNe, htrimmed, hrest⟩, ?_,
    hbehind.symm, rfl⟩
  exact congrArg (keyword ++ ·) hbehind.symm

/-- A section in front of white space that belongs to it. -/
theorem Section.rest_ne_nil (s : Section) (h : EndsBlank s.behind) : s.rest ≠ [] := by
  intro hnil
  obtain ⟨c, hlast, hc⟩ := s.trimmed.last
  have hend : s.behind.getLast? = some c := by
    rw [behind, hnil, List.append_nil, List.getLast?_append, hlast]
    rfl
  rw [h c hend] at hc
  cases hc

/-- What is found of the first of several clauses: its body, up to the next verb, is not empty. -/
theorem bodies_cons_eq_ok {before body after : List Char} {occurrence : Occurrence}
    {more : List Occurrence} (hstart : occurrence.stop = before.length)
    (hstop : ((more.head?.map (·.start)).getD (before ++ (body ++ after)).length) =
      before.length + body.length) :
    bodies (before ++ (body ++ after)) (occurrence :: more) = .ok clauses ↔
      trimChars body ≠ [] ∧ ∃ others, bodies (before ++ (body ++ after)) more = .ok others ∧
        clauses = (occurrence.verb, trimChars body) :: others := by
  have hcut : ((before ++ (body ++ after)).take (before.length + body.length)).drop before.length =
      body := by
    rw [← List.append_assoc, ← List.length_append, List.take_left, List.drop_left]
  rw [bodies, hstop, hstart]
  simp only [hcut]
  by_cases hbody : (trimChars body).isEmpty = true
  · rw [if_pos hbody]
    exact iff_of_false nofun fun h => h.1 (List.isEmpty_iff.mp hbody)
  · rw [if_neg hbody, except_bind_eq_ok]
    refine Iff.trans ?_ (and_iff_right (mt List.isEmpty_iff.mpr hbody)).symm
    refine exists_congr fun others => and_congr_right fun _ => ?_
    exact ⟨fun h => (Except.ok.inj h).symm, fun h => congrArg Except.ok h.symm⟩

/-- **The clauses of an accepted text are cut off it one by one.** By induction on what stands behind a
verb. -/
theorem exists_sections_of_bodies {before keyword tail : List Char} {verb : UpdateVerb}
    (hkeyword : UpdateVerb.ofWord? (String.ofList keyword) = some verb) (htail : BeginsBlank tail)
    (h : bodies (before ++ keyword ++ tail)
      (⟨before.length, (before ++ keyword).length, verb⟩ ::
        verbsFrom (before ++ keyword).length 0 tail) = .ok clauses) :
    ∃ sections, keyword ++ tail = textOf sections ∧ sections ≠ [] ∧ Parts sections ∧
      sections.map Section.clause = clauses := by
  induction hlength : tail.length using Nat.strong_induction_on generalizing before keyword verb tail clauses
    with
  | _ n ih =>
    rcases exists_first_verb (before ++ keyword).length 0 tail with
      hnone | ⟨front, next, rest, nextVerb, rfl, hfront, hnone, hrise, hnext, hrest⟩
    · rw [hnone, ← List.append_nil tail, bodies_cons_eq_ok rfl (by simp [Nat.add_assoc])] at h
      obtain ⟨hbody, others, hothers, rfl⟩ := h
      cases hothers
      obtain ⟨s, htext, hbehind, hclause⟩ := exists_section hkeyword htail hbody
      refine ⟨[s], ?_, List.cons_ne_nil s [], ⟨?_, fun hmore => (hmore rfl).elim, trivial⟩, ?_⟩
      · rw [textOf_cons, htext]
        exact (List.append_nil _).symm
      · exact (s.verbsFrom_behind_eq_nil_iff _).mp (hbehind ▸ hnone)
      · rw [List.map_singleton, hclause]
    · have hbegins : BeginsBlank front := fun c hc =>
        htail c (by rw [List.head?_append, hc]; rfl)
      rw [verbsFrom_of_first_verb hfront hnone hrise hnext hrest, bodies_cons_eq_ok rfl rfl] at h
      obtain ⟨hbody, others, hothers, rfl⟩ := h
      obtain ⟨s, htext, hbehind, hclause⟩ := exists_section hkeyword hbegins hbody
      have hshorter : rest.length < n := by
        have hpos := List.length_pos_of_ne_nil (solid_of_ofWord? hnext).1
        simp only [List.length_append] at hlength
        omega
      have hmore : bodies (before ++ keyword ++ front ++ next ++ rest)
          (⟨(before ++ keyword ++ front).length, (before ++ keyword ++ front ++ next).length, nextVerb⟩ ::
            verbsFrom (before ++ keyword ++ front ++ next).length 0 rest) = .ok others := by
        have hfrontEnd : (before ++ keyword ++ front).length = (before ++ keyword).length + front.length :=
          List.length_append
        have hnextEnd : (before ++ keyword ++ front ++ next).length =
            (before ++ keyword).length + front.length + next.length := hfrontEnd ▸ List.length_append
        rw [hnextEnd, hfrontEnd]
        simpa only [List.append_assoc] using hothers
      obtain ⟨sections, hsections, -, hparts, hmap⟩ := ih rest.length hshorter hnext hrest hmore rfl
      refine ⟨s :: sections, ?_, List.cons_ne_nil s sections, ⟨?_, fun _ => ⟨?_, ?_⟩, hparts⟩, ?_⟩
      · rw [textOf_cons, htext, ← hsections, List.append_assoc]
      · exact (s.verbsFrom_behind_eq_nil_iff _).mp (hbehind ▸ hnone)
      · rw [← s.rise_behind, hbehind, ← hrise, Int.zero_add]
      · exact s.rest_ne_nil (hbehind ▸ hfront)
      · rw [List.map_cons, hclause, hmap]

theorem exists_sections (h : split text = .ok clauses) :
    ∃ lead sections, Blank lead ∧ text = lead ++ textOf sections ∧ sections ≠ [] ∧ Parts sections ∧
      sections.map Section.clause = clauses := by
  rw [split] at h
  split at h
  · cases h
  rename_i hstart
  rw [not_or, List.isEmpty_iff, Bool.not_eq_true, Bool.not_eq_false'] at hstart
  obtain ⟨hne, hleading⟩ := hstart
  rcases exists_first_verb 0 0 text with
    hnone | ⟨lead, keyword, rest, verb, rfl, hfront, hnone, hrise, hkeyword, hrest⟩
  · exact (hne hnone).elim
  have hverbs := verbsFrom_of_first_verb hfront hnone hrise hkeyword hrest
  rw [Nat.zero_add, ← List.length_append] at hverbs
  rw [verbs_eq, hverbs] at hleading h
  rw [← List.append_assoc] at h
  simp only [List.head?_cons, Option.map_some, Option.getD_some, List.take_left] at hleading
  obtain ⟨sections, htext, hsections⟩ := exists_sections_of_bodies hkeyword hrest h
  exact ⟨lead, sections, List.all_eq_true.mp hleading, by rw [htext], hsections⟩

/-- **Which texts are accepted**, and what their clauses are. -/
theorem split_eq_ok_iff : split text = .ok clauses ↔
    ∃ lead sections, Blank lead ∧ text = lead ++ textOf sections ∧ sections ≠ [] ∧ Parts sections ∧
      sections.map Section.clause = clauses := by
  constructor
  · exact exists_sections
  · rintro ⟨lead, sections, hlead, rfl, hne, hparts, rfl⟩
    exact split_textOf hlead hne hparts

/-! ### Joining again -/

/-- The verb of a clause, in letters of either case, and the body. -/
def Spells (written : List Char × List Char) (clause : UpdateVerb × List Char) : Prop :=
  UpdateVerb.ofWord? (String.ofList written.1) = some clause.1 ∧ written.2 = clause.2

/-- Verbs and bodies with single blanks between them. -/
def rejoin (written : List (List Char × List Char)) : List Char :=
  [' '].intercalate (written.flatMap fun w => [w.1, w.2])

theorem rejoin_cons_cons (first second : List Char × List Char) (more : List (List Char × List Char)) :
    rejoin (first :: second :: more) =
      first.1 ++ ([' '] ++ (first.2 ++ [' '])) ++ rejoin (second :: more) := by
  simp [rejoin, List.intercalate_cons_cons]

/-- Verbs and bodies of sections that can be told apart are sections again when they are joined. -/
theorem exists_sections_of_rejoin {written : List (List Char × List Char)} (h : Parts sections)
    (hwritten : List.Forall₂ Spells written (sections.map Section.clause)) :
    ∃ others, rejoin written = textOf others ∧ Parts others ∧
      others.map Section.clause = sections.map Section.clause := by
  have hblank : Blank [' '] := List.forall_mem_singleton.mpr (by decide)
  induction sections generalizing written with
  | nil =>
    cases hwritten
    exact ⟨[], rfl, trivial, rfl⟩
  | cons s more ih =>
    obtain ⟨hbody, hmore, hparts⟩ := h
    obtain ⟨⟨keyword, body⟩, rest, ⟨hkeyword, rfl⟩, hrest, rfl⟩ := List.forall₂_cons_right_iff.mp hwritten
    obtain ⟨others, hothers, hpartsOthers, hmap⟩ := ih hparts hrest
    cases more with
    | nil =>
      cases hrest
      refine ⟨[⟨s.verb, keyword, [' '], s.body, [], hkeyword, hblank, by simp, s.trimmed, nofun⟩], ?_,
        ⟨hbody, fun hne => (hne rfl).elim, trivial⟩, rfl⟩
      simp [rejoin, textOf, Section.text, Section.behind, Section.clause]
    | cons next more =>
      obtain ⟨second, rest, -, -, rfl⟩ := List.forall₂_cons_right_iff.mp hrest
      refine ⟨⟨s.verb, keyword, [' '], s.body, [' '], hkeyword, hblank, by simp, s.trimmed, hblank⟩ ::
        others, ?_, ⟨hbody, fun _ => ⟨(hmore (List.cons_ne_nil _ _)).1, by simp⟩, hpartsOthers⟩, ?_⟩
      · rw [rejoin_cons_cons, hothers]
        rfl
      · rw [List.map_cons, hmap]
        rfl

/-- **Splitting a text loses nothing.** An accepted text is made of the verbs of its clauses, in letters of
either case, and their bodies, with white space around each verb and at both ends. The bodies are not empty
and have no white space at their ends. And when the bodies are joined again with their verbs, written as
in the text or in any other letters, and with single blanks between them, the same clauses are found. -/
theorem split_rejoined (h : split text = .ok clauses) :
    (∃ lead sections, Blank lead ∧ text = lead ++ textOf sections ∧
      sections.map Section.clause = clauses ∧
        List.Forall₂ Spells (sections.map Section.written) clauses) ∧
      (∀ clause ∈ clauses, clause.2 ≠ [] ∧ trimChars clause.2 = clause.2) ∧
        ∀ written, List.Forall₂ Spells written clauses → split (rejoin written) = .ok clauses := by
  obtain ⟨lead, sections, hlead, rfl, hne, hparts, rfl⟩ := exists_sections h
  have hnil : Blank [] := nofun
  refine ⟨⟨lead, sections, hlead, rfl, rfl, ?_⟩, ?_, fun written hwritten => ?_⟩
  · rw [List.forall₂_map_left_iff, List.forall₂_map_right_iff, List.forall₂_same]
    exact fun s _ => ⟨s.spelled, rfl⟩
  · intro clause hclause
    obtain ⟨s, -, rfl⟩ := List.mem_map.mp hclause
    refine ⟨s.body_ne_nil, ?_⟩
    have htrim := s.trimmed.trimChars_eq hnil hnil
    rwa [List.nil_append, List.append_nil] at htrim
  · obtain ⟨others, hothers, hpartsOthers, hmap⟩ := exists_sections_of_rejoin hparts hwritten
    have hothersNe : others ≠ [] := by
      rintro rfl
      exact hne (List.map_eq_nil_iff.mp hmap.symm)
    rw [hothers, ← hmap]
    exact split_textOf hnil hothersNe hpartsOthers

/-- Verbs in mixed letters, a verb in parentheses that is none, and white space that is no blank. -/
def mixedText : List Char := "\u2003sEt a = f( remove b)\tRemove c ".toList

/-- Its clauses. -/
def mixedClauses : List (UpdateVerb × List Char) :=
  [(.set, "a = f( remove b)".toList), (.remove, "c".toList)]

theorem split_mixedText : split mixedText = .ok mixedClauses := by
  have hwords : words 0 [] mixedText = [(1, "sEt".toList), (5, "a".toList), (7, "=".toList),
      (9, "f(".toList), (12, "remove".toList), (19, "b)".toList), (22, "Remove".toList),
      (29, "c".toList)] := by decide
  have hverbs : verbs mixedText = [⟨1, 4, .set⟩, ⟨22, 28, .remove⟩] := by
    rw [verbs, hwords]
    simp only [verbsAmong_cons]
    decide
  rw [split, hverbs]
  decide

theorem split_rejoined_mixedText : split mixedText = .ok mixedClauses ∧
    (∀ clause ∈ mixedClauses, clause.2 ≠ [] ∧ trimChars clause.2 = clause.2) ∧
      split "sEt a = f( remove b) Remove c".toList = .ok mixedClauses ∧
        split "SET a = f( remove b) REMOVE c".toList = .ok mixedClauses := by
  have hkeywords : UpdateVerb.ofLetters? "sEt".toList = some .set ∧
      UpdateVerb.ofLetters? "Remove".toList = some .remove ∧
        UpdateVerb.ofLetters? "SET".toList = some .set ∧
          UpdateVerb.ofLetters? "REMOVE".toList = some .remove := by decide
  simp only [← UpdateVerb.ofWord?_ofList] at hkeywords
  obtain ⟨hset, hremove, hupperSet, hupperRemove⟩ := hkeywords
  obtain ⟨-, hbodies, hrejoin⟩ := split_rejoined split_mixedText
  have hwritten : rejoin [("sEt".toList, "a = f( remove b)".toList), ("Remove".toList, "c".toList)] =
      "sEt a = f( remove b) Remove c".toList := by decide
  have hupper : rejoin [("SET".toList, "a = f( remove b)".toList), ("REMOVE".toList, "c".toList)] =
      "SET a = f( remove b) REMOVE c".toList := by decide
  rw [← hwritten, ← hupper]
  refine ⟨split_mixedText, hbodies, hrejoin _ ?_, hrejoin _ ?_⟩
  · exact .cons ⟨hset, rfl⟩ (.cons ⟨hremove, rfl⟩ .nil)
  · exact .cons ⟨hupperSet, rfl⟩ (.cons ⟨hupperRemove, rfl⟩ .nil)

end ItemMapper.Clauses
