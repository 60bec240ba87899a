import ItemMapper.Proofs.Clauses.Words

/-!
# Putting actions into a text

An action goes to the end of the clause with its verb, where the next verb or the text ends. That is
the end of the clause if its verb is the first one of its kind and no word behind it in the clause
reads as a verb; otherwise the action goes to an earlier place.

## Main definitions

* `Clauses.verbWords`: the verbs of a text, without their positions.
* `Clauses.Solid`: a text that does not end with a blank.

## Main statements

* `Clauses.push_of_last`, `Clauses.push_ne_of_not_last`: an action with a clause.
* `Clauses.push_of_unseen`, `Clauses.push_ne_of_seen`: the first action with its verb.
-/

namespace ItemMapper.Clauses

open Unicode (isBlank)

/-! ### Pieces of text -/

/-- A text that does not end with a blank. -/
def Solid (text : List Char) : Prop := ∃ c, text.getLast? = some c ∧ isBlank c = false

theorem Solid.append {text : List Char} (h : Solid text) (front : List Char) :
    Solid (front ++ text) := by
  obtain ⟨c, hlast, hc⟩ := h
  refine ⟨c, ?_, hc⟩
  rw [List.getLast?_append, hlast]
  rfl

theorem Solid.cons {text : List Char} (h : Solid text) (c : Char) : Solid (c :: text) :=
  h.append [c]

theorem solid_intercalate {separator : List Char} {texts : List (List Char)}
    (h : ∀ text ∈ texts, Solid text) (hne : texts ≠ []) : Solid (separator.intercalate texts) := by
  induction texts with
  | nil => exact absurd rfl hne
  | cons text texts ih =>
    cases texts with
    | nil =>
      rw [List.intercalate_singleton]
      exact h text List.mem_cons_self
    | cons next texts =>
      rw [List.intercalate_cons_cons]
      exact (ih (fun text ht => h text (List.mem_cons_of_mem _ ht)) nofun).append _

theorem rise_intercalate {separator : List Char} {texts : List (List Char)}
    (hseparator : rise separator = 0) (h : ∀ text ∈ texts, rise text = 0) :
    rise (separator.intercalate texts) = 0 := by
  induction texts with
  | nil => rfl
  | cons text texts ih =>
    have htext := h text List.mem_cons_self
    cases texts with
    | nil => rwa [List.intercalate_singleton]
    | cons next texts =>
      rw [List.intercalate_cons_cons, rise_append, rise_append, htext, hseparator,
        ih fun text ht => h text (List.mem_cons_of_mem _ ht)]
      rfl

/-- The verbs of a text, without their positions. -/
def verbWords (text : List Char) : List UpdateVerb := (verbs text).map (·.verb)

theorem map_verb_verbsFrom_zero (position : Nat) (text : List Char) :
    (verbsFrom position 0 text).map (·.verb) = verbWords text :=
  map_verb_verbsFrom position 0 0 text

theorem verbWords_append {xs : List Char} (h : rise xs = 0) (ys : List Char) :
    verbWords (xs ++ ' ' :: ys) = verbWords xs ++ verbWords ys := by
  rw [verbWords, verbs_eq, verbsFrom_append, List.map_append, h, Int.add_zero,
    map_verb_verbsFrom_zero, map_verb_verbsFrom_zero]

/-- A clause begins with its verb. -/
theorem verbsFrom_clause (position : Nat) (verb : UpdateVerb) (rest : List Char) :
    verbsFrom position 0 (verb.keyword.toList ++ ' ' :: rest) =
      ⟨position, position + verb.keyword.toList.length, verb⟩ ::
        verbsFrom (position + verb.keyword.toList.length + 1) 0 rest := by
  have hne : verb.keyword.toList ≠ [] := by cases verb <;> decide
  have hall : verb.keyword.toList.all (! isBlank ·) = true := by cases verb <;> decide
  have hsolid : ∀ c ∈ verb.keyword.toList, isBlank c = false := by
    simpa only [List.all_eq_true, Bool.not_eq_true'] using hall
  have hlevel : rise verb.keyword.toList = 0 := by cases verb <;> decide
  have hword : UpdateVerb.ofWord? (String.ofList verb.keyword.toList) = some verb := by
    cases verb <;> cbv
  rw [verbsFrom_append, hlevel, Int.add_zero]
  have hfirst : verbsFrom position 0 verb.keyword.toList =
      [⟨position, position + verb.keyword.toList.length, verb⟩] := by
    rw [verbsFrom, words_of_solid hne hsolid, verbsAmong, if_pos rfl, hword]
    rfl
  rw [hfirst]
  rfl

/-! ### The end of a clause -/

theorem endOf?_cons_of_eq {text : List Char} {verb : UpdateVerb} {o : Occurrence}
    (h : o.verb = verb) (rest : List Occurrence) :
    endOf? text verb (o :: rest) =
      match rest with
      | next :: _ => some (trimmedLength (text.take next.start))
      | [] => some text.length := by
  cases rest <;> exact if_pos h

theorem endOf?_cons_of_ne {text : List Char} {verb : UpdateVerb} {o : Occurrence}
    (h : o.verb ≠ verb) (rest : List Occurrence) :
    endOf? text verb (o :: rest) = endOf? text verb rest := by
  cases rest <;> exact if_neg h

theorem endOf?_append {text : List Char} {verb : UpdateVerb} {xs : List Occurrence} {o : Occurrence}
    (hxs : ∀ x ∈ xs, x.verb ≠ verb) (ho : o.verb = verb) (ys : List Occurrence) :
    endOf? text verb (xs ++ o :: ys) =
      match ys with
      | next :: _ => some (trimmedLength (text.take next.start))
      | [] => some text.length := by
  induction xs with
  | nil => exact endOf?_cons_of_eq ho ys
  | cons x xs ih =>
    rw [List.cons_append, endOf?_cons_of_ne (hxs x List.mem_cons_self)]
    exact ih fun x hx => hxs x (List.mem_cons_of_mem _ hx)

theorem endOf?_eq_none {text : List Char} {verb : UpdateVerb} {xs : List Occurrence}
    (h : ∀ x ∈ xs, x.verb ≠ verb) : endOf? text verb xs = none := by
  induction xs with
  | nil => rfl
  | cons x xs ih =>
    rw [endOf?_cons_of_ne (h x List.mem_cons_self)]
    exact ih fun x hx => h x (List.mem_cons_of_mem _ hx)

/-- What is kept of a text where blanks at its end are dropped. -/
theorem exists_trimmedLength (text : List Char) :
    ∃ kept blanks, text = kept ++ blanks ∧ trimmedLength text = kept.length ∧
      (∀ c ∈ blanks, isBlank c = true) ∧ ∀ c, kept.getLast? = some c → isBlank c = false := by
  refine ⟨(text.reverse.dropWhile isBlank).reverse, (text.reverse.takeWhile isBlank).reverse, ?_, ?_,
    ?_, ?_⟩
  · rw [← List.reverse_append, List.takeWhile_append_dropWhile, List.reverse_reverse]
  · rw [List.length_reverse]
    rfl
  · intro c hc
    exact List.mem_takeWhile_imp (List.mem_reverse.mp hc)
  · intro c hc
    rw [List.getLast?_reverse] at hc
    have hnot := List.head?_dropWhile_not isBlank text.reverse
    rw [hc] at hnot
    exact hnot

theorem trimmedLength_append_blank {text : List Char} (h : Solid text) :
    trimmedLength (text ++ [' ']) = text.length := by
  obtain ⟨c, hlast, hc⟩ := h
  obtain ⟨init, rfl⟩ := List.getLast?_eq_some_iff.mp hlast
  have hblank : isBlank ' ' = true := by decide
  simp [trimmedLength, hblank, hc]

variable {front rest : List Char} {verb : UpdateVerb} {xs : List Occurrence} {o : Occurrence}

/-- What stands behind a clause: nothing, or another clause. -/
def BeginsClause (rest : List Char) : Prop :=
  rest = [] ∨ ∃ (verb : UpdateVerb) (body : List Char),
    rest = ' ' :: (verb.keyword.toList ++ ' ' :: body)

/-- **An action goes to the end of its clause** if no word in the clause reads as a verb. -/
theorem push_of_last (hsolid : Solid front) (hlevel : rise front = 0) (hrest : BeginsClause rest)
    (hverbs : verbs front = xs ++ [o]) (hxs : ∀ x ∈ xs, x.verb ≠ verb) (ho : o.verb = verb)
    (argument : List Char) :
    push (front ++ rest) verb argument = front ++ ", ".toList ++ argument ++ rest := by
  have hend : endOf? (front ++ rest) verb (verbs (front ++ rest)) = some front.length := by
    rcases hrest with rfl | ⟨next, body, rfl⟩
    · rw [List.append_nil, hverbs, endOf?_append hxs ho]
    · rw [verbs_eq, verbsFrom_append, ← verbs_eq, hverbs, hlevel, Int.add_zero, verbsFrom_clause,
        List.append_assoc, List.singleton_append, endOf?_append hxs ho]
      have htake : (front ++ ' ' :: (next.keyword.toList ++ ' ' :: body)).take
          (0 + front.length + 1) = front ++ [' '] := by
        rw [Nat.zero_add, List.take_append, List.take_of_length_le (by omega),
          Nat.add_sub_cancel_left]
        rfl
      simp only [htake, trimmedLength_append_blank hsolid]
  rw [push, hend]
  simp

/-- An action does not go to the end of its clause if a word in front of that hides it. -/
theorem push_ne_of_not_last {next : Occurrence} {more : List Occurrence}
    (hrest : BeginsClause rest) (hfirst : front.head? ≠ some ',')
    (hverbs : verbs front = xs ++ o :: next :: more) (hxs : ∀ x ∈ xs, x.verb ≠ verb)
    (ho : o.verb = verb) (argument : List Char) :
    push (front ++ rest) verb argument ≠ front ++ ", ".toList ++ argument ++ rest := by
  have hall : ∃ others, verbs (front ++ rest) = xs ++ o :: next :: others := by
    rcases hrest with rfl | ⟨_, _, rfl⟩
    · exact ⟨more, by rw [List.append_nil, hverbs]⟩
    · rw [verbs_eq, verbsFrom_append, ← verbs_eq, hverbs]
      exact ⟨_, by rw [List.append_assoc, List.cons_append, List.cons_append]⟩
  obtain ⟨others, hothers⟩ := hall
  have hnext : next ∈ verbsFrom 0 0 front := by
    rw [← verbs_eq, hverbs]
    simp
  obtain ⟨before, behind, rfl, hstart, hbehind, hblank⟩ :=
    isWordStart_of_mem_verbsFrom hnext
  obtain ⟨kept, blanks, rfl, hkept, hblanks, hlast⟩ := exists_trimmedLength before
  have hend : endOf? (kept ++ blanks ++ behind ++ rest) verb
      (verbs (kept ++ blanks ++ behind ++ rest)) = some kept.length := by
    rw [hothers, endOf?_append hxs ho]
    have htake : (kept ++ blanks ++ behind ++ rest).take next.start = kept ++ blanks := by
      rw [hstart, Nat.zero_add, List.append_assoc, List.take_left]
    simp only [htake, hkept]
  -- the inserted comma would stand where the text has a blank, or its first character
  rw [push, hend]
  intro heq
  simp only [List.append_assoc, List.take_left', List.append_cancel_left_eq] at heq
  cases blanks with
  | cons b blanks =>
    obtain ⟨rfl, -⟩ := List.cons.inj heq
    cases hblanks ',' List.mem_cons_self
  | nil =>
    have hempty : kept = [] := by
      rw [List.append_nil] at hblank
      by_contra hne
      have hsome := List.getLast?_eq_some_getLast hne
      have hno := hlast _ hsome
      rw [hblank _ hsome] at hno
      cases hno
    obtain ⟨c, behind, rfl⟩ := List.exists_cons_of_ne_nil hbehind
    obtain ⟨rfl, -⟩ := List.cons.inj heq
    rw [hempty] at hfirst
    exact hfirst rfl

/-- The first action with its verb gets a new clause. -/
theorem push_of_unseen {text : List Char} (h : verb ∉ verbWords text) (argument : List Char) :
    push text verb argument =
      (if text.isEmpty then [] else text ++ [' ']) ++ verb.keyword.toList ++ ' ' :: argument := by
  have hnone : endOf? text verb (verbs text) = none := by
    refine endOf?_eq_none fun x hx hverb => h ?_
    rw [← hverb]
    exact List.mem_map_of_mem hx
  rw [push, hnone]

/-- An action does not get a new clause if a word in the text reads as its verb. -/
theorem push_ne_of_seen {text : List Char} (h : verb ∈ verbWords text) (argument : List Char) :
    push text verb argument ≠ text ++ ' ' :: (verb.keyword.toList ++ ' ' :: argument) := by
  obtain ⟨o, ho, hverb⟩ := List.mem_map.mp h
  obtain ⟨stop, hend⟩ : ∃ stop, endOf? text verb (verbs text) = some stop := by
    obtain ⟨xs, ys, hsplit, hxs⟩ := List.eq_append_cons_of_mem h
    obtain ⟨os, others, hos, rfl, hothers⟩ := List.map_eq_append_iff.mp hsplit
    obtain ⟨o, more, rfl, ho, -⟩ := List.map_eq_cons_iff.mp hothers
    rw [hos, endOf?_append _ ho]
    · split <;> exact ⟨_, rfl⟩
    · intro x hx hverb
      exact hxs (hverb ▸ List.mem_map_of_mem hx)
  rw [push, hend]
  intro heq
  have hlength := congrArg List.length heq
  have hkeyword : 3 ≤ verb.keyword.toList.length := by cases verb <;> decide
  have hcomma : ", ".toList.length = 2 := by decide
  simp only [List.length_append, List.length_cons, List.length_take, List.length_drop,
    hcomma] at hlength
  omega

end ItemMapper.Clauses
