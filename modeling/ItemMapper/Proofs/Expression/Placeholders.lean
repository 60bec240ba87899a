import ItemMapper.Proofs.Aliases.Coherence
import ItemMapper.Proofs.Clauses.Insertion
import ItemMapper.Proofs.Expression.Template

/-!
# The placeholders in a text

The store reads a placeholder as a sigil with all letters, digits and underscores behind it. A text that
is put together from pieces has the placeholders of the pieces, as long as no piece goes on with such
a character where another one ends. Templates keep to that, and so does the place where an action
goes into an update.

## Main definitions

* `Sigil`: the two kinds of placeholders.
* `placeholdersIn`: the placeholders of a kind in a text.
* `usedIn`: the placeholders of a kind in several texts.

## Main statements

* `placeholdersIn_append`: texts that are put together at a character that ends a placeholder.
* `placeholdersIn_render`: a filled template has the placeholders of its arguments.
* `mem_placeholdersIn_push`: an update with one more action has the placeholders of both.
-/

namespace ItemMapper

/-- The two kinds of placeholders: those for names and those for values. -/
inductive Sigil where
  | name
  | value
deriving DecidableEq, Repr

/-- The character that the placeholders of a kind begin with. -/
def Sigil.char : Sigil → Char
  | name => '#'
  | value => ':'

/-- The placeholders of a kind in a text: every sigil, with the letters, digits and underscores behind
it. -/
def placeholdersIn (sigil : Sigil) : List Char → List String
  | [] => []
  | c :: rest =>
    if c = sigil.char then String.ofList (c :: rest.takeWhile isNameChar) :: placeholdersIn sigil rest
    else placeholdersIn sigil rest

/-- The placeholders of a kind in several texts. -/
def usedIn (sigil : Sigil) (texts : List (List Char)) : List String :=
  texts.flatMap (placeholdersIn sigil)

/-! ### Texts without marks -/

/-- Whether a text has no marks. -/
def isPlain (text : List Char) : Bool := text.all fun c => c != '#' && c != ':'

theorem Sigil.ne_of_isPlain {c : Char} {text : List Char} (h : isPlain (c :: text) = true)
    (sigil : Sigil) : c ≠ sigil.char ∧ isPlain text = true := by
  simp only [isPlain, List.all_cons, Bool.and_eq_true, bne_iff_ne] at h
  obtain ⟨⟨hname, hvalue⟩, hrest⟩ := h
  cases sigil with
  | name => exact ⟨hname, hrest⟩
  | value => exact ⟨hvalue, hrest⟩

theorem isPlain_of_all_isNameChar {text : List Char} (h : text.all isNameChar = true) :
    isPlain text = true := by
  rw [isPlain, List.all_eq_true]
  intro c hc
  have hname := List.all_eq_true.mp h c hc
  rw [Bool.and_eq_true, bne_iff_ne, bne_iff_ne]
  constructor
  · rintro rfl
    exact absurd hname (by decide)
  · rintro rfl
    exact absurd hname (by decide)

variable {sigil : Sigil} {xs ys : List Char}

/-- Text without marks in front of a text adds no placeholders. -/
theorem placeholdersIn_plain_append (h : isPlain xs = true) :
    placeholdersIn sigil (xs ++ ys) = placeholdersIn sigil ys := by
  induction xs with
  | nil => rfl
  | cons c xs ih =>
    obtain ⟨hc, hrest⟩ := Sigil.ne_of_isPlain h sigil
    rw [List.cons_append, placeholdersIn, if_neg hc, ih hrest]

theorem placeholdersIn_plain (h : isPlain xs = true) : placeholdersIn sigil xs = [] := by
  have happend : placeholdersIn sigil (xs ++ []) = placeholdersIn sigil [] :=
    placeholdersIn_plain_append h
  rwa [List.append_nil] at happend

/-! ### Texts that are put together -/

theorem takeWhile_append_of_neg {p : Char → Bool} (hys : ∀ c, ys.head? = some c → p c = false) :
    (xs ++ ys).takeWhile p = xs.takeWhile p := by
  induction xs with
  | nil =>
    cases ys with
    | nil => rfl
    | cons c ys => simp [hys c rfl]
  | cons x xs ih =>
    rw [List.cons_append, List.takeWhile_cons, List.takeWhile_cons, ih]

/-- **A text falls apart at a character that ends a placeholder.** -/
theorem placeholdersIn_append (hys : ∀ c, ys.head? = some c → isNameChar c = false) :
    placeholdersIn sigil (xs ++ ys) = placeholdersIn sigil xs ++ placeholdersIn sigil ys := by
  induction xs with
  | nil => rfl
  | cons x xs ih =>
    rw [List.cons_append, placeholdersIn, placeholdersIn, takeWhile_append_of_neg hys, ih]
    by_cases hx : x = sigil.char
    · rw [if_pos hx, if_pos hx, List.cons_append]
    · rw [if_neg hx, if_neg hx]

/-- Two texts with text between them that has no marks and ends a placeholder. -/
theorem placeholdersIn_between {c : Char} {separator : List Char} (hc : isNameChar c = false)
    (hplain : isPlain (c :: separator) = true) :
    placeholdersIn sigil (xs ++ c :: (separator ++ ys)) =
      placeholdersIn sigil xs ++ placeholdersIn sigil ys := by
  have hhead : ∀ d, (c :: (separator ++ ys)).head? = some d → isNameChar d = false := by
    intro d hd
    cases hd
    exact hc
  rw [placeholdersIn_append hhead, ← List.cons_append, placeholdersIn_plain_append hplain]

/-- Text without marks that ends a placeholder adds no placeholders behind a text. -/
theorem placeholdersIn_append_plain {c : Char} {separator : List Char} (hc : isNameChar c = false)
    (hplain : isPlain (c :: separator) = true) :
    placeholdersIn sigil (xs ++ c :: separator) = placeholdersIn sigil xs := by
  have hbetween : placeholdersIn sigil (xs ++ c :: (separator ++ [])) =
      placeholdersIn sigil xs ++ placeholdersIn sigil [] := placeholdersIn_between hc hplain
  rwa [List.append_nil, placeholdersIn, List.append_nil] at hbetween

/-- A placeholder is the placeholder in it. -/
theorem placeholdersIn_placeholder {placeholder : String} {other : Sigil}
    (h : Aliases.isPlaceholder sigil.char placeholder = true) :
    placeholdersIn other placeholder.toList = if other = sigil then [placeholder] else [] := by
  obtain ⟨cs, htext, hall⟩ := Aliases.exists_cons_of_isPlaceholder h
  have hrest : placeholdersIn other cs = [] := placeholdersIn_plain (isPlain_of_all_isNameChar hall)
  have htake : cs.takeWhile isNameChar = cs :=
    List.takeWhile_eq_self_iff.mpr (List.all_eq_true.mp hall)
  rw [htext, placeholdersIn, hrest, htake, ← htext, String.ofList_toList]
  cases sigil <;> cases other <;> rfl

/-! ### Lists of texts -/

theorem usedIn_cons (text : List Char) (texts : List (List Char)) :
    usedIn sigil (text :: texts) = placeholdersIn sigil text ++ usedIn sigil texts := rfl

theorem usedIn_append (texts others : List (List Char)) :
    usedIn sigil (texts ++ others) = usedIn sigil texts ++ usedIn sigil others := List.flatMap_append

theorem usedIn_nil : usedIn sigil [] = [] := rfl

/-- Texts with commas between them have the placeholders of the texts. -/
theorem placeholdersIn_intercalate (texts : List String) :
    placeholdersIn sigil (", ".intercalate texts).toList = usedIn sigil (texts.map String.toList) := by
  rw [String.toList_intercalate]
  have hsep : ", ".toList = [',', ' '] := rfl
  rw [hsep]
  induction texts with
  | nil => rfl
  | cons text texts ih =>
    cases texts with
    | nil =>
      rw [List.map_cons, List.map_nil, List.intercalate_singleton, usedIn_cons, usedIn_nil,
        List.append_nil]
    | cons next texts =>
      rw [List.map_cons, List.map_cons, List.intercalate_cons_cons, List.append_assoc]
      change placeholdersIn sigil (text.toList ++ ',' :: ([' '] ++ _)) = _
      rw [placeholdersIn_between (by decide) (by decide), ← List.map_cons, ih, usedIn_cons]

/-! ### Templates -/

theorem isPlain_name (function : StoreFunction) : isPlain function.name.toList = true := by
  cases function <;> decide

theorem placeholdersIn_named {function : StoreFunction} (args : List String) :
    placeholdersIn sigil (function.name ++ "(" ++ ", ".intercalate args ++ ")").toList =
      usedIn sigil (args.map String.toList) := by
  have htext : (function.name ++ "(" ++ ", ".intercalate args ++ ")").toList =
      function.name.toList ++ '(' :: ([] ++ ((", ".intercalate args).toList ++ [')'])) := by simp
  rw [htext, placeholdersIn_between (by decide) (by decide), placeholdersIn_plain (isPlain_name _),
    placeholdersIn_append_plain (by decide) (by decide), placeholdersIn_intercalate, List.nil_append]

/-- The ways in which calls are written. -/
theorem StoreFunction.isNamed_or (function : StoreFunction) :
    function.isNamed = true ∨ function = .between ∨ function = .isIn ∨ function = .set ∨
      function = .remove ∨ (function = .add ∨ function = .delete) := by
  cases function <;> simp [isNamed]

/-- **A filled template has the placeholders of its arguments**, each as often as the argument stands
in it. -/
theorem placeholdersIn_render {function : StoreFunction} {args : List String} {text : String}
    (htakes : function.takes args.length = true)
    (h : Template.render function.template args = .ok text) :
    placeholdersIn sigil text.toList = usedIn sigil (args.map String.toList) := by
  have harity : function ≠ .isIn → args.length = function.arity := by
    intro hne
    have hfixed : function.isVariadic = false := by
      cases function <;> first | rfl | exact absurd rfl hne
    rw [StoreFunction.takes, hfixed] at htakes
    exact beq_iff_eq.mp htakes
  rcases function.isNamed_or with hnamed | rfl | rfl | rfl | rfl | hpair
  · rw [render_named hnamed (harity (by rintro rfl; cases hnamed))] at h
    cases h
    exact placeholdersIn_named args
  · obtain ⟨x, low, high, rfl⟩ := List.length_eq_three.mp (harity nofun)
    rw [render_between] at h
    cases h
    have htext : (x ++ " BETWEEN " ++ low ++ " AND " ++ high).toList =
        x.toList ++ ' ' :: ("BETWEEN ".toList ++
          (low.toList ++ ' ' :: ("AND ".toList ++ high.toList))) := by
      simp
    rw [htext, placeholdersIn_between (by decide) (by decide),
      placeholdersIn_between (by decide) (by decide)]
    simp [usedIn]
  · cases args with
    | nil => cases htakes
    | cons x candidates =>
      rw [render_isIn] at h
      cases h
      have htext : (x ++ " IN (" ++ ", ".intercalate candidates ++ ")").toList =
          x.toList ++ ' ' :: ("IN (".toList ++ ((", ".intercalate candidates).toList ++ [')'])) := by
        simp
      rw [htext, placeholdersIn_between (by decide) (by decide),
        placeholdersIn_append_plain (by decide) (by decide), placeholdersIn_intercalate,
        List.map_cons, usedIn_cons]
  · obtain ⟨x, value, rfl⟩ := List.length_eq_two.mp (harity nofun)
    rw [render_set] at h
    cases h
    have htext : (x ++ " = " ++ value).toList = x.toList ++ ' ' :: ("= ".toList ++ value.toList) := by
      simp
    rw [htext, placeholdersIn_between (by decide) (by decide)]
    simp [usedIn]
  · obtain ⟨x, rfl⟩ := List.length_eq_one_iff.mp (harity nofun)
    rw [render_remove] at h
    cases h
    simp [usedIn]
  · have hargs : args.length = 2 := by
      rcases hpair with rfl | rfl <;> exact harity nofun
    obtain ⟨x, value, rfl⟩ := List.length_eq_two.mp hargs
    rw [render_pair hpair] at h
    cases h
    have htext : (x ++ " " ++ value).toList = x.toList ++ ' ' :: ([] ++ value.toList) := by simp
    rw [htext, placeholdersIn_between (by decide) (by decide)]
    simp [usedIn]

/-! ### Updates -/

namespace Clauses

open Unicode (isBlank)

/-- Words start one after the other. -/
theorem pairwise_words {position : Nat} {word : List Char} (h : word.length ≤ position)
    (text : List Char) :
    (words position word text).Pairwise (fun x y => x.1 < y.1) ∧
      ∀ entry ∈ words position word text, position - word.length ≤ entry.1 := by
  induction text generalizing position word with
  | nil =>
    rw [words]
    split
    · exact ⟨.nil, List.forall_mem_nil _⟩
    · exact ⟨List.pairwise_singleton _ _, List.forall_mem_singleton.mpr (Nat.le_refl _)⟩
  | cons c text ih =>
    rw [words]
    by_cases hc : isBlank c = true
    · rw [if_pos hc]
      have hnil : ([] : List Char).length ≤ position + 1 := Nat.zero_le _
      obtain ⟨hpairwise, hstart⟩ := ih hnil
      rw [List.length_nil] at hstart
      by_cases hword : word.isEmpty = true
      · rw [if_pos hword]
        refine ⟨hpairwise, fun entry hentry => ?_⟩
        have hle := hstart entry hentry
        omega
      · rw [if_neg hword]
        have hne : 0 < word.length := List.length_pos_iff.mpr (by simpa using hword)
        refine ⟨List.pairwise_cons.mpr ⟨fun entry hentry => ?_, hpairwise⟩, ?_⟩
        · have hle := hstart entry hentry
          simp only
          omega
        · refine List.forall_mem_cons.mpr ⟨Nat.le_refl _, fun entry hentry => ?_⟩
          have hle := hstart entry hentry
          omega
    · rw [if_neg hc]
      have hlength : (c :: word).length = word.length + 1 := rfl
      have hlonger : (c :: word).length ≤ position + 1 := by omega
      obtain ⟨hpairwise, hstart⟩ := ih hlonger
      refine ⟨hpairwise, fun entry hentry => ?_⟩
      have hle := hstart entry hentry
      omega

theorem verbsAmong_sublist (depth : Int) (entries : List (Nat × List Char)) :
    ((verbsAmong depth entries).map (·.start)).Sublist (entries.map (·.1)) := by
  induction entries generalizing depth with
  | nil => exact .slnil
  | cons entry rest ih =>
    obtain ⟨start, word⟩ := entry
    rw [verbsAmong]
    split
    · exact (ih depth).cons_cons start
    · exact (ih _).cons start

/-- Verbs stand one after the other. -/
theorem pairwise_verbs (text : List Char) :
    (verbs text).Pairwise fun x y => x.start < y.start := by
  have hnil : ([] : List Char).length ≤ 0 := Nat.le_refl 0
  have hwords := (pairwise_words hnil text).1
  have hstarts : ((verbs text).map (·.start)).Pairwise (· < ·) :=
    (List.pairwise_map.mpr hwords).sublist (verbsAmong_sublist 0 _)
  exact List.pairwise_map.mp hstarts

/-- A clause ends with the text or in front of a verb, which is not the first one. -/
theorem endOf?_eq_some {text : List Char} {verb : UpdateVerb} {stop : Nat} :
    ∀ {occurrences : List Occurrence},
      occurrences.Pairwise (fun x y => x.start < y.start) →
      endOf? text verb occurrences = some stop →
      stop = text.length ∨ ∃ next ∈ occurrences, 0 < next.start ∧
        stop = trimmedLength (text.take next.start)
  | [], _, h => nomatch h
  | o :: rest, hpairwise, h => by
    obtain ⟨hfirst, hrest⟩ := List.pairwise_cons.mp hpairwise
    by_cases ho : o.verb = verb
    · rw [endOf?_cons_of_eq ho] at h
      cases rest with
      | nil => exact .inl (Option.some.inj h).symm
      | cons next more =>
        refine .inr ⟨next, by simp, ?_, (Option.some.inj h).symm⟩
        have hlt := hfirst next List.mem_cons_self
        omega
    · rw [endOf?_cons_of_ne ho] at h
      refine (endOf?_eq_some hrest h).imp_right ?_
      rintro ⟨next, hmem, hnext⟩
      exact ⟨next, List.mem_cons_of_mem _ hmem, hnext⟩

/-- **An action goes behind a text or into it in front of a blank.** -/
theorem push_cases (text : List Char) (verb : UpdateVerb) (action : List Char) :
    push text verb action =
        (if text.isEmpty then [] else text ++ [' ']) ++ verb.keyword.toList ++ ' ' :: action ∨
      ∃ front back, text = front ++ back ∧ (∀ c, back.head? = some c → isBlank c = true) ∧
        push text verb action = front ++ ", ".toList ++ action ++ back := by
  cases hend : endOf? text verb (verbs text) with
  | none =>
    refine .inl ?_
    rw [push, hend]
  | some stop =>
    refine .inr ?_
    have hpush : push text verb action =
        text.take stop ++ ", ".toList ++ action ++ text.drop stop := by
      rw [push, hend]
    rw [hpush]
    refine ⟨_, _, (List.take_append_drop stop text).symm, ?_, rfl⟩
    rcases endOf?_eq_some (pairwise_verbs text) hend with rfl | ⟨next, hnext, hpos, rfl⟩
    · rw [List.drop_length]
      intro c hc
      cases hc
    · obtain ⟨before, behind, rfl, hstart, -, hblank⟩ := isWordStart_of_mem_verbsFrom hnext
      obtain ⟨kept, blanks, rfl, hkept, hblanks, hlast⟩ := exists_trimmedLength before
      have htake : (kept ++ blanks ++ behind).take next.start = kept ++ blanks := by
        rw [hstart, Nat.zero_add, List.take_left]
      rw [htake, hkept, List.append_assoc, List.drop_left]
      -- there are blanks in front of the verb: it is not the first word
      cases blanks with
      | cons b blanks =>
        intro c hc
        cases hc
        exact hblanks b List.mem_cons_self
      | nil =>
        rw [List.append_nil, Nat.zero_add] at hstart
        have hne : kept ≠ [] := List.length_pos_iff.mp (by omega)
        have hsome := List.getLast?_eq_some_getLast hne
        rw [List.append_nil] at hblank
        have hno := hlast _ hsome
        rw [hblank _ hsome] at hno
        cases hno

end Clauses

/-- **An update with one more action has the placeholders of both.** -/
theorem mem_placeholdersIn_push {text action : List Char} {verb : UpdateVerb} {placeholder : String} :
    placeholder ∈ placeholdersIn sigil (Clauses.push text verb action) ↔
      placeholder ∈ placeholdersIn sigil text ∨ placeholder ∈ placeholdersIn sigil action := by
  have hkeyword : isPlain verb.keyword.toList = true := by cases verb <;> decide
  have hclause : placeholdersIn sigil (verb.keyword.toList ++ ' ' :: action) =
      placeholdersIn sigil action := by
    change placeholdersIn sigil (verb.keyword.toList ++ ' ' :: ([] ++ action)) = _
    rw [placeholdersIn_between (by decide) (by decide), placeholdersIn_plain hkeyword,
      List.nil_append]
  rcases Clauses.push_cases text verb action with heq | ⟨front, back, rfl, hback, heq⟩
  · rw [heq]
    cases text with
    | nil => simp [hclause, placeholdersIn]
    | cons c text =>
      have htext : (if (c :: text).isEmpty = true then [] else c :: text ++ [' ']) ++
          verb.keyword.toList ++ ' ' :: action =
          c :: text ++ ' ' :: ([] ++ (verb.keyword.toList ++ ' ' :: action)) := by simp
      rw [htext, placeholdersIn_between (by decide) (by decide), hclause, List.mem_append]
  · have hback : ∀ c, back.head? = some c → isNameChar c = false := by
      intro c hc
      by_contra hname
      rw [Bool.not_eq_false] at hname
      have hno := Clauses.isBlank_of_isNameChar hname
      rw [hback c hc] at hno
      cases hno
    have htext : front ++ ", ".toList ++ action ++ back =
        front ++ ',' :: ([' '] ++ (action ++ back)) := by simp
    rw [heq, htext, placeholdersIn_between (by decide) (by decide), placeholdersIn_append hback,
      placeholdersIn_append hback]
    simp only [List.mem_append]
    tauto

end ItemMapper
