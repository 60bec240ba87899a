import ItemMapper.Proofs.Clauses.Insertion

/-!
# Merging the clauses of updates

Each action is put into the text that the actions before it have left, at the end of the clause with
its verb. The clause is found by its verb, and the end of it by the next verb, so an argument with a
word in it that reads as a verb can hide both. The text has one clause for each verb exactly as long
as no action comes after an argument that hides its clause.

## Main definitions

* `Clauses.written`: the text that comes of actions one by one.
* `Clauses.merged`: one clause for each verb, with the arguments of all its actions.
* `Clauses.Neat`: a text that can be the argument of an action.
* `Clauses.Admits`, `Clauses.Settled`: no argument hides the clause of an action.

## Main statements

* `Clauses.push_merged`: what one action preserves.
* `Clauses.written_eq_merged`: **the text is merged exactly if the actions are settled**.
-/

namespace ItemMapper.Clauses

/-! ### Merged text -/

/-- The verb and the argument of an action. -/
abbrev Action := UpdateVerb × List Char

/-- The text that comes of actions one by one. -/
def written (actions : List Action) : List Char :=
  actions.foldl (fun text action => push text action.1 action.2) []

/-- The verbs of actions, in the order of their first actions. -/
def clauseVerbs (actions : List Action) : List UpdateVerb := (actions.map (·.1)).eraseDups

/-- The arguments of the actions with a verb, in order. -/
def argumentsOf (actions : List Action) (verb : UpdateVerb) : List (List Char) :=
  (actions.filter (·.1 = verb)).map (·.2)

/-- The clause of a verb: the keyword and the arguments, with commas between them. -/
def clause (actions : List Action) (verb : UpdateVerb) : List Char :=
  verb.keyword.toList ++ ' ' :: [',', ' '].intercalate (argumentsOf actions verb)

/-- One clause for each verb, with blanks between them. -/
def merged (actions : List Action) : List Char :=
  [' '].intercalate ((clauseVerbs actions).map (clause actions))

/-- An argument with a word outside parentheses that reads as a verb. -/
def IsDisturbing (argument : List Char) : Prop := verbs argument ≠ []

/-- No disturbing argument hides the clause that an action with the verb belongs to. A disturbing word
is a `remove`: it hides the end of the clause that it stands in, and the beginning of a REMOVE clause
that does not stand in front of it. -/
def Admits (before : List Action) (verb : UpdateVerb) : Prop :=
  ∀ earlier ∈ before, IsDisturbing earlier.2 →
    earlier.1 ≠ verb ∧ (verb = .remove → [.remove, earlier.1].Sublist (clauseVerbs before))

/-- The actions before each action admit it. -/
def Settled (actions : List Action) : Prop :=
  ∀ before action, before ++ [action] <+: actions → Admits before action.1

/-- A text that can be the argument of an action: its parentheses are closed, and no word outside them
reads as a verb but `remove`. -/
structure Neat (text : List Char) : Prop where
  solid : Solid text
  blanks : BlanksFrom 0 0 text
  level : rise text = 0
  verbs : ∀ word ∈ verbWords text, word = .remove

/-! ### The clauses of actions -/

theorem intercalate_append {separator : List Char} {xs : List (List Char)} (h : xs ≠ [])
    (ys : List (List Char)) :
    separator.intercalate (xs ++ ys) =
      separator.intercalate xs ++ (ys.map (separator ++ ·)).flatten := by
  have hcons : ∀ (x : List Char) (ys : List (List Char)),
      separator.intercalate (x :: ys) = x ++ (ys.map (separator ++ ·)).flatten := by
    intro x ys
    induction ys generalizing x with
    | nil => simp
    | cons y ys ih =>
      rw [List.intercalate_cons_cons, ih, List.map_cons, List.flatten_cons, List.append_assoc,
        List.append_assoc]
  obtain ⟨x, xs, rfl⟩ := List.exists_cons_of_ne_nil h
  rw [List.cons_append, hcons, hcons, List.map_append, List.flatten_append, List.append_assoc]

/-- The clauses of some verbs, with blanks between them. -/
def clausesOf (actions : List Action) (verbs : List UpdateVerb) : List Char :=
  [' '].intercalate (verbs.map (clause actions))

/-- The clauses of some verbs behind other clauses. -/
def moreClauses (actions : List Action) (verbs : List UpdateVerb) : List Char :=
  ((verbs.map (clause actions)).map ([' '] ++ ·)).flatten

theorem merged_eq (actions : List Action) : merged actions = clausesOf actions (clauseVerbs actions) :=
  rfl

theorem clausesOf_append {actions : List Action} {us : List UpdateVerb} (h : us ≠ [])
    (ws : List UpdateVerb) :
    clausesOf actions (us ++ ws) = clausesOf actions us ++ moreClauses actions ws := by
  rw [clausesOf, List.map_append, intercalate_append (by rwa [ne_eq, List.map_eq_nil_iff])]
  rfl

theorem beginsClause_moreClauses (actions : List Action) (verbs : List UpdateVerb) :
    BeginsClause (moreClauses actions verbs) := by
  cases verbs with
  | nil => exact .inl rfl
  | cons verb verbs =>
    refine .inr ⟨verb, [',', ' '].intercalate (argumentsOf actions verb) ++
      moreClauses actions verbs, ?_⟩
    rw [moreClauses, List.map_cons, List.map_cons, List.flatten_cons, clause]
    simp [moreClauses]

theorem mem_argumentsOf {actions : List Action} {verb : UpdateVerb} {argument : List Char} :
    argument ∈ argumentsOf actions verb ↔ (verb, argument) ∈ actions := by
  rw [argumentsOf, List.mem_map]
  constructor
  · rintro ⟨⟨verb', argument'⟩, hmem, rfl⟩
    obtain ⟨hmem, hverb⟩ := List.mem_filter.mp hmem
    rwa [← decide_eq_true_eq.mp hverb]
  · intro h
    exact ⟨(verb, argument), List.mem_filter.mpr ⟨h, decide_eq_true rfl⟩, rfl⟩

theorem mem_clauseVerbs {actions : List Action} {verb : UpdateVerb} :
    verb ∈ clauseVerbs actions ↔ ∃ argument, (verb, argument) ∈ actions := by
  rw [clauseVerbs, List.mem_eraseDups, List.mem_map]
  constructor
  · rintro ⟨⟨verb', argument⟩, hmem, rfl⟩
    exact ⟨argument, hmem⟩
  · rintro ⟨argument, hmem⟩
    exact ⟨(verb, argument), hmem, rfl⟩

variable {actions before : List Action} {verb other : UpdateVerb}

theorem clauseVerbs_concat (before : List Action) (verb : UpdateVerb) (argument : List Char) :
    clauseVerbs (before ++ [(verb, argument)]) =
      if verb ∈ clauseVerbs before then clauseVerbs before else clauseVerbs before ++ [verb] := by
  rw [clauseVerbs, List.map_append, List.map_cons, List.map_nil, List.eraseDups_append]
  by_cases h : verb ∈ clauseVerbs before
  · rw [if_pos h]
    have hmem : verb ∈ before.map (·.1) := List.mem_eraseDups.mp h
    simp [List.removeAll, hmem, clauseVerbs]
  · rw [if_neg h]
    have hmem : verb ∉ before.map (·.1) := fun hmem => h (List.mem_eraseDups.mpr hmem)
    simp only [List.removeAll, List.elem_eq_mem, hmem, clauseVerbs, decide_false, Bool.not_false,
      List.filter_cons_of_pos, List.filter_nil, List.eraseDups_cons, List.eraseDups_nil]

theorem nodup_clauseVerbs (actions : List Action) : (clauseVerbs actions).Nodup := by
  induction actions using List.reverseRecOn with
  | nil => exact List.nodup_nil
  | append_singleton before action ih =>
    obtain ⟨verb, argument⟩ := action
    rw [clauseVerbs_concat]
    by_cases h : verb ∈ clauseVerbs before
    · rwa [if_pos h]
    · rw [if_neg h]
      exact List.nodup_append.mpr ⟨ih, List.nodup_singleton verb, by
        rintro u hu w hw rfl
        exact h (List.mem_singleton.mp hw ▸ hu)⟩

theorem clause_concat_of_ne (h : other ≠ verb) (argument : List Char) :
    clause (before ++ [(verb, argument)]) other = clause before other := by
  have hne : ¬verb = other := fun heq => h heq.symm
  simp [clause, argumentsOf, hne]

theorem clause_concat_self (h : verb ∈ clauseVerbs before) (argument : List Char) :
    clause (before ++ [(verb, argument)]) verb =
      clause before verb ++ ", ".toList ++ argument := by
  have hne : argumentsOf before verb ≠ [] := by
    obtain ⟨first, hfirst⟩ := mem_clauseVerbs.mp h
    exact List.ne_nil_of_mem (mem_argumentsOf.mpr hfirst)
  have hconcat : argumentsOf (before ++ [(verb, argument)]) verb =
      argumentsOf before verb ++ [argument] := by
    simp [argumentsOf]
  rw [clause, hconcat, intercalate_append hne, clause]
  simp

theorem clause_concat_new (h : verb ∉ clauseVerbs before) (argument : List Char) :
    clause (before ++ [(verb, argument)]) verb = verb.keyword.toList ++ ' ' :: argument := by
  have hnil : argumentsOf before verb = [] :=
    List.eq_nil_iff_forall_not_mem.mpr fun first hfirst =>
      h (mem_clauseVerbs.mpr ⟨first, mem_argumentsOf.mp hfirst⟩)
  have hconcat : argumentsOf (before ++ [(verb, argument)]) verb =
      argumentsOf before verb ++ [argument] := by
    simp [argumentsOf]
  rw [clause, hconcat, hnil, List.nil_append, List.intercalate_singleton]

/-- The merged text with one more argument in a clause. -/
theorem merged_concat_of_mem {us ws : List UpdateVerb} (h : clauseVerbs before = us ++ verb :: ws)
    (argument : List Char) :
    merged (before ++ [(verb, argument)]) =
      clausesOf before (us ++ [verb]) ++ ", ".toList ++ argument ++ moreClauses before ws := by
  have hmem : verb ∈ clauseVerbs before := by
    rw [h]
    exact List.mem_append_right _ List.mem_cons_self
  have hnodup := nodup_clauseVerbs before
  rw [h, List.nodup_middle, List.nodup_cons, List.mem_append] at hnodup
  have hother : ∀ vs : List UpdateVerb, verb ∉ vs →
      vs.map (clause (before ++ [(verb, argument)])) = vs.map (clause before) := by
    intro vs hvs
    refine List.map_congr_left fun v hv => clause_concat_of_ne ?_ argument
    rintro rfl
    exact hvs hv
  have hus := hother us fun hu => hnodup.1 (.inl hu)
  have hws := hother ws fun hw => hnodup.1 (.inr hw)
  have hlast : [' '].intercalate (us.map (clause before) ++
      [clause before verb ++ ", ".toList ++ argument]) =
        clausesOf before (us ++ [verb]) ++ ", ".toList ++ argument := by
    rw [clausesOf, List.map_append, List.map_cons, List.map_nil]
    cases us with
    | nil => simp
    | cons u us =>
      rw [intercalate_append (by simp), intercalate_append (by simp)]
      simp
  rw [merged_eq, clauseVerbs_concat, if_pos hmem, h, List.append_cons us verb ws,
    clausesOf_append (by simp), clausesOf, moreClauses, List.map_append, hus, hws, List.map_cons,
    clause_concat_self hmem, List.map_nil, hlast]
  rfl

/-- The merged text with a new clause. -/
theorem merged_concat_of_not_mem (h : verb ∉ clauseVerbs before) (argument : List Char) :
    merged (before ++ [(verb, argument)]) =
      (if (merged before).isEmpty then [] else merged before ++ [' ']) ++
        verb.keyword.toList ++ ' ' :: argument := by
  have hother : (clauseVerbs before).map (clause (before ++ [(verb, argument)])) =
      (clauseVerbs before).map (clause before) := by
    refine List.map_congr_left fun v hv => clause_concat_of_ne ?_ argument
    rintro rfl
    exact h hv
  rw [merged, clauseVerbs_concat, if_neg h, List.map_append, hother, List.map_cons,
    clause_concat_new h, List.map_nil]
  cases hverbs : clauseVerbs before with
  | nil =>
    rw [merged, hverbs]
    simp
  | cons u us =>
    have hne : (merged before).isEmpty = false := by
      rw [merged, hverbs, List.map_cons, clause]
      cases u <;> cases us <;> simp [UpdateVerb.keyword, List.intercalate_cons_cons]
    rw [hne, if_neg Bool.false_ne_true, intercalate_append (by simp), merged, hverbs]
    simp

/-! ### Settled actions -/

/-- Among arguments of which only the last one disturbs, the verbs are those of the last one. -/
theorem verbWords_intercalate {arguments : List (List Char)} {last : List Char}
    (hlevel : ∀ argument ∈ arguments, rise argument = 0)
    (h : ∀ argument ∈ arguments, ¬IsDisturbing argument) :
    verbWords ([',', ' '].intercalate (arguments ++ [last])) = verbWords last := by
  induction arguments with
  | nil => rw [List.nil_append, List.intercalate_singleton]
  | cons argument arguments ih =>
    obtain ⟨next, rest, hnext⟩ : ∃ next rest, arguments ++ [last] = next :: rest :=
      List.exists_cons_of_ne_nil (by simp)
    have hcomma : verbWords (argument ++ [',']) = [] := by
      have hnone := not_not.mp (h argument List.mem_cons_self)
      rw [verbWords, verbs_eq, verbsFrom_comma (hnone)]
      rfl
    have hrise : rise (argument ++ [',']) = 0 := by
      rw [rise_append, hlevel argument List.mem_cons_self]
      rfl
    have htext : [',', ' '].intercalate (argument :: (arguments ++ [last])) =
        (argument ++ [',']) ++ ' ' :: [',', ' '].intercalate (arguments ++ [last]) := by
      rw [hnext, List.intercalate_cons_cons]
      simp
    rw [List.cons_append, htext, verbWords_append hrise, hcomma, List.nil_append]
    exact ih (fun x hx => hlevel x (List.mem_cons_of_mem _ hx))
      fun x hx => h x (List.mem_cons_of_mem _ hx)

theorem settled_concat {action : Action} :
    Settled (before ++ [action]) ↔ Settled before ∧ Admits before action.1 := by
  constructor
  · intro h
    exact ⟨fun init last hfront => h init last (hfront.trans (List.prefix_append _ _)),
      h before action (List.prefix_refl _)⟩
  · rintro ⟨hbefore, haction⟩ init last hfront
    rcases List.prefix_concat_iff.mp hfront with heq | hfront
    · obtain ⟨rfl, hlast⟩ := List.append_inj' heq rfl
      rw [List.singleton_inj] at hlast
      rwa [hlast]
    · exact hbefore init last hfront

/-- Only the last argument of a clause disturbs. -/
theorem Settled.not_isDisturbing (h : Settled actions) {init : List (List Char)} {last : List Char}
    (hsplit : argumentsOf actions verb = init ++ [last]) {argument : List Char}
    (hmem : argument ∈ init) : ¬IsDisturbing argument := by
  induction actions using List.reverseRecOn generalizing init last with
  | nil => exact absurd hsplit.symm (by simp [argumentsOf])
  | append_singleton before action ih =>
    obtain ⟨hbefore, hadmits⟩ := settled_concat.mp h
    by_cases hverb : action.1 = verb
    · have hconcat : argumentsOf (before ++ [action]) verb =
          argumentsOf before verb ++ [action.2] := by
        simp [argumentsOf, hverb]
      rw [hconcat] at hsplit
      obtain ⟨rfl, -⟩ := List.append_inj' hsplit rfl
      intro hdisturbing
      exact (hadmits _ (mem_argumentsOf.mp hmem) hdisturbing).1 hverb.symm
    · have hconcat : argumentsOf (before ++ [action]) verb = argumentsOf before verb := by
        simp [argumentsOf, hverb]
      exact ih hbefore (hconcat ▸ hsplit) hmem

theorem rise_clause (hneat : ∀ action ∈ actions, Neat action.2) (verb : UpdateVerb) :
    rise (clause actions verb) = 0 := by
  have hkeyword : rise verb.keyword.toList = 0 := by cases verb <;> decide
  have harguments : rise ([',', ' '].intercalate (argumentsOf actions verb)) = 0 :=
    rise_intercalate rfl fun argument h => (hneat _ (mem_argumentsOf.mp h)).level
  rw [clause, rise_append, rise_cons, hkeyword, harguments]
  rfl

theorem solid_clause (hneat : ∀ action ∈ actions, Neat action.2)
    (hverb : verb ∈ clauseVerbs actions) : Solid (clause actions verb) := by
  obtain ⟨first, hfirst⟩ := mem_clauseVerbs.mp hverb
  have hsolid : Solid ([',', ' '].intercalate (argumentsOf actions verb)) :=
    solid_intercalate (fun argument h => (hneat _ (mem_argumentsOf.mp h)).solid)
      (List.ne_nil_of_mem (mem_argumentsOf.mpr hfirst))
  exact (hsolid.cons ' ').append _

/-- **The verbs of a clause** are its own and, if its last argument disturbs, some more `remove`. -/
theorem verbWords_clause (hneat : ∀ action ∈ actions, Neat action.2) (hsettled : Settled actions)
    (hverb : verb ∈ clauseVerbs actions) :
    ∃ others, verbWords (clause actions verb) = verb :: others ∧
      (∀ word ∈ others, word = .remove) ∧
      (others = [] ↔ ∀ argument, (verb, argument) ∈ actions → ¬IsDisturbing argument) := by
  obtain ⟨first, hfirst⟩ := mem_clauseVerbs.mp hverb
  obtain ⟨init, last, hsplit⟩ : ∃ init last, argumentsOf actions verb = init ++ [last] :=
    (List.eq_nil_or_concat' _).resolve_left (List.ne_nil_of_mem (mem_argumentsOf.mpr hfirst))
  have hmem : ∀ argument, argument ∈ init ++ [last] ↔ (verb, argument) ∈ actions := by
    intro argument
    rw [← hsplit, mem_argumentsOf]
  have hlast := (hmem last).mp (List.mem_append_right _ List.mem_cons_self)
  have hinit : ∀ argument ∈ init, ¬IsDisturbing argument := fun argument h =>
    hsettled.not_isDisturbing hsplit h
  refine ⟨verbWords last, ?_, ?_, ?_⟩
  · rw [clause, verbWords, verbs_eq, verbsFrom_clause, List.map_cons, map_verb_verbsFrom_zero, hsplit,
      verbWords_intercalate _ hinit]
    exact fun argument h => (hneat _ ((hmem argument).mp (List.mem_append_left _ h))).level
  · exact (hneat _ hlast).verbs
  · rw [verbWords, List.map_eq_nil_iff]
    constructor
    · intro hnone argument hargument
      rcases List.mem_append.mp ((hmem argument).mpr hargument) with h | h
      · exact hinit argument h
      · rw [List.mem_singleton.mp h]
        exact not_not_intro hnone
    · intro h
      exact not_not.mp (h last hlast)

theorem verbWords_clausesOf (hneat : ∀ action ∈ actions, Neat action.2) (verbs : List UpdateVerb) :
    verbWords (clausesOf actions verbs) =
      (verbs.map fun verb => verbWords (clause actions verb)).flatten := by
  induction verbs with
  | nil => rfl
  | cons verb verbs ih =>
    cases verbs with
    | nil =>
      rw [clausesOf, List.map_cons, List.map_nil, List.intercalate_singleton]
      simp
    | cons next verbs =>
      have htext : clausesOf actions (verb :: next :: verbs) =
          clause actions verb ++ ' ' :: clausesOf actions (next :: verbs) := by
        rw [clausesOf, List.map_cons, List.map_cons, List.intercalate_cons_cons]
        simp [clausesOf]
      rw [htext, verbWords_append (rise_clause hneat verb), ih]
      rfl

/-- A verb without a clause among some clauses is only found where a `remove` disturbs. -/
theorem mem_verbWords_clausesOf (hneat : ∀ action ∈ actions, Neat action.2)
    (hsettled : Settled actions) {verbs : List UpdateVerb}
    (hverbs : ∀ other ∈ verbs, other ∈ clauseVerbs actions) (hverb : verb ∉ verbs) :
    verb ∈ verbWords (clausesOf actions verbs) ↔
      verb = .remove ∧ ∃ action ∈ actions, action.1 ∈ verbs ∧ IsDisturbing action.2 := by
  rw [verbWords_clausesOf hneat, List.mem_flatten]
  constructor
  · rintro ⟨words, hwords, hmem⟩
    obtain ⟨other, hother, rfl⟩ := List.mem_map.mp hwords
    obtain ⟨others, hclause, hremove, hnone⟩ := verbWords_clause hneat hsettled (hverbs other hother)
    rw [hclause] at hmem
    rcases List.mem_cons.mp hmem with rfl | hmem
    · exact absurd hother hverb
    · refine ⟨hremove verb hmem, ?_⟩
      by_contra hall
      rw [hnone.mpr fun argument hargument hdisturbing =>
        hall ⟨_, hargument, hother, hdisturbing⟩] at hmem
      cases hmem
  · rintro ⟨rfl, ⟨other, argument⟩, hmem, hother, hdisturbing⟩
    obtain ⟨others, hclause, hremove, hnone⟩ := verbWords_clause hneat hsettled (hverbs other hother)
    refine ⟨_, List.mem_map_of_mem hother, ?_⟩
    rw [hclause]
    obtain ⟨word, words, rfl⟩ := List.exists_cons_of_ne_nil fun h =>
      hnone.mp h argument hmem hdisturbing
    rw [← hremove word List.mem_cons_self]
    exact List.mem_cons_of_mem _ List.mem_cons_self

theorem pair_sublist_iff {v x : UpdateVerb} {us ws : List UpdateVerb} (hv : v ∉ us) :
    [v, x].Sublist (us ++ v :: ws) ↔ x ∈ ws := by
  induction us with
  | nil => rw [List.nil_append, List.cons_sublist_cons, List.singleton_sublist]
  | cons u us ih =>
    rw [List.mem_cons, not_or] at hv
    rw [List.cons_append, List.sublist_cons_iff, ih hv.2]
    constructor
    · rintro (h | ⟨rest, heq, -⟩)
      · exact h
      · exact absurd (List.cons.inj heq).1 hv.1
    · exact .inl

/-- What admits an action with a clause: the verb is not found in front of the clause, and no word in
the clause disturbs. -/
theorem admits_iff (hneat : ∀ action ∈ before, Neat action.2) (hsettled : Settled before)
    {us ws : List UpdateVerb} (hsplit : clauseVerbs before = us ++ verb :: ws) (hus : verb ∉ us) :
    Admits before verb ↔ verb ∉ verbWords (clausesOf before us) ∧
      ∀ argument, (verb, argument) ∈ before → ¬IsDisturbing argument := by
  have husMem : ∀ u ∈ us, u ∈ clauseVerbs before := fun u hu =>
    hsplit ▸ List.mem_append_left _ hu
  rw [mem_verbWords_clausesOf hneat hsettled husMem hus]
  constructor
  · intro h
    refine ⟨?_, fun argument hargument hdisturbing => (h _ hargument hdisturbing).1 rfl⟩
    rintro ⟨rfl, action, haction, hother, hdisturbing⟩
    have hbehind := (h action haction hdisturbing).2 rfl
    rw [hsplit, pair_sublist_iff hus] at hbehind
    have hnodup := nodup_clauseVerbs before
    rw [hsplit, List.nodup_append] at hnodup
    exact hnodup.2.2 _ hother _ (List.mem_cons_of_mem _ hbehind) rfl
  · rintro ⟨hfront, hclean⟩ ⟨other, argument⟩ haction hdisturbing
    have hne : other ≠ verb := by
      rintro rfl
      exact hclean argument haction hdisturbing
    refine ⟨hne, ?_⟩
    rintro rfl
    rw [hsplit, pair_sublist_iff hus]
    have hother : other ∈ us ++ .remove :: ws := hsplit ▸ mem_clauseVerbs.mpr ⟨argument, haction⟩
    rcases List.mem_append.mp hother with h | h
    · exact absurd ⟨rfl, _, haction, h, hdisturbing⟩ hfront
    · exact (List.mem_cons.mp h).resolve_left hne

theorem solid_clausesOf (hneat : ∀ action ∈ actions, Neat action.2) {verbs : List UpdateVerb}
    (hverbs : ∀ verb ∈ verbs, verb ∈ clauseVerbs actions) (hne : verbs ≠ []) :
    Solid (clausesOf actions verbs) := by
  refine solid_intercalate ?_ (by rwa [ne_eq, List.map_eq_nil_iff])
  intro text htext
  obtain ⟨verb, hverb, rfl⟩ := List.mem_map.mp htext
  exact solid_clause hneat (hverbs verb hverb)

theorem rise_clausesOf (hneat : ∀ action ∈ actions, Neat action.2) (verbs : List UpdateVerb) :
    rise (clausesOf actions verbs) = 0 := by
  refine rise_intercalate (by decide) ?_
  intro text htext
  obtain ⟨verb, -, rfl⟩ := List.mem_map.mp htext
  exact rise_clause hneat verb

theorem head?_clausesOf {verbs : List UpdateVerb} (hne : verbs ≠ []) :
    (clausesOf actions verbs).head? ≠ some ',' := by
  obtain ⟨verb, verbs, rfl⟩ := List.exists_cons_of_ne_nil hne
  have hhead : (clausesOf actions (verb :: verbs)).head? = verb.keyword.toList.head? := by
    rw [clausesOf, List.map_cons, clause]
    cases verb <;> cases verbs <;> simp [UpdateVerb.keyword, List.intercalate_cons_cons]
  rw [hhead]
  cases verb <;> decide

/-- **An action with a clause** keeps the text merged exactly if the actions before it admit it. -/
theorem push_merged_of_mem (hneat : ∀ action ∈ before, Neat action.2) (hsettled : Settled before)
    (hverb : verb ∈ clauseVerbs before) (argument : List Char) :
    push (merged before) verb argument = merged (before ++ [(verb, argument)]) ↔
      Admits before verb := by
  obtain ⟨us, ws, hsplit⟩ := List.append_of_mem hverb
  have hus : verb ∉ us := by
    have hnodup := nodup_clauseVerbs before
    rw [hsplit, List.nodup_middle, List.nodup_cons, List.mem_append, not_or] at hnodup
    exact hnodup.1.1
  have hfrontVerbs : ∀ u ∈ us ++ [verb], u ∈ clauseVerbs before := by
    intro u hu
    rw [hsplit, List.append_cons]
    exact List.mem_append_left _ hu
  have hfront : us ++ [verb] ≠ [] := by simp
  have hmerged : merged before = clausesOf before (us ++ [verb]) ++ moreClauses before ws := by
    rw [merged_eq, hsplit, List.append_cons, clausesOf_append hfront]
  obtain ⟨others, hclause, -, hnone⟩ := verbWords_clause hneat hsettled hverb
  have hwords : verbWords (clausesOf before (us ++ [verb])) =
      verbWords (clausesOf before us) ++ verb :: others := by
    rw [verbWords_clausesOf hneat, verbWords_clausesOf hneat, List.map_append, List.flatten_append]
    simp [hclause]
  rw [admits_iff hneat hsettled hsplit hus, ← hnone, hmerged, merged_concat_of_mem hsplit]
  constructor
  · intro hpush
    by_contra hadmits
    -- the first word of the front that reads as the verb is not the last verb in it
    have hseen : verb ∈ verbWords (clausesOf before (us ++ [verb])) := by
      rw [hwords]
      simp
    obtain ⟨words, behind, hfirst, hwords'⟩ := List.eq_append_cons_of_mem hseen
    cases behind with
    | nil =>
      rw [hwords] at hfirst
      rcases List.eq_nil_or_concat' others with rfl | ⟨init, last, rfl⟩
      · obtain ⟨rfl, -⟩ := List.append_inj' hfirst rfl
        exact hadmits ⟨hwords', rfl⟩
      · rw [← List.cons_append, ← List.append_assoc] at hfirst
        obtain ⟨rfl, -⟩ := List.append_inj' hfirst rfl
        exact hwords' (by simp)
    | cons next more =>
      obtain ⟨xs, ys, hverbs, rfl, hys⟩ := List.map_eq_append_iff.mp hfirst
      obtain ⟨o, ys, rfl, ho, hys⟩ := List.map_eq_cons_iff.mp hys
      obtain ⟨o', ys, rfl, -, -⟩ := List.map_eq_cons_iff.mp hys
      refine push_ne_of_not_last (beginsClause_moreClauses before ws) (head?_clausesOf hfront)
        hverbs ?_ ho argument hpush
      rintro x hx rfl
      exact hwords' (List.mem_map_of_mem hx)
  · rintro ⟨hnot, rfl⟩
    obtain ⟨xs, ys, hverbs, hxs, hys⟩ := List.map_eq_append_iff.mp hwords
    obtain ⟨o, ys, rfl, ho, hys⟩ := List.map_eq_cons_iff.mp hys
    rw [List.map_eq_nil_iff.mp hys] at hverbs
    refine push_of_last (solid_clausesOf hneat hfrontVerbs hfront) (rise_clausesOf hneat _)
      (beginsClause_moreClauses before ws) hverbs ?_ ho argument
    rintro x hx rfl
    rw [← hxs] at hnot
    exact hnot (List.mem_map_of_mem hx)

/-- **The first action with its verb** keeps the text merged exactly if the actions before it admit
it. -/
theorem push_merged_of_not_mem (hneat : ∀ action ∈ before, Neat action.2)
    (hsettled : Settled before) (hverb : verb ∉ clauseVerbs before) (argument : List Char) :
    push (merged before) verb argument = merged (before ++ [(verb, argument)]) ↔
      Admits before verb := by
  have hmem : verb ∈ verbWords (merged before) ↔
      verb = .remove ∧ ∃ action ∈ before, action.1 ∈ clauseVerbs before ∧ IsDisturbing action.2 :=
    mem_verbWords_clausesOf hneat hsettled (fun _ => id) hverb
  have hadmits : Admits before verb ↔ verb ∉ verbWords (merged before) := by
    rw [hmem]
    constructor
    · rintro h ⟨rfl, action, haction, -, hdisturbing⟩
      have hsublist := (h action haction hdisturbing).2 rfl
      exact hverb (hsublist.subset List.mem_cons_self)
    · intro h action haction hdisturbing
      have hseen : action.1 ∈ clauseVerbs before := mem_clauseVerbs.mpr ⟨action.2, haction⟩
      refine ⟨?_, fun hremove => absurd ⟨hremove, action, haction, hseen, hdisturbing⟩ h⟩
      rintro rfl
      exact hverb hseen
  rw [hadmits, merged_concat_of_not_mem hverb]
  constructor
  · intro hpush hseen
    refine push_ne_of_seen hseen argument ?_
    rw [hpush, if_neg]
    · simp
    · rw [List.isEmpty_iff]
      intro hempty
      rw [hempty] at hseen
      cases hseen
  · exact fun h => push_of_unseen h argument

/-- **What one action preserves**: the merged text is that with the action exactly if the actions
before it admit it. -/
theorem push_merged (hneat : ∀ action ∈ before, Neat action.2) (hsettled : Settled before)
    (verb : UpdateVerb) (argument : List Char) :
    push (merged before) verb argument = merged (before ++ [(verb, argument)]) ↔
      Admits before verb := by
  by_cases hverb : verb ∈ clauseVerbs before
  · exact push_merged_of_mem hneat hsettled hverb argument
  · exact push_merged_of_not_mem hneat hsettled hverb argument

theorem written_concat (before : List Action) (action : Action) :
    written (before ++ [action]) = push (written before) action.1 action.2 := by
  rw [written, List.foldl_append]
  rfl

theorem written_eq_nil : written actions = [] ↔ actions = [] := by
  induction actions using List.reverseRecOn with
  | nil => exact iff_of_true rfl rfl
  | append_singleton before action _ =>
    rw [written_concat]
    refine iff_of_false ?_ (by simp)
    unfold push
    split <;> simp

/-- **The text is merged exactly if the actions are settled**, after each of them. -/
theorem written_eq_merged (hneat : ∀ action ∈ actions, Neat action.2) :
    (∀ before, before <+: actions → written before = merged before) ↔ Settled actions := by
  induction actions using List.reverseRecOn with
  | nil =>
    constructor
    · intro _ before action h
      exact absurd (List.prefix_nil.mp h) (by simp)
    · intro _ before h
      rw [List.prefix_nil.mp h]
      rfl
  | append_singleton init action ih =>
    have hinit : ∀ earlier ∈ init, Neat earlier.2 := fun earlier h =>
      hneat earlier (List.mem_append_left _ h)
    rw [settled_concat, ← ih hinit]
    constructor
    · intro h
      have hall : ∀ before, before <+: init → written before = merged before :=
        fun before hfront => h before (hfront.trans (List.prefix_append init [action]))
      refine ⟨hall, ?_⟩
      rw [← push_merged hinit ((ih hinit).mp hall) action.1 action.2,
        ← hall init (List.prefix_refl _), ← written_concat]
      exact h _ (List.prefix_refl _)
    · rintro ⟨hall, hadmits⟩ before hfront
      rcases List.prefix_concat_iff.mp hfront with rfl | hfront
      · rw [written_concat, hall init (List.prefix_refl _)]
        exact (push_merged hinit ((ih hinit).mp hall) action.1 action.2).mpr hadmits
      · exact hall before hfront

end ItemMapper.Clauses
