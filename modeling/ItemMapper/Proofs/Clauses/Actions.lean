import ItemMapper.Proofs.Aliases.Compilation
import ItemMapper.Proofs.Clauses.Merging
import ItemMapper.Proofs.Expression.Template

/-!
# The actions of updates

The arguments of actions that the compiler writes are neat: paths, placeholders and sizes are single
words, the words of a path are names that are no reserved words, and of the verbs only REMOVE is none.
The text of an update is therefore merged exactly if its actions are settled.

## Main definitions

* `Clauses.IsWord`: a word that reads as no verb but `remove`.
* `Expr.action`: the verb and the text of one action.

## Main statements

* `Expr.setValue_neat`, `Expr.actionText_neat`: the texts that the compiler writes.
* `Session.update_merged`: **updates are merged exactly if their actions are settled**.
-/

namespace ItemMapper

open Unicode (isBlank)

/-! ### Words and neat texts -/

namespace Clauses

/-- A word that reads as no verb but `remove`. -/
structure IsWord (text : List Char) : Prop where
  ne_nil : text ≠ []
  noBlank : ∀ c ∈ text, isBlank c = false
  level : rise text = 0
  verb : ∀ verb, UpdateVerb.ofWord? (String.ofList text) = some verb → verb = .remove

theorem IsWord.of_not_isAlpha {text : List Char} {c : Char} (hc : c ∈ text)
    (halpha : c.isAlpha = false) (hnoBlank : ∀ c ∈ text, isBlank c = false)
    (hlevel : rise text = 0) : IsWord text := by
  refine ⟨List.ne_nil_of_mem hc, hnoBlank, hlevel, fun verb h => ?_⟩
  rw [UpdateVerb.isAlpha_of_ofWord? h (by rwa [String.toList_ofList])] at halpha
  cases halpha

theorem rise_of_all_isNameChar {text : List Char} (h : text.all isNameChar = true) :
    rise text = 0 :=
  rise_eq_zero fun c hc => nesting_of_isNameChar (List.all_eq_true.mp h c hc)

theorem noBlank_of_all_isNameChar {text : List Char} (h : text.all isNameChar = true) :
    ∀ c ∈ text, isBlank c = false :=
  fun c hc => isBlank_of_isNameChar (List.all_eq_true.mp h c hc)

/-- **A name that needs no placeholder is a word**: SET, ADD and DELETE are reserved words. -/
theorem isWord_of_needsAlias {name : String} (h : needsAlias name = false) :
    IsWord name.toList := by
  obtain ⟨hne, hall⟩ := all_isNameChar_of_needsAlias h
  refine ⟨hne, noBlank_of_all_isNameChar hall, rise_of_all_isNameChar hall, fun verb hverb => ?_⟩
  rw [String.ofList_toList] at hverb
  have hsame : sameIgnoringCase verb.keyword name = true := by
    simpa using List.find?_some hverb
  have hkeyword : verb ≠ .remove → verb.keyword ∈ reservedWords := by
    cases verb with
    | remove => exact fun h => absurd rfl h
    | _ => exact fun _ => by decide +kernel
  have hupper : verb.keyword.map Char.toUpper = verb.keyword := by
    rw [← String.toList_inj, String.toList_map]
    cases verb <;> rfl
  by_contra hremove
  rw [sameIgnoringCase_of_needsAlias h (hkeyword hremove) hupper] at hsame
  cases hsame

theorem isWord_of_isPlaceholder {mark : Char} {text : String}
    (hmark : mark.isAlpha = false ∧ isBlank mark = false ∧ nesting mark = 0)
    (h : Aliases.isPlaceholder mark text = true) : IsWord text.toList := by
  obtain ⟨cs, htext, hall⟩ := Aliases.exists_cons_of_isPlaceholder h
  rw [htext]
  refine .of_not_isAlpha List.mem_cons_self hmark.1 ?_ ?_
  · exact List.forall_mem_cons.mpr ⟨hmark.2.1, noBlank_of_all_isNameChar hall⟩
  · rw [rise_cons, hmark.2.2, rise_of_all_isNameChar hall]
    rfl

variable {xs ys : List Char}

theorem IsWord.dot (hx : IsWord xs) (hy : IsWord ys) : IsWord (xs ++ '.' :: ys) := by
  refine .of_not_isAlpha (c := '.') (by simp) (by decide) ?_ ?_
  · exact List.forall_mem_append.mpr
      ⟨hx.noBlank, List.forall_mem_cons.mpr ⟨by decide, hy.noBlank⟩⟩
  · rw [rise_append, rise_cons, hx.level, hy.level]
    decide

/-- A word with something between parentheses or brackets behind it. -/
theorem IsWord.enclose {opening closing : Char} (hopening : opening = '(' ∧ closing = ')' ∨
    opening = '[' ∧ closing = ']') (hname : xs.all isNameChar = true ∨ IsWord xs)
    (hy : (∀ c ∈ ys, isBlank c = false) ∧ rise ys = 0) :
    IsWord (xs ++ opening :: (ys ++ [closing])) := by
  have hx : (∀ c ∈ xs, isBlank c = false) ∧ rise xs = 0 := by
    rcases hname with hall | hx
    · exact ⟨noBlank_of_all_isNameChar hall, rise_of_all_isNameChar hall⟩
    · exact ⟨hx.noBlank, hx.level⟩
  have hmarks : opening.isAlpha = false ∧ isBlank opening = false ∧ isBlank closing = false ∧
      nesting opening + nesting closing = 0 := by
    rcases hopening with ⟨rfl, rfl⟩ | ⟨rfl, rfl⟩ <;> decide
  refine .of_not_isAlpha (c := opening) (by simp) hmarks.1 ?_ ?_
  · refine List.forall_mem_append.mpr ⟨hx.1, List.forall_mem_cons.mpr ⟨hmarks.2.1, ?_⟩⟩
    exact List.forall_mem_append.mpr ⟨hy.1, List.forall_mem_singleton.mpr hmarks.2.2.1⟩
  · rw [rise_append, rise_cons, rise_append, rise_cons, rise_nil, hx.2, hy.2]
    have hsum := hmarks.2.2.2
    omega

/-- A word is neat. -/
theorem IsWord.neat (h : IsWord xs) : Neat xs := by
  refine ⟨?_, blanksFrom_of_solid h.noBlank, h.level, ?_⟩
  · exact ⟨_, List.getLast?_eq_some_getLast h.ne_nil, h.noBlank _ (List.getLast_mem h.ne_nil)⟩
  · intro word hword
    obtain ⟨o, ho, rfl⟩ := List.mem_map.mp hword
    obtain ⟨text, htext, hverb⟩ := mem_words_of_mem_verbsAmong ho
    rw [words_of_solid h.ne_nil h.noBlank, List.mem_singleton] at htext
    obtain ⟨-, rfl⟩ := Prod.mk.inj htext
    exact h.verb _ hverb

/-- Two neat texts with a blank between them. -/
theorem Neat.blank (hx : Neat xs) (hy : Neat ys) : Neat (xs ++ ' ' :: ys) := by
  refine ⟨(hy.solid.cons ' ').append xs, ?_, ?_, ?_⟩
  · refine blanksFrom_append.mpr ⟨hx.blanks, ?_⟩
    rw [hx.level]
    exact ⟨fun _ => Int.le_refl 0, hy.blanks⟩
  · rw [rise_append, rise_cons, hx.level, hy.level]
    decide
  · rw [verbWords_append hx.level]
    exact List.forall_mem_append.mpr ⟨hx.verbs, hy.verbs⟩

/-- A call with two neat arguments is neat, whatever the arguments disturb. -/
theorem Neat.call {name : List Char} (hname : name.all isNameChar = true) (hx : Neat xs)
    (hy : Neat ys) : Neat (name ++ '(' :: (xs ++ ',' :: ' ' :: (ys ++ [')']))) := by
  have hlevel : rise (name ++ ['(']) = 1 := by
    rw [rise_append, rise_of_all_isNameChar hname]
    decide
  have hnoBlank : ∀ c ∈ name ++ ['('], isBlank c = false :=
    List.forall_mem_append.mpr ⟨noBlank_of_all_isNameChar hname,
      List.forall_mem_singleton.mpr (by decide)⟩
  have hinner : BlanksFrom 1 1 (xs ++ ',' :: ' ' :: (ys ++ [')'])) := by
    refine blanksFrom_append.mpr ⟨hx.blanks.mono (by decide), ?_⟩
    rw [hx.level]
    refine ⟨by decide, by decide, blanksFrom_append.mpr ⟨hy.blanks.mono (by decide), ?_⟩⟩
    exact blanksFrom_of_solid (List.forall_mem_singleton.mpr (by decide))
  rw [← List.singleton_append, ← List.append_assoc]
  refine ⟨?_, ?_, ?_, ?_⟩
  · have hclosing : Solid [')'] := ⟨')', rfl, by decide⟩
    exact ((((hclosing.append ys).cons ' ').cons ',').append xs).append _
  · refine blanksFrom_append.mpr ⟨blanksFrom_of_solid hnoBlank, ?_⟩
    rw [hlevel]
    exact hinner.mono (by decide)
  · rw [rise_append, hlevel, rise_append, rise_cons, rise_cons, rise_append, hx.level, hy.level]
    decide
  · have hnone : Clauses.verbs (name ++ ['('] ++ (xs ++ ',' :: ' ' :: (ys ++ [')']))) = [] := by
      rw [Clauses.verbs, words_append_of_solid hnoBlank]
      refine verbsAmong_of_blanksFrom ?_ (.inr ⟨'(', by simp, by decide⟩)
      rw [List.append_nil, List.reverse_reverse, hlevel]
      exact hinner
    rw [verbWords, hnone]
    exact List.forall_mem_nil _

end Clauses

namespace Expr

open Clauses

/-! ### Operands -/

theorem escape_isWord (name : String) : Yields (escape name) fun _ text => IsWord text.toList := by
  intro a b text ha h
  have hgrows : Aliases.Grows Aliases.Marked a b := (escape_made name).grows.of_ok h
  refine ⟨hgrows.tidy ha, hgrows.extends, ?_⟩
  unfold escape at h
  by_cases hneeds : needsAlias name = true
  · rw [if_pos hneeds] at h
    exact isWord_of_isPlaceholder (by decide) (Aliases.nameAlias_spec ha h).2
  · rw [if_neg hneeds] at h
    obtain ⟨rfl, rfl⟩ := pure_eq_ok.mp h
    exact isWord_of_needsAlias (Bool.not_eq_true _ ▸ hneeds)

theorem isWord_member {parent segment : String} (hparent : IsWord parent.toList)
    (hsegment : IsWord segment.toList) : IsWord (s!"{parent}.{segment}").toList := by
  have htext : (s!"{parent}.{segment}").toList = parent.toList ++ '.' :: segment.toList := by
    change (parent ++ "." ++ segment).toList = _
    simp
  rw [htext]
  exact hparent.dot hsegment

theorem isWord_element {parent : String} {position : Int} (hposition : 0 ≤ position)
    (hparent : IsWord parent.toList) : IsWord (s!"{parent}[{position}]").toList := by
  obtain ⟨n, rfl⟩ := Int.eq_ofNat_of_zero_le hposition
  have hdigits : (toString n).toList.all isNameChar = true := by
    rw [Nat.toString_eq_repr, Nat.toList_repr]
    exact Aliases.all_isNameChar_toDigits n
  have htext : (s!"{parent}[{(n : Int)}]").toList =
      parent.toList ++ '[' :: ((toString n).toList ++ [']']) := by
    change (parent ++ "[" ++ toString n ++ "]").toList = _
    simp
  rw [htext]
  exact .enclose (.inr ⟨rfl, rfl⟩) (.inr hparent)
    ⟨noBlank_of_all_isNameChar hdigits, rise_of_all_isNameChar hdigits⟩

theorem memberPath_isWord (scope : Scope) {parent : Option String} (schema : Option Schema)
    (name : String) (hparent : ∀ text, parent = some text → IsWord text.toList) :
    Yields (memberPath scope parent schema name) fun _ path => IsWord path.text.toList := by
  refine .bind (Q := fun _ => True) (.ofExcept fun _ _ => trivial) fun ⟨stored, type⟩ _ => ?_
  refine .bind (escape_isWord stored) fun segment hsegment => .pure fun _ => ?_
  cases parent with
  | none => exact hsegment
  | some parent => exact isWord_member (hparent parent rfl) hsegment

/-- **A path is one word.** -/
theorem path_isWord (scope : Scope) (e : Expr) :
    Yields (e.path scope) fun _ path => IsWord path.text.toList := by
  fun_induction path scope e with
  | case1 name =>
    refine memberPath_isWord scope _ name ?_
    intro text h
    cases h
  | case2 parent name _ ih =>
    refine .bind ih fun path hpath => memberPath_isWord scope _ name ?_
    rintro text ⟨⟩
    exact hpath
  | case3 => exact .throw _
  | case4 parent key _ ih =>
    refine .bind ih fun path hpath => ?_
    exact .bind (escape_isWord key) fun segment hsegment => .pure fun _ =>
      isWord_member hpath hsegment
  | case5 parent _ i hi _ ih =>
    exact .bind ih fun path hpath => .pure fun _ => isWord_element hi hpath
  | case6 => exact .throw _
  | case7 => exact .throw _
  | case8 => exact .throw _

theorem subject_isWord (scope : Scope) (function : StoreFunction) (arg : Expr) :
    Yields (subject scope function arg) fun _ text => IsWord text.toList := by
  unfold subject
  by_cases hpath : arg.isPath = true
  · rw [if_pos hpath]
    exact .bind (path_isWord scope arg) fun path h => .pure fun _ => h
  · rw [if_neg hpath]
    exact .throw _

theorem sizeText_isWord (scope : Scope) (args : List Expr) :
    Yields (sizeText scope args) fun _ text => IsWord text.toList := by
  refine .bind (.ofExcept fun _ => checkArity_eq_ok) fun _ htakes => ?_
  refine .bind (.mapM fun arg _ => subject_isWord scope .size arg) fun texts htexts => ?_
  refine .ofExcept fun text htext => ?_
  obtain ⟨inner, rfl⟩ := List.length_eq_one_iff.mp (htexts.1.trans (beq_iff_eq.mp htakes))
  have hinner := htexts.2 inner List.mem_cons_self
  rw [render_named (f := .size) rfl rfl] at htext
  cases htext
  have htext : (StoreFunction.size.name ++ "(" ++ ", ".intercalate [inner] ++ ")").toList =
      StoreFunction.size.name.toList ++ '(' :: (inner.toList ++ [')']) := by
    simp
  rw [htext]
  exact .enclose (.inl ⟨rfl, rfl⟩) (.inl (by decide)) ⟨hinner.noBlank, hinner.level⟩

theorem constantText_isWord (scope : Scope) (value : Value) (hint : Hint) :
    Yields (constantText scope value hint) fun _ text => IsWord text.toList := by
  refine .bind (Q := fun _ => True) (.ofExcept fun _ _ => trivial) fun stored _ => ?_
  intro a b text ha h
  have hgrows : Aliases.Grows Aliases.Marked a b := (Aliases.valueAlias_grows stored).of_ok h
  obtain ⟨_, _, _, hmark⟩ := Aliases.valueAlias_spec ha h
  exact ⟨hgrows.tidy ha, hgrows.extends, isWord_of_isPlaceholder (by decide) hmark⟩

/-- **An operand is one word.** -/
theorem operand_isWord (scope : Scope) (hint : Hint) {e : Expr} (he : e.raws = []) :
    Yields (operand scope hint e) fun _ text => IsWord text.toList := by
  fun_induction operand scope hint e with
  | case1 hint parent name => exact .bind (path_isWord scope _) fun path h => .pure fun _ => h
  | case2 hint parent position =>
    exact .bind (path_isWord scope _) fun path h => .pure fun _ => h
  | case3 hint value => exact constantText_isWord scope value hint
  | case4 hint inner type ih => exact ih he
  | case5 hint args => exact sizeText_isWord scope args
  | case6 => cases he
  | case7 => exact .throw _

/-! ### Actions -/

theorem neat_calculation {op : BinaryOp} (hop : op = .add ∨ op = .sub) {l r : String}
    (hl : Neat l.toList) (hr : Neat r.toList) : Neat (s!"{l} {op.symbol} {r}").toList := by
  have hsymbol : IsWord op.symbol.toList := by
    rcases hop with rfl | rfl
    · exact .of_not_isAlpha (c := '+') (by decide) (by decide) (by simp [BinaryOp.symbol]; decide)
        (by decide)
    · exact .of_not_isAlpha (c := '-') (by decide) (by decide) (by simp [BinaryOp.symbol]; decide)
        (by decide)
  have htext : (s!"{l} {op.symbol} {r}").toList =
      l.toList ++ ' ' :: (op.symbol.toList ++ ' ' :: r.toList) := by
    change (l ++ " " ++ op.symbol ++ " " ++ r).toList = _
    simp
  rw [htext]
  exact hl.blank (hsymbol.neat.blank hr)

/-- A function in the value of a SET, filled in. -/
theorem filled_setOperand_neat {function : StoreFunction} (hfunction : function.isSetOperand = true)
    {texts : List String} (htakes : function.takes texts.length = true)
    (htexts : ∀ text ∈ texts, Neat text.toList) :
    Yields (filled function texts) fun _ text => Neat text.toList := by
  refine .ofExcept fun text htext => ?_
  have hnamed : function.isNamed = true ∧ function.arity = 2 ∧ function.isVariadic = false ∧
      function.name.toList.all isNameChar = true := by
    cases function <;> first | decide | cases hfunction
  obtain ⟨hnamed, harity, hvariadic, hname⟩ := hnamed
  rw [StoreFunction.takes, hvariadic, harity] at htakes
  obtain ⟨x, y, rfl⟩ := List.length_eq_two.mp (beq_iff_eq.mp htakes)
  rw [render_named hnamed (by rw [harity]; rfl)] at htext
  cases htext
  have htext : (function.name ++ "(" ++ ", ".intercalate [x, y] ++ ")").toList =
      function.name.toList ++ '(' :: (x.toList ++ ',' :: ' ' :: (y.toList ++ [')'])) := by
    simp
  rw [htext]
  exact .call hname (htexts x (by simp)) (htexts y (by simp))

theorem guardedPath_isWord (scope : Scope) (target : Expr) :
    Yields (guardedPath scope target) fun _ path => IsWord path.text.toList := by
  unfold guardedPath
  by_cases hpath : target.isPath = true
  · rw [if_pos hpath]
    exact path_isWord scope target
  · rw [if_neg hpath]
    exact .throw _

theorem raws_of_mem_args {function : StoreFunction} {args : List Expr}
    (h : (Expr.call function args).raws = []) : ∀ arg ∈ args, arg.raws = [] :=
  fun _ harg => raws_eq_nil_of_subset h (raws_subset_rawsOfAll harg)

mutual
/-- **The value that an attribute is set to is neat.** -/
theorem setValue_neat (scope : Scope) (hint : Hint) :
    ∀ {e : Expr}, e.raws = [] → Yields (setValue scope hint e) fun _ text => Neat text.toList
  | .binary op left right, h => by
    obtain ⟨hleft, hright⟩ := List.append_eq_nil_iff.mp h
    rw [setValue]
    by_cases hop : op = .add ∨ op = .sub
    · rw [if_pos hop]
      refine .bind (setValue_neat scope hint hleft) fun l hl => ?_
      refine .bind (setValue_neat scope hint hright) fun r hr => .pure fun _ => ?_
      exact neat_calculation hop hl hr
    · rw [if_neg hop]
      exact (operand_isWord scope hint h).imp fun _ _ hword => hword.neat
  | .call function args, h => by
    by_cases hif : function = .ifNotExists
    · subst hif
      rw [setValue]
      refine .bind (.ofExcept fun _ => checkArity_eq_ok) fun _ htakes => ?_
      exact ifNotExistsText_neat scope (raws_of_mem_args h) htakes
    · by_cases happend : function = .listAppend
      · subst happend
        rw [setValue]
        refine .bind (.ofExcept fun _ => checkArity_eq_ok) fun _ htakes => ?_
        refine .bind (setValues_neat scope .plain (raws_of_mem_args h)) fun texts htexts => ?_
        exact filled_setOperand_neat rfl (by rwa [htexts.1]) htexts.2
      · rw [setValue_of_not_setOperand scope hint (by cases function <;> trivial)]
        exact (operand_isWord scope hint h).imp fun _ _ hword => hword.neat
  | .item, h | .member _ _, h | .index _ _, h | .constant _, h | .unary _ _, h
  | .conditional _ _ _, h | .raw _, h | .deferred _, h | .enumConvert _ _, h =>
    (operand_isWord scope hint h).imp fun _ _ hword => hword.neat

theorem ifNotExistsText_neat (scope : Scope) :
    ∀ {args : List Expr}, (∀ arg ∈ args, arg.raws = []) →
      StoreFunction.ifNotExists.takes args.length = true →
      Yields (ifNotExistsText scope args) fun _ text => Neat text.toList
  | [], _, htakes => absurd htakes (by decide)
  | target :: rest, h, htakes => by
    rw [ifNotExistsText]
    refine .bind (guardedPath_isWord scope target) fun path hpath => ?_
    refine .bind (setValues_neat scope _ (List.forall_mem_cons.mp h).2) fun texts htexts => ?_
    refine filled_setOperand_neat rfl ?_ (List.forall_mem_cons.mpr ⟨hpath.neat, htexts.2⟩)
    rwa [List.length_cons, htexts.1]

theorem setValues_neat (scope : Scope) (hint : Hint) :
    ∀ {args : List Expr}, (∀ arg ∈ args, arg.raws = []) →
      Yields (setValues scope hint args) fun _ texts =>
        texts.length = args.length ∧ ∀ text ∈ texts, Neat text.toList
  | [], _ => .pure fun _ => ⟨rfl, nofun⟩
  | value :: rest, h => by
    obtain ⟨hvalue, hrest⟩ := List.forall_mem_cons.mp h
    rw [setValues]
    refine .bind (setValue_neat scope hint hvalue) fun text htext => ?_
    refine .bind (setValues_neat scope hint hrest) fun texts htexts => .pure fun _ => ?_
    exact ⟨congrArg (· + 1) htexts.1, List.forall_mem_cons.mpr ⟨htext, htexts.2⟩⟩
end

theorem actionValues_neat (scope : Scope) {function : StoreFunction} (hint : Hint)
    {args : List Expr} (hfunction : function.verb?.isSome = true)
    (h : ∀ arg ∈ args, arg.raws = []) (harity : args.length + 1 = function.arity) :
    Yields (actionValues scope function hint args) fun _ texts =>
      texts.length + 1 = function.arity ∧ ∀ text ∈ texts, Neat text.toList := by
  have hvalues : ∀ {f : Expr → AliasM String},
      (∀ arg ∈ args, Yields (f arg) fun _ text => Neat text.toList) →
      Yields (args.mapM f) fun _ texts =>
        texts.length + 1 = function.arity ∧ ∀ text ∈ texts, Neat text.toList := fun hf =>
    (Yields.mapM hf).imp fun _ _ htexts => ⟨by rw [htexts.1, harity], htexts.2⟩
  have hoperands : ∀ hint, ∀ arg ∈ args,
      Yields (operand scope hint arg) fun _ text => Neat text.toList := fun hint arg harg =>
    (operand_isWord scope hint (h arg harg)).imp fun _ _ hword => hword.neat
  cases function with
  | set => exact hvalues fun arg harg => setValue_neat scope hint (h arg harg)
  | add => exact hvalues (hoperands _)
  | delete => exact hvalues (hoperands _)
  | remove => exact .pure fun _ => ⟨rfl, nofun⟩
  | _ => cases hfunction

/-- An action filled in. -/
theorem filled_action_neat {function : StoreFunction} (hfunction : function.verb?.isSome = true)
    {path : String} {texts : List String} (hpath : IsWord path.toList)
    (harity : texts.length + 1 = function.arity) (htexts : ∀ text ∈ texts, Neat text.toList) :
    Yields (filled function (path :: texts)) fun _ text => Neat text.toList := by
  refine .ofExcept fun text htext => ?_
  have hpair : (function = .add ∨ function = .delete) → Neat text.toList := by
    intro hpair
    obtain ⟨value, rfl⟩ : ∃ value, texts = [value] :=
      List.length_eq_one_iff.mp (by rcases hpair with rfl | rfl <;> exact Nat.succ.inj harity)
    rw [render_pair hpair] at htext
    cases htext
    have htext : (path ++ " " ++ value).toList = path.toList ++ ' ' :: value.toList := by simp
    rw [htext]
    exact hpath.neat.blank (htexts value List.mem_cons_self)
  cases function with
  | set =>
    obtain ⟨value, rfl⟩ := List.length_eq_one_iff.mp (Nat.succ.inj harity)
    rw [render_set] at htext
    cases htext
    have hequal : IsWord ['='] :=
      .of_not_isAlpha List.mem_cons_self (by decide) (List.forall_mem_singleton.mpr (by decide))
        (by decide)
    have htext : (path ++ " = " ++ value).toList =
        path.toList ++ ' ' :: (['='] ++ ' ' :: value.toList) := by
      simp
    rw [htext]
    exact hpath.neat.blank (hequal.neat.blank (htexts value List.mem_cons_self))
  | remove =>
    rw [List.length_eq_zero_iff.mp (Nat.succ.inj harity), render_remove] at htext
    cases htext
    exact hpath.neat
  | add => exact hpair (.inl rfl)
  | delete => exact hpair (.inr rfl)
  | _ => cases hfunction

/-- **The text of an action is neat.** -/
theorem actionText_neat (scope : Scope) {function : StoreFunction} {args : List Expr}
    (hfunction : function.verb?.isSome = true) (h : ∀ arg ∈ args, arg.raws = []) :
    Yields (actionText scope function args) fun _ text => Neat text.toList := by
  refine .bind (.ofExcept fun _ => checkArity_eq_ok) fun _ htakes => ?_
  have harity : args.length = function.arity := by
    have hvariadic : function.isVariadic = false := by
      cases function <;> first | rfl | cases hfunction
    rw [StoreFunction.takes, hvariadic] at htakes
    exact beq_iff_eq.mp htakes
  cases args with
  | nil => cases function <;> cases harity
  | cons target rest =>
    by_cases hpath : target.isPath = true
    · simp only [hpath, if_true]
      refine .bind (path_isWord scope target) fun path hword => ?_
      refine .bind (actionValues_neat scope _ hfunction (List.forall_mem_cons.mp h).2 harity)
        fun texts htexts => ?_
      exact filled_action_neat hfunction hword htexts.1 htexts.2
    · simp only [hpath]
      exact .throw _

/-! ### Updates -/

/-- The verb and the text of an action. -/
def action (scope : Scope) : Expr → AliasM Action
  | .call function args =>
    match function.verb? with
    | some verb => do
      let text ← actionText scope function args
      pure (verb, text.toList)
    | none => throw (Error.unsupported (Expr.call function args).kindName "not an update action")
  | other => throw (Error.unsupported other.kindName "not an update action")

theorem action_neat (scope : Scope) {e : Expr} (he : e.raws = []) :
    Yields (e.action scope) fun _ action => Neat action.2 := by
  unfold action
  split
  · rename_i function args
    split
    · rename_i verb hverb
      refine .bind (actionText_neat scope (by rw [hverb]; rfl) (raws_of_mem_args he)) ?_
      exact fun text htext => .pure fun _ => htext
    · exact .throw _
  · exact .throw _

/-- An action without raw text is written, and put into the text. -/
theorem addAction_eq (scope : Scope) (text : List Char) {e : Expr} (he : e.raws = []) :
    addAction scope text e =
      e.action scope >>= fun action => pure (push text action.1 action.2) := by
  cases e with
  | raw => cases he
  | call function args =>
    rw [addAction, action]
    cases function.verb? with
    | none => rfl
    | some verb =>
      simp only [bind_assoc, pure_bind]
  | _ => rfl

/-- Actions without raw text are written one by one, and put into the text. -/
theorem addActions_eq_ok {scope : Scope} {es : List Expr} (hes : ∀ e ∈ es, e.raws = [])
    {text text' : List Char} {a b : Aliases} :
    addActions scope text es a = .ok text' b ↔
      ∃ actions, es.mapM (action scope) a = .ok actions b ∧
        text' = actions.foldl (fun text action => push text action.1 action.2) text := by
  induction es generalizing text a with
  | nil =>
    constructor
    · intro h
      obtain ⟨rfl, rfl⟩ := pure_eq_ok.mp h
      exact ⟨[], mapM_nil_eq_ok.mpr ⟨rfl, rfl⟩, rfl⟩
    · rintro ⟨actions, hactions, rfl⟩
      obtain ⟨rfl, rfl⟩ := mapM_nil_eq_ok.mp hactions
      rfl
  | cons e es ih =>
    obtain ⟨he, hes⟩ := List.forall_mem_cons.mp hes
    rw [addActions, addAction_eq scope text he, bind_assoc, bind_eq_ok]
    constructor
    · rintro ⟨first, a₁, hfirst, h⟩
      rw [pure_bind, ih hes] at h
      obtain ⟨actions, hactions, rfl⟩ := h
      exact ⟨first :: actions, mapM_cons_eq_ok.mpr ⟨first, a₁, actions, hfirst, hactions, rfl⟩, rfl⟩
    · rintro ⟨actions, hactions, rfl⟩
      obtain ⟨first, a₁, rest, hfirst, hrest, rfl⟩ := mapM_cons_eq_ok.mp hactions
      refine ⟨first, a₁, hfirst, ?_⟩
      rw [pure_bind, ih hes]
      exact ⟨rest, hrest, rfl⟩

/-- **The text of an update** without raw text is what comes of its actions one by one. -/
theorem updateText_eq_ok {scope : Scope} {e : Expr} (he : e.raws = []) {text : String}
    {a b : Aliases} :
    updateText scope e a = .ok text b ↔
      ∃ actions, e.conjuncts.mapM (action scope) a = .ok actions b ∧ actions ≠ [] ∧
        text = String.ofList (written actions) := by
  have hconjuncts : ∀ c ∈ e.conjuncts, c.raws = [] := fun c hc =>
    raws_eq_nil_of_subset he (raws_subset_of_mem_conjuncts hc)
  rw [updateText, bind_eq_ok]
  constructor
  · rintro ⟨chars, a₁, hchars, h⟩
    obtain ⟨actions, hactions, hwritten⟩ := (addActions_eq_ok hconjuncts).mp hchars
    by_cases hempty : chars.isEmpty = true
    · rw [if_pos hempty] at h
      exact (throw_eq_ok.mp h).elim
    · rw [if_neg hempty] at h
      obtain ⟨rfl, rfl⟩ := pure_eq_ok.mp h
      rw [List.isEmpty_iff, hwritten] at hempty
      exact ⟨actions, hactions, fun hnil => hempty (written_eq_nil.mpr hnil), by rw [hwritten]; rfl⟩
  · rintro ⟨actions, hactions, hne, rfl⟩
    refine ⟨written actions, b, (addActions_eq_ok hconjuncts).mpr ⟨actions, hactions, rfl⟩, ?_⟩
    rw [if_neg (by rwa [List.isEmpty_iff, written_eq_nil])]
    rfl

end Expr

namespace Session

open Clauses

/-- **Updates are merged exactly if their actions are settled.** The text of an update without raw text
is what comes of its actions one by one. It has one clause for each verb if no `remove` in an argument
hides the clause of a later action, and otherwise the first action whose clause is hidden goes to a
place that it does not belong to. -/
theorem update_merged {scope : Scope} {e : Expr} {s t : Session} {text : String}
    (hs : s.Reachable) (he : e.raws = []) (h : update scope e s = .ok text t) :
    ∃ folded counter actions,
      e.fold s.counter = .ok folded counter ∧
        folded.conjuncts.mapM (Expr.action scope) s.aliases = .ok actions t.aliases ∧
        actions ≠ [] ∧ text.toList = written actions ∧
        (Settled actions → text.toList = merged actions) ∧
        ((∀ before, before <+: actions → written before = merged before) ↔ Settled actions) := by
  obtain ⟨folded, s₁, hfolded, h⟩ := bind_eq_ok.mp h
  obtain ⟨counter, hfold, rfl⟩ := folded_eq_ok.mp hfolded
  obtain ⟨aliases, hrun, rfl⟩ := onAliases_eq_ok.mp h
  have hraws : folded.raws = [] := Expr.raws_eq_nil_of_subset he (Expr.raws_fold hfold)
  obtain ⟨actions, hactions, hne, rfl⟩ := (Expr.updateText_eq_ok hraws).mp hrun
  have hneat : ∀ action ∈ actions, Neat action.2 :=
    (Yields.mapM (fun c hc => Expr.action_neat scope
      (Expr.raws_eq_nil_of_subset hraws (Expr.raws_subset_of_mem_conjuncts hc)))
      hs.tidy hactions).2.2.2
  have hiff := written_eq_merged hneat
  refine ⟨folded, counter, actions, hfold, hactions, hne, String.toList_ofList, fun hsettled => ?_,
    hiff⟩
  rw [String.toList_ofList]
  exact hiff.mpr hsettled actions (List.prefix_refl _)

/-- An update with two clauses. -/
def mixedUpdate : Expr :=
  .binary .and
    (.binary .and (.call .set [.member .item "a", .constant (.int 1)])
      (.call .remove [.member .item "remove"]))
    (.call .set [.member .item "b", .constant (.int 2)])

/-- The actions of `mixedUpdate`. -/
def mixedActions : List Action :=
  [(.set, "a = :v0".toList), (.remove, "remove".toList), (.set, "b = :v1".toList)]

theorem written_mixedActions :
    written mixedActions = "SET a = :v0, b = :v1 REMOVE remove".toList := by
  have hfirst : push [] .set "a = :v0".toList = "SET a = :v0".toList := by decide
  have hsecond : push "SET a = :v0".toList .remove "remove".toList =
      "SET a = :v0 REMOVE remove".toList := by
    have hwords : words 0 [] "SET a = :v0".toList =
        [(0, "SET".toList), (4, "a".toList), (6, "=".toList), (8, ":v0".toList)] := by decide
    rw [push, verbs, hwords]
    simp only [verbsAmong_cons]
    decide
  have hthird : push "SET a = :v0 REMOVE remove".toList .set "b = :v1".toList =
      "SET a = :v0, b = :v1 REMOVE remove".toList := by
    have hwords : words 0 [] "SET a = :v0 REMOVE remove".toList =
        [(0, "SET".toList), (4, "a".toList), (6, "=".toList), (8, ":v0".toList),
          (12, "REMOVE".toList), (19, "remove".toList)] := by decide
    rw [push, verbs, hwords]
    simp only [verbsAmong_cons]
    decide
  change push (push (push [] _ _) _ _) _ _ = _
  rw [hfirst, hsecond, hthird]

theorem update_mixedUpdate :
    ∃ t, update (.untyped default) mixedUpdate (start 0) =
      .ok "SET a = :v0, b = :v1 REMOVE remove" t := by
  have hresult : result? (mixedUpdate.conjuncts.mapM (Expr.action (.untyped default))) .empty =
      some mixedActions := by decide +kernel
  obtain ⟨aliases, hactions⟩ := result?_eq_some.mp hresult
  have htext : Expr.updateText (.untyped default) mixedUpdate .empty =
      .ok "SET a = :v0, b = :v1 REMOVE remove" aliases := by
    refine (Expr.updateText_eq_ok rfl).mpr ⟨mixedActions, hactions, by decide, ?_⟩
    rw [written_mixedActions, String.ofList_toList]
  refine ⟨⟨aliases, 0⟩, bind_eq_ok.mpr ⟨mixedUpdate, start 0, rfl, ?_⟩⟩
  exact onAliases_eq_ok.mpr ⟨aliases, htext, rfl⟩

theorem update_merged_mixedUpdate :
    (start 0).Reachable ∧ mixedUpdate.raws = [] ∧
      ∃ t, update (.untyped default) mixedUpdate (start 0) =
          .ok "SET a = :v0, b = :v1 REMOVE remove" t ∧
        ∃ folded counter actions, mixedUpdate.fold 0 = .ok folded counter ∧
          folded.conjuncts.mapM (Expr.action (.untyped default)) (start 0).aliases =
            .ok actions t.aliases ∧
          actions ≠ [] ∧ "SET a = :v0, b = :v1 REMOVE remove".toList = written actions ∧
          (Settled actions → "SET a = :v0, b = :v1 REMOVE remove".toList = merged actions) ∧
          ((∀ before, before <+: actions → written before = merged before) ↔ Settled actions) := by
  obtain ⟨t, h⟩ := update_mixedUpdate
  have hmerged := update_merged (.start 0) (e := mixedUpdate) rfl h
  exact ⟨.start 0, rfl, t, h, hmerged⟩

end Session

end ItemMapper
