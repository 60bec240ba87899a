import ItemMapper.Proofs.Aliases.Compilation
import ItemMapper.Proofs.Condition.Meaning
import ItemMapper.Proofs.Condition.Spelling
import ItemMapper.Proofs.Expression.Template

/-!
# Conditions say what expressions mean

The text of a compiled condition, read by the store's grammar with its placeholders replaced, is the
meaning of the folded expression. Each function of the compiler yields text whose tokens spell the
meaning of its part; parentheses stand wherever a part would bind less tightly than its place asks
for.

## Main definitions

* `Expr.WritesPath`, `Expr.SpellsOperand`, `Expr.SpellsAtom`: texts that say what parts mean.

## Main statements

* `Expr.path_yields`, `Expr.operand_yields`, `Expr.callText_yields`, `Expr.predicate_yields`: the
  parts of the compiler.
* `Session.read?_condition`: **a condition is read as what the expression means**.
-/

namespace ItemMapper

namespace Expr

open Condition

/-! ### Paths -/

theorem escape_yields (name : String) :
    Yields (escape name) fun a text =>
      ∃ token, Spells a text.toList [token] ∧ name? token = some name := by
  intro a b text ha h
  have hgrows : Aliases.Grows Aliases.Marked a b := (escape_made name).grows.of_ok h
  refine ⟨hgrows.tidy ha, hgrows.extends, ?_⟩
  unfold escape at h
  by_cases hneeds : needsAlias name = true
  · rw [if_pos hneeds] at h
    obtain ⟨hnames, hmark⟩ := Aliases.nameAlias_spec ha h
    exact ⟨.name name, .name hnames hmark, rfl⟩
  · rw [if_neg hneeds] at h
    rw [Bool.not_eq_true] at hneeds
    obtain ⟨rfl, rfl⟩ := pure_eq_ok.mp h
    obtain ⟨hne, hall⟩ := all_isNameChar_of_needsAlias hneeds
    refine ⟨.word name, ?_, by rw [name?, if_neg (by simp [hneeds])]⟩
    exact .word a hne hall (Keyword.ofWord?_of_needsAlias hneeds)

theorem memberNamed_eq_ok {scope : Scope} {schema : Option Schema} {name stored : String}
    {type : Option TypeInfo} (h : memberNamed scope schema name = .ok (stored, type)) :
    storedName? scope schema name = some stored ∧ typeNamed? scope schema name = type := by
  unfold memberNamed at h
  split at h
  · cases h
    exact ⟨rfl, rfl⟩
  · split at h
    · rename_i schema _ found hlookup
      cases h
      rw [storedName?, typeNamed?, Option.bind_some, hlookup]
      exact ⟨rfl, rfl⟩
    · cases h

/-- A path whose text spells some steps. -/
def SpellsPath (a : Aliases) (text : String) (steps : List Step) : Prop :=
  ∃ tokens, Spells a text.toList tokens ∧ SpelledPath tokens steps

theorem SpellsPath.mono {a b : Aliases} {text : String} {steps : List Step}
    (h : SpellsPath a text steps) (hab : a.Extends b) : SpellsPath b text steps := by
  obtain ⟨tokens, hspells, hpath⟩ := h
  exact ⟨tokens, hspells.mono hab, hpath⟩

/-- What is known of the text of a path that leads somewhere by a schema. -/
structure WritesPath (scope : Scope) (e : Expr) (a : Aliases) (path : Path) : Prop where
  type : path.type = e.typeOf? scope
  schema : path.schema = e.schemaOf? scope
  spells : ∃ steps, e.steps? scope = some steps ∧ SpellsPath a path.text steps

theorem spellsPath_member {a : Aliases} {parent segment name : String} {steps : List Step}
    {token : Token} (hparent : SpellsPath a parent steps)
    (hsegment : Spells a segment.toList [token]) (hname : name? token = some name) :
    SpellsPath a s!"{parent}.{segment}" (steps ++ [.member name]) := by
  obtain ⟨tokens, hspells, hpath⟩ := hparent
  refine ⟨tokens ++ [.mark .dot, token], ?_, hpath.member hname⟩
  have hmark := hspells.mark .dot hsegment
  have htext : (s!"{parent}.{segment}").toList = parent.toList ++ Mark.dot.char :: segment.toList := by
    change (parent ++ "." ++ segment).toList = _
    simp [Mark.char]
  rwa [htext]

theorem spellsPath_element {a : Aliases} {parent : String} {steps : List Step} (n : Nat)
    (hparent : SpellsPath a parent steps) :
    SpellsPath a s!"{parent}[{(n : Int)}]" (steps ++ [.element n]) := by
  obtain ⟨tokens, hspells, hpath⟩ := hparent
  refine ⟨tokens ++ [.mark .openBracket, .word (toString n), .mark .closeBracket], ?_,
    hpath.element (readNat?_toString n)⟩
  have hmark := hspells.mark .openBracket ((Spells.digits a n).mark .closeBracket (.nil a))
  have htext : (s!"{parent}[{(n : Int)}]").toList =
      parent.toList ++ Mark.openBracket.char :: ((toString n).toList ++ Mark.closeBracket.char :: []) := by
    change (parent ++ "[" ++ toString n ++ "]").toList = _
    simp [Mark.char]
  rwa [htext]

/-- The name of a member of the item. -/
theorem memberPath_none_yields (scope : Scope) (name : String) :
    Yields (memberPath scope none scope.root name) (WritesPath scope (.member .item name)) := by
  intro a b path ha h
  have hgrows : Aliases.Grows Aliases.Marked a b :=
    (memberPath_made scope none scope.root name).grows.of_ok h
  refine ⟨hgrows.tidy ha, hgrows.extends, ?_⟩
  obtain ⟨⟨stored, type⟩, hfound, h⟩ := AliasM.ofExcept_bind_eq_ok.mp h
  obtain ⟨segment, a₂, hsegment, h⟩ := bind_eq_ok.mp h
  obtain ⟨rfl, rfl⟩ := pure_eq_ok.mp h
  obtain ⟨hstored, rfl⟩ := memberNamed_eq_ok hfound
  obtain ⟨-, -, token, hspells, hname⟩ := escape_yields stored ha hsegment
  refine ⟨rfl, rfl, [.member stored], ?_, [token], hspells, .name hname⟩
  rw [steps?, steps?, schemaOf?, Option.bind_eq_bind, Option.bind_some, hstored]
  rfl

/-- A member of what a path leads to. -/
theorem memberPath_some_yields {scope : Scope} {parent : Expr} {path : Path} {a b : Aliases}
    {name : String} {x : Path} (ha : a.Tidy) (hparent : WritesPath scope parent a path)
    (h : memberPath scope (some path.text) path.schema name a = .ok x b) :
    b.Tidy ∧ a.Extends b ∧ WritesPath scope (.member parent name) b x := by
  have hgrows : Aliases.Grows Aliases.Marked a b :=
    (memberPath_made scope _ path.schema name).grows.of_ok h
  refine ⟨hgrows.tidy ha, hgrows.extends, ?_⟩
  obtain ⟨htype, hschema, steps, hsteps, hspellsParent⟩ := hparent
  obtain ⟨⟨stored, type⟩, hfound, h⟩ := AliasM.ofExcept_bind_eq_ok.mp h
  obtain ⟨segment, a₂, hsegment, h⟩ := bind_eq_ok.mp h
  obtain ⟨rfl, rfl⟩ := pure_eq_ok.mp h
  rw [hschema] at hfound
  obtain ⟨hstored, rfl⟩ := memberNamed_eq_ok hfound
  obtain ⟨-, hextends, token, hspells, hname⟩ := escape_yields stored ha hsegment
  refine ⟨by rw [typeOf?], by rw [schemaOf?], steps ++ [.member stored], ?_,
    spellsPath_member (hspellsParent.mono hextends) hspells hname⟩
  rw [steps?, hsteps, Option.bind_eq_bind, Option.bind_some, hstored]
  rfl

/-- **The text of a path spells its steps.** -/
theorem path_yields (scope : Scope) (e : Expr) : Yields (e.path scope) (WritesPath scope e) := by
  fun_induction path scope e with
  | case1 name => exact memberPath_none_yields scope name
  | case2 parent name _ ih =>
    intro a b path ha h
    obtain ⟨parentPath, a₁, hparent, h⟩ := bind_eq_ok.mp h
    obtain ⟨ha₁, hextends, hwrites⟩ := ih ha hparent
    obtain ⟨hb, hextends', hmember⟩ := memberPath_some_yields ha₁ hwrites h
    exact ⟨hb, hextends.trans hextends', hmember⟩
  | case3 => exact fun _ _ _ _ h => (throw_eq_ok.mp h).elim
  | case4 parent key _ ih =>
    intro a b path ha h
    obtain ⟨parentPath, a₁, hparent, h⟩ := bind_eq_ok.mp h
    obtain ⟨ha₁, hextends, htype, hschema, steps, hsteps, hspellsParent⟩ := ih ha hparent
    obtain ⟨segment, a₂, hsegment, h⟩ := bind_eq_ok.mp h
    obtain ⟨rfl, rfl⟩ := pure_eq_ok.mp h
    obtain ⟨ha₂, hextends', token, hspells, hname⟩ := escape_yields key ha₁ hsegment
    refine ⟨ha₂, hextends.trans hextends', rfl, rfl, steps ++ [.member key], ?_,
      spellsPath_member (hspellsParent.mono hextends') hspells hname⟩
    rw [steps?, hsteps]
    rfl
  | case5 parent _ i hi _ ih =>
    intro a b path ha h
    obtain ⟨parentPath, a₁, hparent, h⟩ := bind_eq_ok.mp h
    obtain ⟨rfl, rfl⟩ := pure_eq_ok.mp h
    obtain ⟨ha₁, hextends, htype, hschema, steps, hsteps, hspells⟩ := ih ha hparent
    obtain ⟨n, rfl⟩ := Int.eq_ofNat_of_zero_le hi
    refine ⟨ha₁, hextends, rfl, hschema, steps ++ [.element n], ?_, ?_⟩
    · rw [steps?, hsteps, Option.bind_eq_bind, Option.bind_some, if_pos hi]
      rfl
    · exact spellsPath_element n hspells
  | case6 => exact fun _ _ _ _ h => (throw_eq_ok.mp h).elim
  | case7 => exact fun _ _ _ _ h => (throw_eq_ok.mp h).elim
  | case8 => exact fun _ _ _ _ h => (throw_eq_ok.mp h).elim

/-! ### Operands -/

/-- A text that spells an operand. -/
def SpellsOperand (a : Aliases) (text : String) (operand : Operand) : Prop :=
  ∃ tokens, Spells a text.toList tokens ∧ SpelledOperand tokens operand

theorem SpellsOperand.mono {a b : Aliases} {text : String} {operand : Operand}
    (h : SpellsOperand a text operand) (hab : a.Extends b) : SpellsOperand b text operand := by
  obtain ⟨tokens, hspells, hoperand⟩ := h
  exact ⟨tokens, hspells.mono hab, hoperand⟩

/-- What a value stands for by its placeholder. -/
theorem valueAlias_yields (value : AttributeValue) :
    Yields (Aliases.valueAlias value) fun a text => SpellsOperand a text (.value value) := by
  intro a b text ha h
  have hgrows : Aliases.Grows Aliases.Marked a b := (Aliases.valueAlias_grows value).of_ok h
  obtain ⟨present, hvalues, hsame, hmark⟩ := Aliases.valueAlias_spec ha h
  exact ⟨hgrows.tidy ha, hgrows.extends, [.value present], .value hvalues hmark, .value hsame⟩

/-- The text of a constant spells its attribute value. -/
theorem constantText_yields (scope : Scope) (value : Value) (hint : Hint) :
    Yields (constantText scope value hint) fun a text =>
      ∃ operand, operand? scope hint (.constant value) = some operand ∧
        SpellsOperand a text operand := by
  intro a b text ha h
  obtain ⟨stored, hstored, h⟩ := AliasM.ofExcept_bind_eq_ok.mp h
  obtain ⟨hb, hextends, hspells⟩ := valueAlias_yields stored ha h
  refine ⟨hb, hextends, .value stored, ?_, hspells⟩
  rw [operand?, hstored]
  rfl

/-- The text of a call's first argument spells its steps. -/
theorem subject_yields (scope : Scope) (function : StoreFunction) (arg : Expr) :
    Yields (subject scope function arg) fun a text =>
      ∃ steps, arg.steps? scope = some steps ∧ SpellsPath a text steps := by
  intro a b text ha h
  unfold subject at h
  by_cases hpath : arg.isPath = true
  · rw [if_pos hpath] at h
    obtain ⟨path, a₁, hrun, h⟩ := bind_eq_ok.mp h
    obtain ⟨rfl, rfl⟩ := pure_eq_ok.mp h
    obtain ⟨hb, hextends, -, -, steps, hsteps, hspells⟩ := path_yields scope arg ha hrun
    exact ⟨hb, hextends, steps, hsteps, hspells⟩
  · rw [if_neg hpath] at h
    exact (throw_eq_ok.mp h).elim

/-- The text of a size spells it. -/
theorem sizeText_yields (scope : Scope) (hint : Hint) (args : List Expr) :
    Yields (sizeText scope args) fun a text =>
      ∃ operand, operand? scope hint (.call .size args) = some operand ∧
        SpellsOperand a text operand := by
  intro a b text ha h
  obtain ⟨_, harity, h⟩ := AliasM.ofExcept_bind_eq_ok.mp h
  obtain ⟨arg, rfl⟩ := List.length_eq_one_iff.mp (beq_iff_eq.mp (checkArity_eq_ok harity))
  obtain ⟨texts, a₂, hrun, h⟩ := bind_eq_ok.mp h
  obtain ⟨inner, a₃, more, hinner, hmore, rfl⟩ := mapM_cons_eq_ok.mp hrun
  obtain ⟨rfl, rfl⟩ := mapM_nil_eq_ok.mp hmore
  obtain ⟨hrender, rfl⟩ := AliasM.ofExcept_eq_ok.mp h
  rw [render_named (f := .size) rfl rfl] at hrender
  cases hrender
  obtain ⟨ha₃, hextends, steps, hsteps, tokens, hspells, hpath⟩ :=
    subject_yields scope .size arg ha hinner
  refine ⟨ha₃, hextends, .size steps, by rw [operand?, hsteps]; rfl, _, ?_, .size hpath⟩
  have hall := (Spells.functionName a₃ .size rfl).mark .opening (hspells.mark .closing (.nil a₃))
  have htext : (StoreFunction.size.name ++ "(" ++ ", ".intercalate [inner] ++ ")").toList =
      StoreFunction.size.name.toList ++ Mark.opening.char ::
        (inner.toList ++ Mark.closing.char :: []) := by
    simp [Mark.char]
  rwa [htext]

/-- **The text of an operand spells it.** -/
theorem operand_yields (scope : Scope) (hint : Hint) {e : Expr} (he : e.raws = []) :
    Yields (operand scope hint e) fun a text =>
      ∃ operand, operand? scope hint e = some operand ∧ SpellsOperand a text operand := by
  have hpath : ∀ (hint : Hint) (e : Expr), e.isPath = true →
      Yields (do let path ← e.path scope; pure path.text) fun a text =>
        ∃ operand, operand? scope hint e = some operand ∧ SpellsOperand a text operand := by
    intro hint e he a b text ha h
    obtain ⟨path, a₁, hrun, h⟩ := bind_eq_ok.mp h
    obtain ⟨rfl, rfl⟩ := pure_eq_ok.mp h
    obtain ⟨hb, hextends, -, -, steps, hsteps, tokens, hspells, hpath⟩ :=
      path_yields scope e ha hrun
    refine ⟨hb, hextends, .path steps, ?_, tokens, hspells, .path hpath⟩
    cases e with
    | member parent name => simp [operand?, hsteps]
    | index parent position => simp [operand?, hsteps]
    | _ => cases he
  fun_induction operand scope hint e with
  | case1 hint parent name => exact hpath hint _ rfl
  | case2 hint parent position => exact hpath hint _ rfl
  | case3 hint value => exact constantText_yields scope value hint
  | case4 hint inner type ih =>
    intro a b text ha h
    rw [operand?]
    exact ih he ha h
  | case5 hint args => exact sizeText_yields scope hint args
  | case6 => cases he
  | case7 => exact fun _ _ _ _ h => (throw_eq_ok.mp h).elim

/-! ### Calls -/

theorem spells_intercalate {a : Aliases} {texts : List String} {operands : List Operand}
    (h : List.Forall₂ (SpellsOperand a) texts operands) (hne : operands ≠ []) :
    ∃ tokens, Spells a (", ".intercalate texts).toList tokens ∧ SpelledOperands tokens operands := by
  induction h with
  | nil => exact absurd rfl hne
  | @cons text operand texts operands hfirst hrest ih =>
    obtain ⟨tokens, hspells, hoperand⟩ := hfirst
    cases hrest with
    | nil => exact ⟨tokens, by simpa using hspells, .one hoperand⟩
    | @cons next operand' texts operands hnext hrest =>
      obtain ⟨others, hothers, hoperands⟩ := ih nofun
      refine ⟨_, ?_, .more hoperand hoperands⟩
      have htext : (", ".intercalate (text :: next :: texts)).toList =
          text.toList ++ Mark.comma.char :: ' ' :: (", ".intercalate (next :: texts)).toList := by
        rw [String.intercalate_cons_cons, String.toList_append, String.toList_append,
          List.append_assoc]
        rfl
      rw [htext]
      exact hspells.mark .comma hothers.ofBlank

/-- Texts that spell the operands of a call, if its arguments are operands. -/
theorem spells_operands {a : Aliases} {scope : Scope} {hint : Hint} {args : List Expr}
    {texts : List String}
    (h : List.Forall₂ (fun arg text => ∃ operand, operand? scope hint arg = some operand ∧
      SpellsOperand a text operand) args texts) :
    ∃ operands, args.mapM (operand? scope hint) = some operands ∧
      List.Forall₂ (SpellsOperand a) texts operands := by
  induction h with
  | nil => exact ⟨[], rfl, .nil⟩
  | cons hfirst _ ih =>
    obtain ⟨operand, hoperand, hspells⟩ := hfirst
    obtain ⟨operands, hoperands, hall⟩ := ih
    refine ⟨operand :: operands, ?_, .cons hspells hall⟩
    rw [List.mapM_cons, hoperand, hoperands]
    rfl

/-- The text of the first argument of a call spells it. -/
theorem firstText_yields (scope : Scope) (function : StoreFunction) {first : Expr}
    (others : List Expr) (hfirst : first.raws = []) :
    Yields (firstText scope function first others) fun a text =>
      ∃ operand, firstOperand? scope function first others = some operand ∧
        SpellsOperand a text operand := by
  intro a b text ha h
  unfold firstText at h
  rw [firstOperand?]
  by_cases hwants : function.wantsPath = true
  · rw [if_pos hwants] at h ⊢
    obtain ⟨hb, hextends, steps, hsteps, tokens, hspells, hpath⟩ :=
      subject_yields scope function first ha h
    exact ⟨hb, hextends, .path steps, by rw [hsteps]; rfl, tokens, hspells, .path hpath⟩
  · rw [if_neg hwants] at h ⊢
    exact operand_yields scope _ hfirst ha h

/-- What a call spells, its arguments in the template. -/
def SpellsAtom (a : Aliases) (text : String) (c : Condition) : Prop :=
  ∃ tokens, Spells a text.toList tokens ∧ SpelledAtom tokens c

/-- A call with a name spells a call. -/
theorem spellsAtom_named {a : Aliases} {function : StoreFunction} {texts : List String}
    {operands : List Operand} (hnamed : function.isNamed = true) (hfunction : function? function.name = some function)
    (hall : List.Forall₂ (SpellsOperand a) texts operands) (hne : operands ≠ [])
    (htakes : function.takes texts.length = true) :
    SpellsAtom a (function.name ++ "(" ++ ", ".intercalate texts ++ ")")
      (.call function operands) := by
  obtain ⟨tokens, hspells, hoperands⟩ := spells_intercalate hall hne
  rw [hall.length_eq] at htakes
  refine ⟨_, ?_, .call hfunction hoperands htakes⟩
  have htext : (function.name ++ "(" ++ ", ".intercalate texts ++ ")").toList =
      function.name.toList ++ Mark.opening.char ::
        ((", ".intercalate texts).toList ++ Mark.closing.char :: []) := by
    simp [Mark.char]
  rw [htext]
  exact (Spells.functionName a function hnamed).mark .opening (hspells.mark .closing (.nil a))

theorem spellsAtom_between {a : Aliases} {x low high : String} {operand l h : Operand}
    (hx : SpellsOperand a x operand) (hlow : SpellsOperand a low l)
    (hhigh : SpellsOperand a high h) :
    SpellsAtom a (x ++ " BETWEEN " ++ low ++ " AND " ++ high) (.call .between [operand, l, h]) := by
  obtain ⟨xs, hxs, hoperand⟩ := hx
  obtain ⟨ls, hls, hl⟩ := hlow
  obtain ⟨hs, hhs, hh⟩ := hhigh
  refine ⟨_, ?_, .between hoperand hl hh⟩
  have htext : (x ++ " BETWEEN " ++ low ++ " AND " ++ high).toList =
      x.toList ++ ' ' :: (Keyword.between.text.toList ++ ' ' ::
        (low.toList ++ ' ' :: (Keyword.and.text.toList ++ ' ' :: high.toList))) := by
    simp only [String.toList_append, List.append_assoc]
    rfl
  rw [htext]
  exact hxs.blank ((Spells.keyword a .between).blank (hls.blank ((Spells.keyword a .and).blank hhs)))

theorem spellsAtom_isIn {a : Aliases} {x : String} {operand : Operand} {texts : List String}
    {operands : List Operand} (hx : SpellsOperand a x operand)
    (hall : List.Forall₂ (SpellsOperand a) texts operands) (hne : operands ≠ []) :
    SpellsAtom a (x ++ " IN (" ++ ", ".intercalate texts ++ ")")
      (.call .isIn (operand :: operands)) := by
  obtain ⟨xs, hxs, hoperand⟩ := hx
  obtain ⟨tokens, hspells, hoperands⟩ := spells_intercalate hall hne
  refine ⟨_, ?_, .isIn hoperand hoperands⟩
  have htext : (x ++ " IN (" ++ ", ".intercalate texts ++ ")").toList =
      x.toList ++ ' ' :: (Keyword.isIn.text.toList ++ ' ' :: Mark.opening.char ::
        ((", ".intercalate texts).toList ++ Mark.closing.char :: [])) := by
    simp only [String.toList_append, List.append_assoc]
    rfl
  rw [htext]
  exact hxs.blank ((Spells.keyword a .isIn).blank
    ((hspells.mark .closing (.nil a)).ofMark .opening))

/-- The filled template of a predicate spells a call. -/
theorem spellsAtom_render {a : Aliases} {function : StoreFunction} {text x : String}
    {operand : Operand} {texts : List String} {operands : List Operand}
    (hpredicate : function.isPredicate = true) (hx : SpellsOperand a x operand)
    (hall : List.Forall₂ (SpellsOperand a) texts operands)
    (htakes : function.takes (x :: texts).length = true)
    (hrender : Template.render function.template (x :: texts) = .ok text) :
    SpellsAtom a text (.call function (operand :: operands)) := by
  have hnamed : function.isNamed = true → function? function.name = some function →
      function.takes (x :: texts).length = ((x :: texts).length == function.arity) →
      SpellsAtom a text (.call function (operand :: operands)) := by
    intro hnamed hfunction hcount
    rw [render_named hnamed (beq_iff_eq.mp (hcount ▸ htakes))] at hrender
    cases hrender
    exact spellsAtom_named hnamed hfunction (.cons hx hall) nofun htakes
  cases function with
  | between =>
    obtain ⟨low, high, rfl⟩ := List.length_eq_two.mp (by
      simpa [StoreFunction.takes, StoreFunction.isVariadic, StoreFunction.arity] using htakes)
    cases hall with
    | cons hlow hall =>
      cases hall with
      | cons hhigh hall =>
        cases hall
        rw [render_between] at hrender
        cases hrender
        exact spellsAtom_between hx hlow hhigh
  | isIn =>
    rw [render_isIn] at hrender
    cases hrender
    refine spellsAtom_isIn hx hall ?_
    rintro rfl
    cases hall
    cases htakes
  | size | set | remove | add | delete | ifNotExists | listAppend => cases hpredicate
  | _ => exact hnamed rfl rfl rfl

theorem raws_of_mem_spread (function : StoreFunction) {args : List Expr}
    (h : ∀ arg ∈ args, arg.raws = []) : ∀ arg ∈ spread function args, arg.raws = [] := by
  unfold spread
  split
  · refine List.forall_mem_cons.mpr ⟨h _ List.mem_cons_self, fun arg harg => ?_⟩
    obtain ⟨item, -, rfl⟩ := List.mem_map.mp harg
    rfl
  · refine List.forall_mem_cons.mpr ⟨h _ List.mem_cons_self, fun arg harg => ?_⟩
    obtain ⟨item, -, rfl⟩ := List.mem_map.mp harg
    rfl
  · exact h

/-- **The text of a call spells it.** -/
theorem callText_yields (scope : Scope) {function : StoreFunction} {args : List Expr}
    (hpredicate : function.isPredicate = true) (hargs : ∀ arg ∈ args, arg.raws = []) :
    Yields (callText scope function args) fun a text =>
      ∃ c, callMeaning? scope function args = some c ∧ SpellsAtom a text c := by
  intro a b text ha h
  have hraws := raws_of_mem_spread function hargs
  obtain ⟨_, hcheck, h⟩ := AliasM.ofExcept_bind_eq_ok.mp h
  have htakes := checkArity_eq_ok hcheck
  unfold callMeaning?
  cases hspread : spread function args with
  | nil =>
    rw [hspread] at htakes
    cases function <;> cases htakes
  | cons first others =>
    rw [hspread] at h htakes hraws
    obtain ⟨hfirst, hothers⟩ := List.forall_mem_cons.mp hraws
    obtain ⟨x, a₁, hx, h⟩ := bind_eq_ok.mp h
    obtain ⟨texts, a₂, htexts, h⟩ := bind_eq_ok.mp h
    obtain ⟨hrender, rfl⟩ := AliasM.ofExcept_eq_ok.mp h
    obtain ⟨ha₁, hextends, operand, hoperand, hspells⟩ :=
      firstText_yields scope function others hfirst ha hx
    obtain ⟨ha₂, hextends', hall⟩ := mapM_yields
      (Q := fun a arg text => ∃ operand,
        operand? scope (argumentHint scope function first) arg = some operand ∧
          SpellsOperand a text operand)
      (fun ⟨operand, hoperand, hspells⟩ hab => ⟨operand, hoperand, hspells.mono hab⟩)
      (fun arg harg => operand_yields scope _ (hothers arg harg)) ha₁ htexts
    obtain ⟨operands, hoperands, hall'⟩ := spells_operands hall
    rw [List.length_cons, hall.length_eq, ← List.length_cons (a := x)] at htakes
    refine ⟨ha₂, hextends.trans hextends', .call function (operand :: operands), ?_,
      spellsAtom_render hpredicate (hspells.mono hextends') hall' htakes hrender⟩
    simp only [Option.bind_eq_bind, hoperand, hoperands, Option.bind_some]

/-! ### Conditions -/

/-- A text that spells a condition of some rank. -/
def SpellsCondition (a : Aliases) (rank : Rank) (text : String) (c : Condition) : Prop :=
  ∃ tokens, Spells a text.toList tokens ∧ Spelled rank tokens c

theorem SpellsCondition.mono {a b : Aliases} {rank : Rank} {text : String} {c : Condition}
    (h : SpellsCondition a rank text c) (hab : a.Extends b) : SpellsCondition b rank text c := by
  obtain ⟨tokens, hspells, hspelled⟩ := h
  exact ⟨tokens, hspells.mono hab, hspelled⟩

/-- How tightly the text of an expression binds. -/
def rank : Expr → Rank
  | .binary .and _ _ => .conjunction
  | .binary .or _ _ => .disjunction
  | _ => .unit

/-- How tightly the conditions bind that an operator joins. -/
def rankBeside : BinaryOp → Rank
  | .and => .conjunction
  | _ => .disjunction

theorem SpellsCondition.disjunction {a : Aliases} {rank : Rank} {text : String} {c : Condition}
    (h : SpellsCondition a rank text c) : SpellsCondition a .disjunction text c := by
  obtain ⟨tokens, hspells, hspelled⟩ := h
  refine ⟨tokens, hspells, ?_⟩
  cases rank with
  | unit => exact .ofConjunction (.ofUnit hspelled)
  | conjunction => exact .ofConjunction hspelled
  | disjunction => exact hspelled

theorem SpellsCondition.conjunction {a : Aliases} {text : String} {c : Condition}
    (h : SpellsCondition a .unit text c) : SpellsCondition a .conjunction text c := by
  obtain ⟨tokens, hspells, hspelled⟩ := h
  exact ⟨tokens, hspells, .ofUnit hspelled⟩

/-- Between parentheses every condition is a unit. -/
theorem SpellsCondition.group {a : Aliases} {rank : Rank} {text : String} {c : Condition}
    (h : SpellsCondition a rank text c) : SpellsCondition a .unit (group true text) c := by
  obtain ⟨tokens, hspells, hspelled⟩ := h.disjunction
  refine ⟨_, ?_, .group hspelled⟩
  have htext : (Expr.group true text).toList =
      Mark.opening.char :: (text.toList ++ Mark.closing.char :: []) := by
    change ("(" ++ text ++ ")").toList = _
    simp only [String.toList_append]
    rfl
  rw [htext]
  exact (hspells.mark .closing (.nil a)).ofMark .opening

/-- **Beside an operator a condition binds as tightly as its place asks for.** -/
theorem SpellsCondition.beside {a : Aliases} {op : BinaryOp} {e : Expr} {text : String}
    {c : Condition} (hop : op.isLogical = true) (he : e.raws = [])
    (h : SpellsCondition a e.rank text c) :
    SpellsCondition a (rankBeside op) (Expr.group (e.groupedBy op) text) c := by
  have hunit : SpellsCondition a .unit text c → SpellsCondition a (rankBeside op) text c := by
    intro h
    cases op with
    | and => exact h.conjunction
    | _ => exact h.disjunction
  cases e with
  | raw => cases he
  | binary inner left right =>
    cases inner with
    | and =>
      cases op with
      | and => exact h
      | or => exact h.group.disjunction
      | _ => cases hop
    | or =>
      cases op with
      | and => exact h.group.conjunction
      | or => exact h
      | _ => cases hop
    | _ => exact hunit h
  | _ => exact hunit h

/-- After NOT a condition is a unit. -/
theorem SpellsCondition.afterNot {a : Aliases} {e : Expr} {text : String} {c : Condition}
    (he : e.raws = []) (h : SpellsCondition a e.rank text c) :
    SpellsCondition a .unit s!"NOT {Expr.group e.groupedByNot text}" (.not c) := by
  have hunit : SpellsCondition a .unit (Expr.group e.groupedByNot text) c := by
    cases e with
    | raw => cases he
    | binary inner left right =>
      cases inner with
      | and => exact h.group
      | or => exact h.group
      | _ => exact h
    | _ => exact h
  obtain ⟨tokens, hspells, hspelled⟩ := hunit
  refine ⟨_, ?_, .not hspelled⟩
  have htext : (s!"NOT {Expr.group e.groupedByNot text}").toList =
      Keyword.not.text.toList ++ ' ' :: (Expr.group e.groupedByNot text).toList := by
    change ("NOT " ++ Expr.group e.groupedByNot text).toList = _
    rw [String.toList_append]
    rfl
  rw [htext]
  exact (Spells.keyword a .not).blank hspells

theorem toList_joined (l : String) (op : BinaryOp) (r : String) :
    (s!"{l} {op.symbol} {r}").toList = l.toList ++ ' ' :: (op.symbol.toList ++ ' ' :: r.toList) := by
  change (l ++ " " ++ op.symbol ++ " " ++ r).toList = _
  simp only [String.toList_append, List.append_assoc]
  rfl

/-- Two conditions with a logical operator between them. -/
theorem SpellsCondition.join {a : Aliases} {op : BinaryOp} {l r : String} {c d : Condition}
    (hop : op.isLogical = true) (hl : SpellsCondition a (rankBeside op) l c)
    (hr : SpellsCondition a (rankBeside op) r d) :
    SpellsCondition a (rankBeside op) s!"{l} {op.symbol} {r}" (.join op c d) := by
  obtain ⟨ls, hls, hc⟩ := hl
  obtain ⟨rs, hrs, hd⟩ := hr
  cases op with
  | and =>
    refine ⟨_, ?_, .and hc hd⟩
    rw [toList_joined]
    exact hls.blank ((Spells.keyword a .and).blank hrs)
  | or =>
    refine ⟨_, ?_, .or hc hd⟩
    rw [toList_joined]
    exact hls.blank ((Spells.keyword a .or).blank hrs)
  | _ => cases hop

/-- Two operands with a comparison between them. -/
theorem spellsAtom_comparison {a : Aliases} {op : BinaryOp} {text l r : String}
    {left right : Operand} (hop : op.isComparison = true)
    (htext : text.toList = l.toList ++ ' ' :: (op.symbol.toList ++ ' ' :: r.toList))
    (hl : SpellsOperand a l left) (hr : SpellsOperand a r right) :
    SpellsAtom a text (.comparison op left right) := by
  obtain ⟨ls, hls, hleft⟩ := hl
  obtain ⟨rs, hrs, hright⟩ := hr
  refine ⟨_, ?_, .comparison op hleft hright⟩
  rw [htext]
  exact hls.blank ((Spells.operator a hop).blank hrs)

theorem SpellsAtom.spellsCondition {a : Aliases} {text : String} {c : Condition}
    (h : SpellsAtom a text c) : SpellsCondition a .unit text c := by
  obtain ⟨tokens, hspells, hatom⟩ := h
  exact ⟨tokens, hspells, .atom hatom⟩

/-- A member that stands for a condition spells a comparison with true. -/
theorem truthText_yields (scope : Scope) (member : Expr) :
    Yields (truthText scope member) fun a text =>
      ∃ c, truthMeaning? scope member = some c ∧ SpellsAtom a text c := by
  intro a b text ha h
  obtain ⟨path, a₁, hpath, h⟩ := bind_eq_ok.mp h
  obtain ⟨ha₁, hextends, -, -, steps, hsteps, tokens, hspells, hspelled⟩ :=
    path_yields scope member ha hpath
  by_cases hkind : (path.type.map (·.kind)).getD .dynamic = .bool ∨
      (path.type.map (·.kind)).getD .dynamic = .dynamic
  · replace h : (do let truth ← Aliases.valueAlias (.bool true); pure s!"{path.text} = {truth}" :
        AliasM String) a₁ = .ok text b := by
      rwa [if_pos hkind] at h
    obtain ⟨truth, a₂, htruth, h⟩ := bind_eq_ok.mp h
    obtain ⟨rfl, rfl⟩ := pure_eq_ok.mp h
    obtain ⟨ha₂, hextends', hvalue⟩ := valueAlias_yields (.bool true) ha₁ htruth
    refine ⟨ha₂, hextends.trans hextends', .comparison .eq (.path steps) (.value (.bool true)), ?_, ?_⟩
    · rw [truthMeaning?, hsteps]
      rfl
    · refine spellsAtom_comparison rfl ?_ ⟨tokens, hspells.mono hextends', .path hspelled⟩ hvalue
      change (path.text ++ " = " ++ truth).toList = _
      simp only [String.toList_append, List.append_assoc]
      rfl
  · rw [if_neg hkind] at h
    exact (throw_eq_ok.mp h).elim

/-- The text of a comparison spells it. -/
theorem comparisonText_yields (scope : Scope) {op : BinaryOp} {left right : Expr}
    (hop : op.isComparison = true) (hl : left.raws = []) (hr : right.raws = []) :
    Yields (comparisonText scope op left right) fun a text =>
      ∃ l r, operand? scope (hint scope right) left = some l ∧
        operand? scope (hint scope left) right = some r ∧
        SpellsAtom a text (.comparison op l r) := by
  intro a b text ha h
  obtain ⟨l, a₁, hleft, h⟩ := bind_eq_ok.mp h
  obtain ⟨r, a₂, hright, h⟩ := bind_eq_ok.mp h
  obtain ⟨rfl, rfl⟩ := pure_eq_ok.mp h
  obtain ⟨ha₁, hextends, lo, hlo, hlspells⟩ := operand_yields scope _ hl ha hleft
  obtain ⟨ha₂, hextends', ro, hro, hrspells⟩ := operand_yields scope _ hr ha₁ hright
  exact ⟨ha₂, hextends.trans hextends', lo, ro, hlo, hro,
    spellsAtom_comparison hop (toList_joined l op r) (hlspells.mono hextends') hrspells⟩

theorem rank_binary_of_isLogical {op : BinaryOp} (hop : op.isLogical = true) (left right : Expr) :
    (Expr.binary op left right).rank = rankBeside op := by
  cases op with
  | and => rfl
  | or => rfl
  | _ => cases hop

theorem rank_binary_of_isComparison {op : BinaryOp} (hop : op.isComparison = true)
    (left right : Expr) : (Expr.binary op left right).rank = .unit := by
  cases op with
  | and => cases hop
  | or => cases hop
  | _ => rfl

/-- **The text of a condition spells its meaning.** -/
theorem predicate_yields (scope : Scope) {e : Expr} (he : e.raws = []) :
    Yields (predicate scope e) fun a text =>
      ∃ c, e.meaning? scope = some c ∧ SpellsCondition a e.rank text c := by
  fun_induction predicate scope e with
  | case1 op left right hop ihl ihr =>
    intro a b text ha h
    obtain ⟨hl, hr⟩ := List.append_eq_nil_iff.mp he
    obtain ⟨l, a₁, hleft, h⟩ := bind_eq_ok.mp h
    obtain ⟨r, a₂, hright, h⟩ := bind_eq_ok.mp h
    obtain ⟨rfl, rfl⟩ := pure_eq_ok.mp h
    obtain ⟨ha₁, hextends, c, hc, hlspells⟩ := ihl hl ha hleft
    obtain ⟨ha₂, hextends', d, hd, hrspells⟩ := ihr hr ha₁ hright
    refine ⟨ha₂, hextends.trans hextends', .join op c d, ?_, ?_⟩
    · rw [meaning?, if_pos hop, hc, hd]
      rfl
    · rw [rank_binary_of_isLogical hop]
      exact .join hop ((hlspells.mono hextends').beside hop hl) (hrspells.beside hop hr)
  | case2 op left right hlogical hop =>
    intro a b text ha h
    obtain ⟨hl, hr⟩ := List.append_eq_nil_iff.mp he
    obtain ⟨hb, hextends, l, r, hl', hr', hspells⟩ :=
      comparisonText_yields scope hop hl hr ha h
    refine ⟨hb, hextends, .comparison op l r, ?_, ?_⟩
    · rw [meaning?, if_neg hlogical, if_pos hop, hl', hr']
      rfl
    · rw [rank_binary_of_isComparison hop]
      exact hspells.spellsCondition
  | case3 => exact fun _ _ _ _ h => (throw_eq_ok.mp h).elim
  | case4 inner ih =>
    intro a b text ha h
    obtain ⟨inside, a₁, hinner, h⟩ := bind_eq_ok.mp h
    obtain ⟨rfl, rfl⟩ := pure_eq_ok.mp h
    obtain ⟨hb, hextends, c, hc, hspells⟩ := ih he ha hinner
    refine ⟨hb, hextends, .not c, ?_, hspells.afterNot he⟩
    rw [meaning?, hc]
    rfl
  | case5 function args hpredicate =>
    intro a b text ha h
    have hargs : ∀ arg ∈ args, arg.raws = [] := fun arg harg =>
      List.eq_nil_of_subset_nil (he ▸ raws_subset_rawsOfAll harg)
    obtain ⟨hb, hextends, c, hc, hspells⟩ := callText_yields scope hpredicate hargs ha h
    refine ⟨hb, hextends, c, ?_, hspells.spellsCondition⟩
    rw [meaning?, if_pos hpredicate, hc]
  | case6 => exact fun _ _ _ _ h => (throw_eq_ok.mp h).elim
  | case7 parent name =>
    intro a b text ha h
    obtain ⟨hb, hextends, c, hc, hspells⟩ := truthText_yields scope (.member parent name) ha h
    exact ⟨hb, hextends, c, hc, hspells.spellsCondition⟩
  | case8 parent position =>
    intro a b text ha h
    obtain ⟨hb, hextends, c, hc, hspells⟩ := truthText_yields scope (.index parent position) ha h
    exact ⟨hb, hextends, c, hc, hspells.spellsCondition⟩
  | case9 => cases he
  | case10 => exact fun _ _ _ _ h => (throw_eq_ok.mp h).elim

/-- A text that spells a condition is read as one that is alike. -/
theorem SpellsCondition.read? {a b : Aliases} {rank : Rank} {text : String} {c : Condition}
    (h : SpellsCondition a rank text c) (hab : a.Extends b) :
    ∃ found, read? b.names b.values text = some found ∧ Condition.Alike found c := by
  obtain ⟨tokens, hspells, hspelled⟩ := h.disjunction
  obtain ⟨found, halike, hread⟩ := hspelled.ofTokens?
  refine ⟨found, ?_, halike⟩
  rw [Condition.read?, hspells b hab, Option.bind_some, hread]

end Expr

/-- **Conditions mean what expressions say.** If a condition without raw text compiles in a session,
the folded expression has a meaning, and the store reads the text as that meaning, up to the grouping
of chains and the order inside sets: with the placeholders right after compiling, and with those of
any later state of the session. -/
theorem Session.read?_condition {scope : Scope} {e : Expr} {s t : Session} {text : String}
    (hs : s.Reachable) (he : e.raws = []) (h : condition scope e s = .ok text t) :
    ∃ folded counter meaning,
      e.fold s.counter = .ok folded counter ∧ folded.meaning? scope = some meaning ∧
        ∀ later : Aliases, t.aliases.Extends later →
          ∃ found, Condition.read? later.names later.values text = some found ∧
            found.Alike meaning := by
  obtain ⟨folded, s₁, hfolded, h⟩ := bind_eq_ok.mp h
  obtain ⟨counter, hfold, rfl⟩ := folded_eq_ok.mp hfolded
  obtain ⟨aliases, hrun, rfl⟩ := onAliases_eq_ok.mp h
  have hraws : folded.raws = [] := List.eq_nil_of_subset_nil (he ▸ Expr.raws_fold hfold)
  have hpredicate : folded.predicate scope s.aliases = .ok text aliases := by
    unfold Expr.conditionText at hrun
    split at hrun
    · exact (throw_eq_ok.mp hrun).elim
    · exact hrun
  obtain ⟨-, -, meaning, hmeaning, hspells⟩ :=
    Expr.predicate_yields scope hraws hs.tidy hpredicate
  exact ⟨folded, counter, meaning, hfold, hmeaning, fun later hlater => hspells.read? hlater⟩

/-- A condition with an OR and a BETWEEN under a NOT, a list of candidates and a reserved word. -/
def mixedCondition : Expr :=
  .binary .and
    (.unary .not (.binary .or (.member .item "a")
      (.call .between [.member .item "size", .constant (.int 1), .constant (.int 3)])))
    (.call .isIn [.member .item "b", .constant (.list [.text "x", .text "y"])])

theorem Session.read?_condition_mixed :
    (start 0).Reachable ∧ mixedCondition.raws = [] ∧
      ∃ t, condition (.untyped default) mixedCondition (start 0) =
          .ok "NOT (a = :v0 OR #p0 BETWEEN :v1 AND :v2) AND b IN (:v3, :v4)" t ∧
        ∃ folded counter meaning, mixedCondition.fold 0 = .ok folded counter ∧
          folded.meaning? (.untyped default) = some meaning ∧
          ∀ later : Aliases, t.aliases.Extends later →
            ∃ found, Condition.read? later.names later.values
                "NOT (a = :v0 OR #p0 BETWEEN :v1 AND :v2) AND b IN (:v3, :v4)" = some found ∧
              found.Alike meaning := by
  have hresult : result? (condition (.untyped default) mixedCondition) (start 0) =
      some "NOT (a = :v0 OR #p0 BETWEEN :v1 AND :v2) AND b IN (:v3, :v4)" := by decide +kernel
  obtain ⟨t, h⟩ := result?_eq_some.mp hresult
  exact ⟨.start 0, rfl, t, h, read?_condition (.start 0) rfl h⟩

end ItemMapper
