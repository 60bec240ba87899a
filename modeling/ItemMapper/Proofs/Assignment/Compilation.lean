import ItemMapper.Proofs.Assignment.Grouping
import ItemMapper.Proofs.Assignment.Reading
import ItemMapper.Proofs.Clauses.Actions
import ItemMapper.Proofs.Condition.Compilation

/-!
# What SET actions assign

The text of a SET action, read by the store's grammar with its placeholders replaced, assigns the terms
of the value in their order. Parentheses are written for no calculation, so they are put together from
the left. The store calculates what the value says just where no right side of a difference is a
calculation, if no operand occurs twice.

## Main definitions

* `Expr.assigned?`: the value that an expression says.
* `Assignment.HasTokens`: a text with some tokens, now and with any more placeholders.

## Main statements

* `Expr.setValue_yields`: the text of a value spells it with its terms put together from the left.
* `Session.update_calculates`: **what the actions of an update assign**.
-/

namespace ItemMapper

open Condition

/-! ### Texts and their tokens -/

namespace Assignment

section
variable {names : Fields String} {values : Fields AttributeValue} {text rest : List Char}
  {tokens others : List Token}

theorem token?_of_condition {lexeme : List Char} {token : Token}
    (h : Lexer.token? names values lexeme = some token) :
    token? names values lexeme = some token := by
  unfold token?
  split
  · cases h
  · cases h
  · exact h

/-- Tokens of conditions are tokens of assignments. -/
theorem tokens?_of_condition (h : Lexer.tokens? names values text = some tokens) :
    tokens? names values text = some tokens := by
  rw [Lexer.tokens?] at h
  rw [tokens?]
  generalize Lexer.lexemes text = lexemes at h ⊢
  induction lexemes generalizing tokens with
  | nil => exact h
  | cons lexeme lexemes ih =>
    rw [List.mapM_cons] at h ⊢
    obtain ⟨token, htoken, h⟩ := Option.bind_eq_some_iff.mp h
    obtain ⟨more, hmore, h⟩ := Option.bind_eq_some_iff.mp h
    rw [token?_of_condition htoken, ih hmore]
    exact h

theorem tokens?_append {d : Char} (hd : Lexer.isBreak d = true)
    (htext : tokens? names values text = some tokens)
    (hrest : tokens? names values (d :: rest) = some others) :
    tokens? names values (text ++ d :: rest) = some (tokens ++ others) := by
  rw [tokens?] at htext hrest ⊢
  rw [Lexer.lexemes_append hd, List.mapM_append, htext, hrest]
  rfl

end

/-- A text has some tokens, by the tables and by all that come of them. -/
def HasTokens (a : Aliases) (text : List Char) (tokens : List Token) : Prop :=
  ∀ b : Aliases, a.Extends b → tokens? b.names b.values text = some tokens

namespace HasTokens

variable {a b : Aliases} {text rest : List Char} {tokens others : List Token}

theorem mono (h : HasTokens a text tokens) (hab : a.Extends b) : HasTokens b text tokens :=
  fun c hbc => h c (hab.trans hbc)

theorem ofCondition (h : Spells a text tokens) : HasTokens a text tokens :=
  fun b hab => tokens?_of_condition (h b hab)

/-- Two texts with a blank between them. -/
theorem blank (htext : HasTokens a text tokens) (hrest : HasTokens a rest others) :
    HasTokens a (text ++ ' ' :: rest) (tokens ++ others) := by
  intro b hab
  have hblank : tokens? b.names b.values (' ' :: rest) = some others := hrest b hab
  exact tokens?_append (by decide) (htext b hab) hblank

/-- Two texts with a mark between them. -/
theorem mark (htext : HasTokens a text tokens) (mark : Mark) (hrest : HasTokens a rest others) :
    HasTokens a (text ++ mark.char :: rest) (tokens ++ .mark mark :: others) := by
  intro b hab
  have hmark : tokens? b.names b.values (mark.char :: rest) = some (.mark mark :: others) := by
    have hrest := hrest b hab
    rw [tokens?] at hrest ⊢
    have hsort : Lexer.sortOf mark.char = .mark := by cases mark <;> rfl
    have htoken : token? b.names b.values [mark.char] = some (.mark mark) := by cases mark <;> rfl
    rw [Lexer.lexemes, hsort]
    simp only [List.mapM_cons, htoken, hrest]
    rfl
  exact tokens?_append (by cases mark <;> decide) (htext b hab) hmark

theorem sign (a : Aliases) (sign : Sign) :
    HasTokens a sign.op.symbol.toList [.operator sign.op] := by
  intro b _
  cases sign <;> rfl

/-- A call with two arguments. -/
theorem call {function : StoreFunction} (hname : function.isNamed = true) {x y : String}
    {xs ys : List Token} (hx : HasTokens a x.toList xs) (hy : HasTokens a y.toList ys) :
    HasTokens a (function.name ++ "(" ++ ", ".intercalate [x, y] ++ ")").toList
      (.word function.name :: .mark .opening :: (xs ++ .mark .comma :: (ys ++ [.mark .closing]))) := by
  have htext : (function.name ++ "(" ++ ", ".intercalate [x, y] ++ ")").toList =
      function.name.toList ++ Mark.opening.char ::
        (x.toList ++ Mark.comma.char :: ([] ++ ' ' :: (y.toList ++ Mark.closing.char :: []))) := by
    simp [Mark.char]
  have hnil : HasTokens a [] [] := .ofCondition (.nil a)
  rw [htext]
  exact (ofCondition (.functionName a function hname)).mark .opening
    (hx.mark .comma (hnil.blank (hy.mark .closing hnil)))

end HasTokens

end Assignment

namespace Expr

open Assignment SetValue

/-! ### Values -/

/-- What an attribute is set to, the constants shaped by a hint. -/
def assigned? (scope : Scope) (hint : Hint) : Expr → Option SetValue
  | .binary op left right => do
    let sign ← Sign.ofOp? op
    let l ← assigned? scope hint left
    let r ← assigned? scope hint right
    some (.calculation sign l r)
  | .call .ifNotExists [target, value] => do
    let steps ← target.steps? scope
    let fallback ← assigned? scope (.ofType (target.typeOf? scope)) value
    some (.ifNotExists steps fallback)
  | .call .listAppend [first, second] => do
    let l ← assigned? scope .plain first
    let r ← assigned? scope .plain second
    some (.listAppend l r)
  | other => (operand? scope hint other).map .operand

/-- A text that spells a value. -/
def SpellsValue (a : Aliases) (text : String) (value : SetValue) : Prop :=
  ∃ tokens, HasTokens a text.toList tokens ∧ Spelled .row tokens value

theorem SpellsValue.mono {a b : Aliases} {text : String} {value : SetValue}
    (h : SpellsValue a text value) (hab : a.Extends b) : SpellsValue b text value := by
  obtain ⟨tokens, htokens, hspelled⟩ := h
  exact ⟨tokens, htokens.mono hab, hspelled⟩

/-- **A row behind a sign is one row** with what stands in front of the sign. -/
theorem spelled_attach (sign : Sign) {l r : List Token} {left right : SetValue} {part : Part}
    (hl : Spelled .row l left) (hr : Spelled part r right) :
    Spelled .row (l ++ .operator sign.op :: r) (attach sign left right) := by
  induction hr with
  | operand h => exact .calculation sign hl (.operand h)
  | ifNotExists hpath h => exact .calculation sign hl (.ifNotExists hpath h)
  | listAppend h h' => exact .calculation sign hl (.listAppend h h')
  | ofTerm _ ih => exact ih
  | calculation next _ hterm ih _ =>
    rw [← List.cons_append, ← List.append_assoc]
    exact .calculation next ih hterm

/-- A calculation of two texts. -/
theorem spellsValue_calculation {a : Aliases} (sign : Sign) {l r : String} {left right : SetValue}
    (hl : SpellsValue a l left) (hr : SpellsValue a r right) :
    SpellsValue a s!"{l} {sign.op.symbol} {r}" (attach sign left right) := by
  obtain ⟨ls, hls, hleft⟩ := hl
  obtain ⟨rs, hrs, hright⟩ := hr
  refine ⟨_, ?_, spelled_attach sign hleft hright⟩
  rw [toList_joined]
  exact hls.blank ((HasTokens.sign a sign).blank hrs)

theorem spellsValue_of_operand {a : Aliases} {text : String} {operand : Operand}
    (h : SpellsOperand a text operand) : SpellsValue a text (.operand operand) := by
  obtain ⟨tokens, hspells, hoperand⟩ := h
  exact ⟨tokens, .ofCondition hspells, .ofTerm (.operand hoperand)⟩

theorem spellsValue_ifNotExists {a : Aliases} {path text : String} {steps : List Step}
    {fallback : SetValue} (hpath : SpellsPath a path steps) (h : SpellsValue a text fallback) :
    SpellsValue a (StoreFunction.ifNotExists.name ++ "(" ++ ", ".intercalate [path, text] ++ ")")
      (.ifNotExists steps fallback) := by
  obtain ⟨ps, hps, hsteps⟩ := hpath
  obtain ⟨tokens, htokens, hspelled⟩ := h
  exact ⟨_, .call rfl (.ofCondition hps) htokens, .ofTerm (.ifNotExists hsteps hspelled)⟩

theorem spellsValue_listAppend {a : Aliases} {x y : String} {first second : SetValue}
    (hx : SpellsValue a x first) (hy : SpellsValue a y second) :
    SpellsValue a (StoreFunction.listAppend.name ++ "(" ++ ", ".intercalate [x, y] ++ ")")
      (.listAppend first second) := by
  obtain ⟨xs, hxs, hfirst⟩ := hx
  obtain ⟨ys, hys, hsecond⟩ := hy
  exact ⟨_, .call rfl hxs hys, .ofTerm (.listAppend hfirst hsecond)⟩

/-- The path in front of an `if_not_exists` is written like any other. -/
theorem guardedPath_yields (scope : Scope) (target : Expr) :
    Yields (guardedPath scope target) (WritesPath scope target) := by
  unfold guardedPath
  by_cases hpath : target.isPath = true
  · rw [if_pos hpath]
    exact path_yields scope target
  · rw [if_neg hpath]
    exact .throw _

theorem filled_named_eq_ok {function : StoreFunction} (hnamed : function.isNamed = true)
    {texts : List String} (hlength : texts.length = function.arity) {text : String} {a b : Aliases}
    (h : filled function texts a = .ok text b) :
    text = function.name ++ "(" ++ ", ".intercalate texts ++ ")" ∧ a = b := by
  obtain ⟨hrender, rfl⟩ := AliasM.ofExcept_eq_ok.mp h
  rw [render_named hnamed hlength] at hrender
  exact ⟨(Except.ok.inj hrender).symm, rfl⟩

/-- What a text says about the value that an expression is. -/
def SaysValue (scope : Scope) (hint : Hint) (e : Expr) (a : Aliases) (text : String) : Prop :=
  ∃ value, e.assigned? scope hint = some value ∧ SpellsValue a text value.regrouped

theorem SaysValue.mono {scope : Scope} {hint : Hint} {e : Expr} {a b : Aliases} {text : String}
    (h : SaysValue scope hint e a text) (hab : a.Extends b) : SaysValue scope hint e b text := by
  obtain ⟨value, hvalue, hspells⟩ := h
  exact ⟨value, hvalue, hspells.mono hab⟩

/-- A value that is an operand. -/
theorem saysValue_of_operand (scope : Scope) (hint : Hint) {e : Expr} (he : e.raws = [])
    (hassigned : e.assigned? scope hint = (operand? scope hint e).map .operand) :
    Yields (operand scope hint e) (SaysValue scope hint e) := by
  refine (operand_yields scope hint he).imp fun a text h => ?_
  obtain ⟨operand, hoperand, hspells⟩ := h
  exact ⟨.operand operand, by rw [hassigned, hoperand]; rfl, spellsValue_of_operand hspells⟩

theorem assigned?_of_not_setOperand (scope : Scope) (hint : Hint) {function : StoreFunction}
    {args : List Expr} (h : function.isSetOperand = false) :
    assigned? scope hint (.call function args) =
      (operand? scope hint (.call function args)).map .operand := by
  cases function with
  | ifNotExists => cases h
  | listAppend => cases h
  | _ => rw [assigned?] <;> nofun

theorem forall₂_single {α β : Type} {R : α → β → Prop} {x : α} {ys : List β}
    (h : List.Forall₂ R [x] ys) : ∃ y, R x y ∧ ys = [y] := by
  cases h with
  | cons hy hnil =>
    cases hnil
    exact ⟨_, hy, rfl⟩

theorem forall₂_pair {α β : Type} {R : α → β → Prop} {x x' : α} {ys : List β}
    (h : List.Forall₂ R [x, x'] ys) : ∃ y y', R x y ∧ R x' y' ∧ ys = [y, y'] := by
  cases h with
  | cons hy htail =>
    obtain ⟨y', hy', rfl⟩ := forall₂_single htail
    exact ⟨_, y', hy, hy', rfl⟩

mutual
/-- **The text of a value spells it, its terms put together from the left.** -/
theorem setValue_yields (scope : Scope) (hint : Hint) :
    ∀ {e : Expr}, e.raws = [] → Yields (setValue scope hint e) (SaysValue scope hint e)
  | .binary op left right, he => by
    obtain ⟨hleft, hright⟩ := List.append_eq_nil_iff.mp he
    rw [setValue]
    intro a b text ha h
    by_cases hop : op = .add ∨ op = .sub
    · obtain ⟨sign, rfl⟩ : ∃ sign : Sign, op = sign.op := by
        rcases hop with rfl | rfl
        · exact ⟨.plus, rfl⟩
        · exact ⟨.minus, rfl⟩
      rw [if_pos hop] at h
      obtain ⟨l, a₁, hl, h⟩ := bind_eq_ok.mp h
      obtain ⟨r, a₂, hr, h⟩ := bind_eq_ok.mp h
      obtain ⟨rfl, rfl⟩ := pure_eq_ok.mp h
      obtain ⟨ha₁, hextends, lv, hlv, hlspells⟩ := setValue_yields scope hint hleft ha hl
      obtain ⟨ha₂, hextends', rv, hrv, hrspells⟩ := setValue_yields scope hint hright ha₁ hr
      refine ⟨ha₂, hextends.trans hextends', .calculation sign lv rv, ?_,
        spellsValue_calculation sign (hlspells.mono hextends') hrspells⟩
      have hsign : Sign.ofOp? sign.op = some sign := by cases sign <;> rfl
      rw [assigned?, hsign, hlv, hrv]
      rfl
    · rw [if_neg hop] at h
      exact (throw_eq_ok.mp h).elim
  | .call function args, he => by
    by_cases hif : function = .ifNotExists
    · subst hif
      rw [setValue]
      refine .bind (.ofExcept fun _ => checkArity_eq_ok) fun _ htakes => ?_
      exact ifNotExistsText_yields scope hint (raws_of_mem_args he) htakes
    · by_cases happend : function = .listAppend
      · subst happend
        rw [setValue]
        refine .bind (.ofExcept fun _ => checkArity_eq_ok) fun _ htakes => ?_
        obtain ⟨first, second, rfl⟩ := List.length_eq_two.mp (beq_iff_eq.mp htakes)
        intro a b text ha h
        obtain ⟨texts, a₁, htexts, h⟩ := bind_eq_ok.mp h
        obtain ⟨ha₁, hextends, htold⟩ :=
          setValues_yields scope .plain (raws_of_mem_args he) ha htexts
        obtain ⟨x, y, ⟨l, hl, hx⟩, ⟨r, hr, hy⟩, rfl⟩ := forall₂_pair htold
        obtain ⟨rfl, rfl⟩ := filled_named_eq_ok rfl rfl h
        refine ⟨ha₁, hextends, .listAppend l r, ?_, spellsValue_listAppend hx hy⟩
        rw [assigned?, hl, hr]
        rfl
      · rw [setValue_of_not_setOperand scope hint (by cases function <;> trivial)]
        exact saysValue_of_operand scope hint he
          (assigned?_of_not_setOperand scope hint (by cases function <;> trivial))
  | .item, he | .member _ _, he | .index _ _, he | .constant _, he | .unary _ _, he
  | .conditional _ _ _, he | .raw _, he | .deferred _, he | .enumConvert _ _, he =>
    saysValue_of_operand scope hint he rfl

theorem ifNotExistsText_yields (scope : Scope) (hint : Hint) :
    ∀ {args : List Expr}, (∀ arg ∈ args, arg.raws = []) →
      StoreFunction.ifNotExists.takes args.length = true →
      Yields (ifNotExistsText scope args) (SaysValue scope hint (.call .ifNotExists args))
  | [], _, htakes => absurd htakes (by decide)
  | target :: rest, h, htakes => by
    obtain ⟨value, rfl⟩ := List.length_eq_one_iff.mp (Nat.succ.inj (beq_iff_eq.mp htakes))
    rw [ifNotExistsText]
    intro a b text ha hrun
    obtain ⟨path, a₁, hpath, hrun⟩ := bind_eq_ok.mp hrun
    obtain ⟨texts, a₂, htexts, hrun⟩ := bind_eq_ok.mp hrun
    obtain ⟨ha₁, hextends, htype, -, steps, hsteps, hspells⟩ := guardedPath_yields scope target ha hpath
    obtain ⟨ha₂, hextends', htold⟩ :=
      setValues_yields scope _ (List.forall_mem_cons.mp h).2 ha₁ htexts
    obtain ⟨x, ⟨fallback, hfallback, hx⟩, rfl⟩ := forall₂_single htold
    obtain ⟨rfl, rfl⟩ := filled_named_eq_ok rfl rfl hrun
    refine ⟨ha₂, hextends.trans hextends', .ifNotExists steps fallback, ?_,
      spellsValue_ifNotExists (hspells.mono hextends') hx⟩
    rw [htype] at hfallback
    rw [assigned?, hsteps, Option.bind_eq_bind, Option.bind_some, hfallback]
    rfl

theorem setValues_yields (scope : Scope) (hint : Hint) :
    ∀ {args : List Expr}, (∀ arg ∈ args, arg.raws = []) →
      Yields (setValues scope hint args) fun a texts =>
        List.Forall₂ (fun arg text => SaysValue scope hint arg a text) args texts
  | [], _ => .pure fun _ => .nil
  | value :: rest, h => by
    obtain ⟨hvalue, hrest⟩ := List.forall_mem_cons.mp h
    rw [setValues]
    intro a b texts ha hrun
    obtain ⟨text, a₁, htext, hrun⟩ := bind_eq_ok.mp hrun
    obtain ⟨others, a₂, hothers, hrun⟩ := bind_eq_ok.mp hrun
    obtain ⟨rfl, rfl⟩ := pure_eq_ok.mp hrun
    obtain ⟨ha₁, hextends, htold⟩ := setValue_yields scope hint hvalue ha htext
    obtain ⟨ha₂, hextends', hall⟩ := setValues_yields scope hint hrest ha₁ hothers
    exact ⟨ha₂, hextends.trans hextends', .cons (htold.mono hextends') hall⟩
end

/-! ### Actions -/

/-- A text that spells an assignment. -/
def SpellsAssignment (a : Aliases) (text : List Char) (target : List Step) (value : SetValue) :
    Prop :=
  ∃ path tokens, HasTokens a text (path ++ .operator .eq :: tokens) ∧ SpelledPath path target ∧
    Spelled .row tokens value

/-- What is read of a text that spells an assignment. -/
theorem SpellsAssignment.read? {a b : Aliases} {text : List Char} {target : List Step}
    {value : SetValue} (h : SpellsAssignment a text target value) (hab : a.Extends b) :
    ∃ found, Assignment.read? b.names b.values text = some ⟨target, found⟩ ∧ found.Alike value := by
  obtain ⟨path, tokens, htokens, hpath, hspelled⟩ := h
  obtain ⟨found, halike, hread⟩ := hspelled.ofTokens? hpath
  exact ⟨found, by rw [Assignment.read?, htokens b hab, Option.bind_some, hread], halike⟩

/-- What a text says about what an action of SET assigns. -/
def SaysAssignment (scope : Scope) (a : Aliases) (target value : Expr) (text : List Char) : Prop :=
  ∃ steps meant, target.steps? scope = some steps ∧
    value.assigned? scope (.ofType (target.typeOf? scope)) = some meant ∧
      SpellsAssignment a text steps meant.regrouped

/-- **The text of a SET action** spells the path and the value. -/
theorem actionText_set_yields (scope : Scope) (target : Expr) {value : Expr} (he : value.raws = []) :
    Yields (actionText scope .set [target, value]) fun a text =>
      SaysAssignment scope a target value text.toList := by
  intro a b text ha h
  obtain ⟨_, -, h⟩ := AliasM.ofExcept_bind_eq_ok.mp h
  by_cases hpath : target.isPath = true
  · simp only [hpath, if_true] at h
    obtain ⟨path, a₁, hrun, h⟩ := bind_eq_ok.mp h
    obtain ⟨texts, a₂, htexts, h⟩ := bind_eq_ok.mp h
    obtain ⟨x, a₃, others, hx, hothers, rfl⟩ := mapM_cons_eq_ok.mp htexts
    obtain ⟨rfl, rfl⟩ := mapM_nil_eq_ok.mp hothers
    obtain ⟨hrender, rfl⟩ := AliasM.ofExcept_eq_ok.mp h
    rw [render_set] at hrender
    cases hrender
    obtain ⟨ha₁, hextends, htype, -, steps, hsteps, ps, hps, hspelled⟩ :=
      path_yields scope target ha hrun
    obtain ⟨ha₂, hextends', meant, hmeant, tokens, htokens, hvalue⟩ :=
      setValue_yields scope _ he ha₁ hx
    refine ⟨ha₂, hextends.trans hextends', steps, meant, hsteps, htype ▸ hmeant, ps, tokens, ?_,
      hspelled, hvalue⟩
    have htext : (path.text ++ " = " ++ x).toList =
        path.text.toList ++ ' ' :: (BinaryOp.eq.symbol.toList ++ ' ' :: x.toList) := by
      simp only [String.toList_append, List.append_assoc]
      rfl
    rw [htext]
    exact (HasTokens.ofCondition (hps.mono hextends')).blank
      ((HasTokens.ofCondition (.operator _ rfl)).blank htokens)
  · simp only [hpath] at h
    exact (throw_eq_ok.mp h).elim

theorem SaysAssignment.mono {scope : Scope} {a b : Aliases} {target value : Expr} {text : List Char}
    (h : SaysAssignment scope a target value text) (hab : a.Extends b) :
    SaysAssignment scope b target value text := by
  obtain ⟨steps, meant, hsteps, hmeant, path, tokens, htokens, hpath, hspelled⟩ := h
  exact ⟨steps, meant, hsteps, hmeant, path, tokens, htokens.mono hab, hpath, hspelled⟩

/-- What the text of an action says, if it is a SET. -/
def SaysAction (scope : Scope) (a : Aliases) (action : Expr) (written : Clauses.Action) : Prop :=
  ∀ target value, action = .call .set [target, value] →
    SaysAssignment scope a target value written.2

theorem action_says (scope : Scope) {e : Expr} (he : e.raws = []) :
    Yields (e.action scope) fun a written => SaysAction scope a e written := by
  intro a b written ha h
  obtain ⟨hb, hextends, -⟩ := action_neat scope he ha h
  refine ⟨hb, hextends, ?_⟩
  rintro target value rfl
  obtain ⟨text, a₁, htext, h⟩ := bind_eq_ok.mp h
  obtain ⟨rfl, rfl⟩ := pure_eq_ok.mp h
  have hvalue : value.raws = [] :=
    raws_of_mem_args he value (List.mem_cons_of_mem _ List.mem_cons_self)
  exact (actionText_set_yields scope target hvalue ha htext).2.2

end Expr

namespace Session

/-- **What the actions of an update calculate.** If an update without raw text compiles in a session,
then of each action of SET the store reads, with the placeholders right after compiling and with those
of any later state of the session, the path of the member and the value with its terms put together
from the left, up to the order inside sets. Whatever numbers paths and placeholders stand for, this is
the number that the value says if no right side of a difference is a calculation. If one is and no
operand occurs twice, it is another number for some of them. -/
theorem update_calculates {scope : Scope} {e : Expr} {s t : Session} {text : String}
    (hs : s.Reachable) (he : e.raws = []) (h : update scope e s = .ok text t) :
    ∃ folded counter actions,
      e.fold s.counter = .ok folded counter ∧ text.toList = Clauses.written actions ∧
        List.Forall₂ (fun action (written : Clauses.Action) =>
          ∀ target value, action = .call .set [target, value] →
            ∃ steps meant, target.steps? scope = some steps ∧
              value.assigned? scope (.ofType (target.typeOf? scope)) = some meant ∧
              ∀ later : Aliases, t.aliases.Extends later →
                ∃ found, Assignment.read? later.names later.values written.2 = some ⟨steps, found⟩ ∧
                  found.Alike meant.regrouped ∧
                  (meant.isGrouped = true → ∀ ρ, found.eval ρ = meant.eval ρ) ∧
                  (meant.IsLinear → meant.isGrouped = false → ∃ ρ, found.eval ρ ≠ meant.eval ρ))
          folded.conjuncts actions := by
  obtain ⟨folded, s₁, hfolded, h⟩ := bind_eq_ok.mp h
  obtain ⟨counter, hfold, rfl⟩ := folded_eq_ok.mp hfolded
  obtain ⟨aliases, hrun, rfl⟩ := onAliases_eq_ok.mp h
  have hraws : folded.raws = [] := Expr.raws_eq_nil_of_subset he (Expr.raws_fold hfold)
  obtain ⟨actions, hactions, -, rfl⟩ := (Expr.updateText_eq_ok hraws).mp hrun
  obtain ⟨-, -, hall⟩ := mapM_yields
    (Q := Expr.SaysAction scope)
    (fun htold hab target value haction => (htold target value haction).mono hab)
    (fun c hc => Expr.action_says scope
      (Expr.raws_eq_nil_of_subset hraws (Expr.raws_subset_of_mem_conjuncts hc))) hs.tidy hactions
  refine ⟨folded, counter, actions, hfold, String.toList_ofList, hall.imp ?_⟩
  intro action written htold target value haction
  obtain ⟨steps, meant, hsteps, hmeant, hspells⟩ := htold target value haction
  refine ⟨steps, meant, hsteps, hmeant, fun later hlater => ?_⟩
  obtain ⟨found, hread, halike⟩ := hspells.read? hlater
  refine ⟨found, hread, halike, fun hgrouped ρ => ?_, fun hlinear hungrouped => ?_⟩
  · rw [halike.eval_eq, SetValue.eval_regrouped hgrouped]
  · obtain ⟨x, -, hne⟩ := SetValue.exists_eval_regrouped_ne hlinear hungrouped
    exact ⟨.only x, by rwa [halike.eval_eq]⟩

/-- An update with a difference on the right side of a difference, and with one on the right side of a
sum. -/
def twoDifferences : Expr :=
  .binary .and
    (.call .set [.member .item "n", .binary .sub (.member .item "a")
      (.binary .sub (.member .item "b") (.member .item "c"))])
    (.call .set [.member .item "m", .binary .add
      (.call .ifNotExists [.member .item "d", .constant (.int 1)])
      (.binary .sub (.member .item "e") (.member .item "f"))])

/-- The actions of `twoDifferences`. -/
def writtenDifferences : List Clauses.Action :=
  [(.set, "n = a - b - c".toList), (.set, "m = if_not_exists(d, :v0) + e - f".toList)]

theorem written_writtenDifferences : Clauses.written writtenDifferences =
    "SET n = a - b - c, m = if_not_exists(d, :v0) + e - f".toList := by
  have hfirst : Clauses.push [] .set "n = a - b - c".toList = "SET n = a - b - c".toList := by decide
  have hwords : Clauses.words 0 [] "SET n = a - b - c".toList =
      [(0, "SET".toList), (4, "n".toList), (6, "=".toList), (8, "a".toList), (10, "-".toList),
        (12, "b".toList), (14, "-".toList), (16, "c".toList)] := by decide
  change Clauses.push (Clauses.push [] _ _) _ _ = _
  rw [hfirst, Clauses.push, Clauses.verbs, hwords]
  simp only [Clauses.verbsAmong_cons]
  decide

theorem update_twoDifferences :
    ∃ t, update (.untyped default) twoDifferences (start 0) =
      .ok "SET n = a - b - c, m = if_not_exists(d, :v0) + e - f" t := by
  have hresult : result? (twoDifferences.conjuncts.mapM (Expr.action (.untyped default))) .empty =
      some writtenDifferences := by decide +kernel
  obtain ⟨aliases, hactions⟩ := result?_eq_some.mp hresult
  have htext : Expr.updateText (.untyped default) twoDifferences .empty =
      .ok "SET n = a - b - c, m = if_not_exists(d, :v0) + e - f" aliases := by
    refine (Expr.updateText_eq_ok rfl).mpr ⟨writtenDifferences, hactions, by decide, ?_⟩
    rw [written_writtenDifferences, String.ofList_toList]
  refine ⟨⟨aliases, 0⟩, bind_eq_ok.mpr ⟨twoDifferences, start 0, rfl, ?_⟩⟩
  exact onAliases_eq_ok.mpr ⟨aliases, htext, rfl⟩

theorem update_calculates_twoDifferences :
    (start 0).Reachable ∧ twoDifferences.raws = [] ∧
      ∃ t, update (.untyped default) twoDifferences (start 0) =
          .ok "SET n = a - b - c, m = if_not_exists(d, :v0) + e - f" t ∧
        ∃ folded counter actions,
          twoDifferences.fold 0 = .ok folded counter ∧
            "SET n = a - b - c, m = if_not_exists(d, :v0) + e - f".toList =
              Clauses.written actions ∧
            List.Forall₂ (fun action (written : Clauses.Action) =>
              ∀ target value, action = .call .set [target, value] →
                ∃ steps meant, target.steps? (.untyped default) = some steps ∧
                  value.assigned? (.untyped default)
                    (.ofType (target.typeOf? (.untyped default))) = some meant ∧
                  ∀ later : Aliases, t.aliases.Extends later →
                    ∃ found,
                      Assignment.read? later.names later.values written.2 = some ⟨steps, found⟩ ∧
                      found.Alike meant.regrouped ∧
                      (meant.isGrouped = true → ∀ ρ, found.eval ρ = meant.eval ρ) ∧
                      (meant.IsLinear → meant.isGrouped = false →
                        ∃ ρ, found.eval ρ ≠ meant.eval ρ))
              folded.conjuncts actions := by
  obtain ⟨t, h⟩ := update_twoDifferences
  exact ⟨.start 0, rfl, t, h, update_calculates (.start 0) rfl h⟩

end Session

end ItemMapper
