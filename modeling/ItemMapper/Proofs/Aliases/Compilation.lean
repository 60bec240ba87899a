import ItemMapper.Expression.Compilation
import ItemMapper.Proofs.Aliases.Steps
import ItemMapper.Proofs.Expression.Raw

/-!
# What compiling does to the placeholder tables

Compiling an expression adds placeholders and does nothing else to the tables, whether it succeeds or
fails half-way. Hence the tables of every session are tidy, as long as the raw text that was compiled
in it brought well-formed placeholders, and whatever is compiled later leaves the placeholders of
earlier expressions alone.

## Main definitions

* `Request`: something to compile in a session.
* `Session.Reachable`: the sessions that requests lead to.

## Main statements

* `Expr.predicate_made`, `Expr.updateText_made`: compiling expressions.
* `Request.grows`: compiling anything in a session.
* `Session.Reachable.tidy`: the tables of a session.
-/

namespace ItemMapper

variable {own : Char → String → Prop}

namespace Expr

open AliasM (Made)

/-- Whether all raw parts of an expression bring allowed placeholders only. -/
def Brings (own : Char → String → Prop) (e : Expr) : Prop := ∀ raw ∈ e.raws, raw.Brings own

/-- Whether all raw parts of several expressions bring allowed placeholders only. -/
def AllBring (own : Char → String → Prop) (args : List Expr) : Prop := ∀ arg ∈ args, arg.Brings own

theorem brings_of_raws_eq_nil {e : Expr} (h : e.raws = []) : e.Brings own := by
  intro raw hraw
  rw [h] at hraw
  cases hraw

theorem brings_binary {op : BinaryOp} {left right : Expr} :
    (Expr.binary op left right).Brings own ↔ left.Brings own ∧ right.Brings own := by
  rw [Brings, raws, List.forall_mem_append]
  rfl

theorem brings_call {function : StoreFunction} {args : List Expr} :
    (Expr.call function args).Brings own ↔ AllBring own args := by
  rw [Brings, raws]
  constructor
  · intro h arg harg raw hraw
    exact h raw (raws_subset_rawsOfAll harg hraw)
  · intro h
    induction args with
    | nil => exact fun raw hraw => absurd hraw List.not_mem_nil
    | cons arg rest ih =>
      rw [rawsOfAll, List.forall_mem_append]
      exact ⟨h arg List.mem_cons_self, ih fun arg harg => h arg (List.mem_cons_of_mem _ harg)⟩

theorem brings_constant (value : Value) : (Expr.constant value).Brings own :=
  brings_of_raws_eq_nil rfl

theorem allBring_cons {arg : Expr} {args : List Expr} :
    AllBring own (arg :: args) ↔ arg.Brings own ∧ AllBring own args := List.forall_mem_cons

theorem Brings.fold {e e' : Expr} {n n' : Nat} (he : e.Brings own) (h : e.fold n = .ok e' n') :
    e'.Brings own := forall_raws_fold h he

/-! ### Paths -/

theorem escape_made (name : String) : Made own (escape name) :=
  .ite (.nameAlias name) (.pure name)

theorem memberPath_made (scope : Scope) (parent : Option String) (schema : Option Schema)
    (name : String) : Made own (memberPath scope parent schema name) := by
  refine .bind (.ofExcept _) fun found => .bind (escape_made found.1) fun segment => ?_
  exact .pure _

theorem entryPath_made (parent : Path) (key : String) : Made own (entryPath parent key) :=
  .bind (escape_made key) fun _ => .pure _

theorem path_made (scope : Scope) (e : Expr) : Made own (e.path scope) := by
  fun_induction path scope e with
  | case1 name => exact memberPath_made scope none scope.root name
  | case2 parent name _ ih => exact .bind ih fun path => memberPath_made scope _ _ name
  | case3 position => exact .throw _
  | case4 parent key _ ih => exact .bind ih fun path => entryPath_made path key
  | case5 parent _ _ i h ih => exact .bind ih fun path => .pure _
  | case6 => exact .throw _
  | case7 => exact .throw _
  | case8 => exact .throw _

/-! ### Conditions -/

theorem constantText_made (scope : Scope) (value : Value) (hint : Hint) :
    Made own (constantText scope value hint) :=
  .bind (.ofExcept _) fun stored => .valueAlias stored

theorem rawText_made (scope : Scope) {raw : RawExpression} (h : (Expr.raw raw).Brings own) :
    Made own (rawText scope raw) :=
  .bind (.mergeRaw scope.options (h raw List.mem_cons_self)) fun _ => .pure _

theorem subject_made (scope : Scope) (function : StoreFunction) (arg : Expr) :
    Made own (subject scope function arg) :=
  .ite (.bind (path_made scope arg) fun _ => .pure _) (.throw _)

theorem filled_made (function : StoreFunction) (args : List String) :
    Made own (filled function args) := .ofExcept _

theorem sizeText_made (scope : Scope) (args : List Expr) : Made own (sizeText scope args) := by
  refine .bind (.ofExcept _) fun _ => .bind (.mapM fun arg _ => ?_) fun texts => filled_made _ texts
  exact subject_made scope .size arg

theorem operand_made (scope : Scope) (hint : Hint) {e : Expr} (h : e.Brings own) :
    Made own (operand scope hint e) := by
  fun_induction operand scope hint e with
  | case1 => exact .bind (path_made scope _) fun _ => .pure _
  | case2 => exact .bind (path_made scope _) fun _ => .pure _
  | case3 hint value => exact constantText_made scope value hint
  | case4 hint inner type ih => exact ih h
  | case5 hint args => exact sizeText_made scope args
  | case6 => exact rawText_made scope h
  | case7 => exact .throw _

theorem AllBring.spread (function : StoreFunction) {args : List Expr} (h : AllBring own args) :
    AllBring own (spread function args) := by
  unfold Expr.spread
  split
  · refine allBring_cons.mpr ⟨(allBring_cons.mp h).1, fun arg harg => ?_⟩
    obtain ⟨item, -, rfl⟩ := List.mem_map.mp harg
    exact brings_constant item
  · refine allBring_cons.mpr ⟨(allBring_cons.mp h).1, fun arg harg => ?_⟩
    obtain ⟨item, -, rfl⟩ := List.mem_map.mp harg
    exact brings_constant item
  · exact h

theorem firstText_made (scope : Scope) (function : StoreFunction) {first : Expr}
    (others : List Expr) (h : first.Brings own) :
    Made own (firstText scope function first others) :=
  .ite (subject_made scope function first) (operand_made scope _ h)

theorem callText_made (scope : Scope) (function : StoreFunction) {args : List Expr}
    (h : AllBring own args) : Made own (callText scope function args) := by
  refine .bind (.ofExcept _) fun _ => ?_
  have hspread := AllBring.spread function h
  split
  · exact filled_made function []
  · rename_i first others heq
    rw [heq, allBring_cons] at hspread
    refine .bind (firstText_made scope function others hspread.1) fun firstArg => ?_
    refine .bind (.mapM fun arg harg => ?_) fun otherArgs => filled_made function _
    exact operand_made scope _ (hspread.2 arg harg)

theorem truthText_made (scope : Scope) (member : Expr) : Made own (truthText scope member) := by
  refine .bind (path_made scope member) fun path => ?_
  exact .ite (.bind (.valueAlias _) fun _ => .pure _) (.throw _)

theorem comparisonText_made (scope : Scope) (op : BinaryOp) {left right : Expr}
    (hl : left.Brings own) (hr : right.Brings own) :
    Made own (comparisonText scope op left right) := by
  refine .bind (operand_made scope _ hl) fun l => .bind (operand_made scope _ hr) fun r => ?_
  exact .pure _

/-- **A condition only adds placeholders.** -/
theorem predicate_made (scope : Scope) {e : Expr} (h : e.Brings own) :
    Made own (predicate scope e) := by
  fun_induction predicate scope e with
  | case1 op left right _ ihl ihr =>
    obtain ⟨hl, hr⟩ := brings_binary.mp h
    exact .bind (ihl hl) fun l => .bind (ihr hr) fun r => .pure _
  | case2 op left right =>
    obtain ⟨hl, hr⟩ := brings_binary.mp h
    exact comparisonText_made scope op hl hr
  | case3 => exact .throw _
  | case4 inner ih => exact .bind (ih h) fun text => .pure _
  | case5 function args => exact callText_made scope function (brings_call.mp h)
  | case6 => exact .throw _
  | case7 => exact truthText_made scope _
  | case8 => exact truthText_made scope _
  | case9 => exact rawText_made scope h
  | case10 => exact .throw _

theorem conditionText_made (scope : Scope) {e : Expr} (h : e.Brings own) :
    Made own (conditionText scope e) := by
  unfold conditionText
  split
  · exact .throw _
  · exact predicate_made scope h

/-! ### Updates and key conditions -/

theorem guardedPath_made (scope : Scope) (target : Expr) : Made own (guardedPath scope target) :=
  .ite (path_made scope target) (.throw _)

theorem setValue_of_not_setOperand (scope : Scope) (hint : Hint) {function : StoreFunction}
    {args : List Expr} (h : function.isSetOperand = false) :
    setValue scope hint (.call function args) = operand scope hint (.call function args) := by
  cases function with
  | ifNotExists => cases h
  | listAppend => cases h
  | _ => rw [setValue] <;> nofun

mutual
theorem setValue_made (scope : Scope) (hint : Hint) :
    ∀ {e : Expr}, e.Brings own → Made own (setValue scope hint e)
  | .binary op left right, h => by
    obtain ⟨hl, hr⟩ := brings_binary.mp h
    rw [setValue]
    refine .ite (.bind (setValue_made scope hint hl) fun l => ?_) (operand_made scope hint h)
    exact .bind (setValue_made scope hint hr) fun r => .pure _
  | .call function args, h => by
    by_cases hif : function = .ifNotExists
    · subst hif
      rw [setValue]
      exact .bind (.ofExcept _) fun _ => ifNotExistsText_made scope (brings_call.mp h)
    · by_cases happend : function = .listAppend
      · subst happend
        rw [setValue]
        refine .bind (.ofExcept _) fun _ => ?_
        exact .bind (setValues_made scope .plain (brings_call.mp h)) fun texts => filled_made _ texts
      · rw [setValue_of_not_setOperand scope hint (by cases function <;> trivial)]
        exact operand_made scope hint h
  | .item, h | .member _ _, h | .index _ _, h | .constant _, h | .unary _ _, h
  | .conditional _ _ _, h | .raw _, h | .deferred _, h | .enumConvert _ _, h =>
    operand_made scope hint h

theorem ifNotExistsText_made (scope : Scope) :
    ∀ {args : List Expr}, AllBring own args → Made own (ifNotExistsText scope args)
  | [], _ => filled_made _ _
  | target :: rest, h => by
    rw [ifNotExistsText]
    refine .bind (guardedPath_made scope target) fun path => ?_
    refine .bind (setValues_made scope _ (allBring_cons.mp h).2) fun values => filled_made _ _

theorem setValues_made (scope : Scope) (hint : Hint) :
    ∀ {args : List Expr}, AllBring own args → Made own (setValues scope hint args)
  | [], _ => .pure _
  | value :: rest, h => by
    rw [setValues]
    refine .bind (setValue_made scope hint (allBring_cons.mp h).1) fun text => ?_
    exact .bind (setValues_made scope hint (allBring_cons.mp h).2) fun texts => .pure _
end

theorem actionValues_made (scope : Scope) (function : StoreFunction) (hint : Hint)
    {args : List Expr} (h : AllBring own args) :
    Made own (actionValues scope function hint args) := by
  unfold actionValues
  split
  · exact .mapM fun arg harg => setValue_made scope hint (h arg harg)
  · exact .mapM fun arg harg => operand_made scope _ (h arg harg)
  · exact .mapM fun arg harg => operand_made scope _ (h arg harg)
  · exact .pure _

theorem actionText_made (scope : Scope) (function : StoreFunction) {args : List Expr}
    (h : AllBring own args) : Made own (actionText scope function args) := by
  refine .bind (.ofExcept _) fun _ => ?_
  cases args with
  | nil => exact filled_made function []
  | cons target rest =>
    refine .ite (.bind (path_made scope target) fun path => ?_) (.throw _)
    refine .bind (actionValues_made scope function _ (allBring_cons.mp h).2) fun values => ?_
    exact filled_made function _

theorem addAction_made (scope : Scope) (text : List Char) {action : Expr}
    (h : action.Brings own) : Made own (addAction scope text action) := by
  unfold addAction
  split
  · split
    · exact .bind (actionText_made scope _ (brings_call.mp h)) fun added => .pure _
    · exact .throw _
  · refine .bind (.mergeRaw scope.options (h _ List.mem_cons_self)) fun _ => ?_
    exact .bind (.ofExcept _) fun clauses => .pure _
  · exact .throw _

theorem addActions_made (scope : Scope) (text : List Char) {actions : List Expr}
    (h : AllBring own actions) : Made own (addActions scope text actions) := by
  induction actions generalizing text with
  | nil => exact .pure text
  | cons action rest ih =>
    obtain ⟨haction, hrest⟩ := allBring_cons.mp h
    exact .bind (addAction_made scope text haction) fun text => ih text hrest

theorem Brings.conjuncts {e : Expr} (h : e.Brings own) : AllBring own e.conjuncts :=
  fun _ hmem raw hraw => h raw (raws_subset_of_mem_conjuncts hmem hraw)

/-- **An update only adds placeholders.** -/
theorem updateText_made (scope : Scope) {e : Expr} (h : e.Brings own) :
    Made own (updateText scope e) := by
  refine .bind (addActions_made scope [] h.conjuncts) fun text => ?_
  exact .ite (.throw _) (.pure _)

theorem keyConditionText_made (scope : Scope) {e : Expr} (h : e.Brings own) :
    Made own (keyConditionText scope e) := by
  refine .bind (.ofExcept _) fun members => .bind (conditionText_made scope h) fun text => ?_
  exact .bind (.ofExcept _) fun index => .pure _

end Expr

/-! ### Sessions -/

/-- An item without a schema. -/
def Scope.untyped (options : CodecOptions) : Scope := ⟨options, none, fun _ => none⟩

namespace Session

/-- The second session comes of the first by adding placeholders. -/
def Grows (own : Char → String → Prop) (s t : Session) : Prop :=
  Aliases.Grows own s.aliases t.aliases

instance (own : Char → String → Prop) : Std.Refl (Grows own) := ⟨fun s => refl s.aliases⟩

instance (own : Char → String → Prop) : IsTrans Session (Grows own) :=
  ⟨fun _ _ _ h h' => Relation.ReflTransGen.trans h h'⟩

/-- A computation in a session that folds expressions, asks for placeholders and takes over
placeholders of raw text, those that `own` allows. -/
inductive Made (own : Char → String → Prop) : {α : Type} → SessionM α → Prop
  | pure {α : Type} (x : α) : Made own (Pure.pure x)
  | throw {α : Type} (e : Error) : Made own (MonadExcept.throw e : SessionM α)
  | bind {α β : Type} {m : SessionM α} {f : α → SessionM β} :
      Made own m → (∀ x, Made own (f x)) → Made own (m >>= f)
  /-- What follows folding works on an expression without other raw parts. -/
  | folded {α : Type} {e : Expr} {f : Expr → SessionM α} :
      e.Brings own → (∀ e' : Expr, e'.Brings own → Made own (f e')) → Made own (folded e >>= f)
  | onAliases {α : Type} {m : AliasM α} : m.Made own → Made own (onAliases m)

/-- A computation in a session that can be repeated, if the application's number is what it was. -/
abbrev Repeats {α : Type} (m : SessionM α) : Prop :=
  RepeatsOn Session.aliases (fun aliases s => { s with aliases }) m

theorem onAliases_eq_ok {α : Type} {action : AliasM α} {s t : Session} {x : α} :
    onAliases action s = .ok x t ↔
      ∃ aliases, action s.aliases = .ok x aliases ∧ t = { s with aliases } := by
  unfold onAliases
  cases action s.aliases with
  | ok y aliases =>
    constructor
    · intro h
      cases h
      exact ⟨aliases, rfl, rfl⟩
    · rintro ⟨aliases', heq, rfl⟩
      cases heq
      rfl
  | error e aliases =>
    constructor
    · intro h
      cases h
    · rintro ⟨aliases', heq, -⟩
      cases heq

theorem folded_eq_ok {e e' : Expr} {s t : Session} :
    folded e s = .ok e' t ↔ ∃ counter, e.fold s.counter = .ok e' counter ∧ t = { s with counter } := by
  unfold folded
  cases e.fold s.counter with
  | ok y counter =>
    constructor
    · intro h
      cases h
      exact ⟨counter, rfl, rfl⟩
    · rintro ⟨counter', heq, rfl⟩
      cases heq
      rfl
  | error err counter =>
    constructor
    · intro h
      cases h
    · rintro ⟨counter', heq, -⟩
      cases heq

theorem onAliases_grows {α : Type} {action : AliasM α} (h : action.Grows own) :
    Leads (Grows own) (onAliases action) := by
  intro s
  have haction := h s.aliases
  rw [after] at haction
  rw [after, onAliases]
  cases hrun : action s.aliases with
  | ok x aliases =>
    rw [hrun] at haction
    exact haction
  | error e aliases =>
    rw [hrun] at haction
    exact haction

theorem onAliases_repeats {α : Type} {action : AliasM α} (h : action.Repeats) :
    Repeats (onAliases action) := by
  constructor
  · intro s
    have haction := h.includes s.aliases
    rw [after] at haction
    rw [after, onAliases]
    cases hrun : action s.aliases with
    | ok x aliases =>
      rw [hrun] at haction
      exact haction
    | error e aliases =>
      rw [hrun] at haction
      exact haction
  · intro s b hb
    have hincludes : (after action s.aliases).Includes b := by
      rw [after, onAliases] at hb
      rw [after]
      cases hrun : action s.aliases with
      | ok x aliases =>
        rw [hrun] at hb
        exact hb
      | error e aliases =>
        rw [hrun] at hb
        exact hb
    have hagain : action b = mapState (fun _ => b) (action s.aliases) := h.again hincludes
    rw [onAliases, onAliases, hagain]
    cases action s.aliases <;> rfl

/-- Folding does not touch the tables. -/
theorem folded_repeats (e : Expr) : Repeats (folded e) := by
  constructor
  · intro s
    rw [after, folded]
    cases e.fold s.counter <;> exact .refl s.aliases
  · intro s b _
    rw [folded, folded]
    cases e.fold s.counter <;> rfl

/-- Folding may fail, and what follows it works on an expression without other raw parts. -/
theorem folded_bind_grows {α : Type} {e : Expr} (he : e.Brings own) {f : Expr → SessionM α}
    (hf : ∀ e' : Expr, e'.Brings own → Leads (Grows own) (f e')) :
    Leads (Grows own) (folded e >>= f) := by
  intro s
  change Grows own s (after (EStateM.bind (folded e) f) s)
  rw [after, EStateM.bind, folded]
  cases hfold : e.fold s.counter with
  | ok e' counter => exact hf e' (he.fold hfold) { s with counter }
  | error err counter => exact refl s.aliases

/-- **What is made of steps only adds placeholders.** -/
theorem Made.grows {α : Type} {m : SessionM α} (h : Made own m) : Leads (Grows own) m := by
  induction h with
  | pure x => exact Leads.pure x
  | throw e => exact Leads.throw e
  | bind _ _ ihm ihf => exact Leads.bind ihm ihf
  | folded he _ ihf => exact folded_bind_grows he ihf
  | onAliases hm => exact onAliases_grows hm.grows

/-- **What is made of steps can be repeated.** -/
theorem Made.repeats {α : Type} {m : SessionM α} (h : Made own m) : Repeats m := by
  induction h with
  | pure x => exact .pure x
  | throw e => exact .throw e
  | bind _ _ ihm ihf => exact .bind ihm fun _ => ihf _
  | folded he _ ihf =>
    refine .bind (folded_repeats _) fun {e' s t} hfolded => ihf e' ?_
    obtain ⟨counter, hfold, -⟩ := folded_eq_ok.mp hfolded
    exact he.fold hfold
  | onAliases hm => exact onAliases_repeats hm.repeats

theorem condition_made (scope : Scope) {e : Expr} (h : e.Brings own) :
    Made own (condition scope e) :=
  .folded h fun _ he => .onAliases (Expr.conditionText_made scope he)

theorem update_made (scope : Scope) {e : Expr} (h : e.Brings own) : Made own (update scope e) :=
  .folded h fun _ he => .onAliases (Expr.updateText_made scope he)

theorem keyCondition_made (scope : Scope) {e : Expr} (h : e.Brings own) :
    Made own (keyCondition scope e) :=
  .folded h fun _ he => .onAliases (Expr.keyConditionText_made scope he)

theorem paths_made (scope : Scope) {exprs : List Expr} (h : Expr.AllBring own exprs) :
    Made own (paths scope exprs) := by
  induction exprs with
  | nil => exact .pure []
  | cons e rest ih =>
    obtain ⟨he, hrest⟩ := Expr.allBring_cons.mp h
    refine .folded he fun e' _ => ?_
    refine .bind (.onAliases (Expr.path_made scope e')) fun path => ?_
    exact .bind (ih hrest) fun others => .pure _

theorem projection_made (scope : Scope) {exprs : List Expr} (h : Expr.AllBring own exprs) :
    Made own (projection scope exprs) := by
  refine .bind (paths_made scope h) fun texts => ?_
  by_cases hempty : texts.isEmpty = true
  · rw [if_pos hempty]
    exact .throw _
  · rw [if_neg hempty]
    exact .pure _

end Session

/-- Something to compile in a session. -/
inductive Request where
  | condition (scope : Scope) (e : Expr)
  | update (scope : Scope) (e : Expr)
  | keyCondition (scope : Scope) (e : Expr)
  | projection (scope : Scope) (paths : List Expr)
  /-- The placeholder of a name. -/
  | nameAlias (name : String)
  /-- The placeholder of a value. -/
  | valueAlias (value : AttributeValue)
  /-- The placeholders of raw text that is used by itself. -/
  | placeholders (options : CodecOptions) (raw : RawExpression)

namespace Request

/-- The raw text in a request. -/
def raws : Request → List RawExpression
  | .condition _ e | .update _ e | .keyCondition _ e => e.raws
  | .projection _ paths => Expr.rawsOfAll paths
  | .nameAlias _ | .valueAlias _ => []
  | .placeholders _ raw => [raw]

/-- Carries out a request. -/
def run : Request → SessionM Unit
  | .condition scope e => do discard (Session.condition scope e)
  | .update scope e => do discard (Session.update scope e)
  | .keyCondition scope e => do discard (Session.keyCondition scope e)
  | .projection scope paths => do discard (Session.projection scope paths)
  | .nameAlias name => do discard (Session.onAliases (Aliases.nameAlias name))
  | .valueAlias value => do discard (Session.onAliases (Aliases.valueAlias value))
  | .placeholders options raw => Session.onAliases (Aliases.mergeRaw options raw)

/-- The text that a request yields: that of an expression, or a placeholder. -/
def text : Request → SessionM String
  | .condition scope e => Session.condition scope e
  | .update scope e => Session.update scope e
  | .keyCondition scope e => do
    let (text, _) ← Session.keyCondition scope e
    pure text
  | .projection scope paths => Session.projection scope paths
  | .nameAlias name => Session.onAliases (Aliases.nameAlias name)
  | .valueAlias value => Session.onAliases (Aliases.valueAlias value)
  | .placeholders options raw => do
    Session.onAliases (Aliases.mergeRaw options raw)
    pure raw.text

/-- A request leaves the same session behind, whether its text is wanted or not. -/
theorem after_text (request : Request) (s : Session) : after request.text s = after request.run s := by
  have hdiscard : ∀ {α : Type} (m : SessionM α), after (do discard m) s = after m s := by
    intro α m
    exact after_bind_pure m (fun _ => ()) s
  cases request with
  | condition scope e => exact (hdiscard _).symm
  | update scope e => exact (hdiscard _).symm
  | keyCondition scope e =>
    exact (after_bind_pure (Session.keyCondition scope e) Prod.fst s).trans (hdiscard _).symm
  | projection scope paths => exact (hdiscard _).symm
  | nameAlias name => exact (hdiscard _).symm
  | valueAlias value => exact (hdiscard _).symm
  | placeholders options raw => exact after_bind_pure _ (fun _ => raw.text) s

/-- **A request is made of steps.** -/
theorem text_made {request : Request} (h : ∀ raw ∈ request.raws, raw.Brings own) :
    Session.Made own request.text := by
  cases request with
  | condition scope e => exact Session.condition_made scope h
  | update scope e => exact Session.update_made scope h
  | keyCondition scope e => exact .bind (Session.keyCondition_made scope h) fun _ => .pure _
  | projection scope paths =>
    have hpaths : Expr.AllBring own paths := fun path hpath raw hraw =>
      h raw (Expr.raws_subset_rawsOfAll hpath hraw)
    exact Session.projection_made scope hpaths
  | nameAlias name => exact .onAliases (.nameAlias name)
  | valueAlias value => exact .onAliases (.valueAlias value)
  | placeholders options raw =>
    exact .bind (.onAliases (.mergeRaw options (h raw List.mem_cons_self))) fun _ => .pure _

/-- **A request only adds placeholders**, whether it succeeds or fails. -/
theorem grows {request : Request} (h : ∀ raw ∈ request.raws, raw.Brings own) :
    Leads (Session.Grows own) request.run := by
  intro s
  rw [← after_text]
  exact (text_made h).grows s

end Request

/-- The sessions that requests lead to, whether they succeed or fail, where the placeholders of their
raw text are well formed. -/
inductive Session.Reachable : Session → Prop
  | start (counter : Nat) : Reachable (.start counter)
  | step {s : Session} (request : Request) : Reachable s →
      (∀ raw ∈ request.raws, raw.Brings Aliases.Marked) → Reachable (after request.run s)

/-- **The tables of every session are tidy.** -/
theorem Session.Reachable.tidy {s : Session} (h : s.Reachable) : s.aliases.Tidy := by
  induction h with
  | start counter => exact Aliases.tidy_empty
  | step request _ hraws ih => exact (Request.grows hraws _).tidy ih

end ItemMapper
