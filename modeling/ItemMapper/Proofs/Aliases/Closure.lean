import ItemMapper.Proofs.Aliases.Compilation
import ItemMapper.Proofs.Aliases.Lookup
import ItemMapper.Proofs.Clauses.Actions
import ItemMapper.Proofs.Condition.Compilation
import ItemMapper.Proofs.Expression.Placeholders

/-!
# Closed expressions

The store refuses an expression with a placeholder that nothing is sent for, and a request that sends
something for a placeholder that no expression uses. What the compiler writes without raw text uses
all placeholders that it adds, and finds all placeholders that it uses. This is proved along the
compiler: each of its functions is given the texts written so far, which account for all placeholders
added so far, and hands on the texts with its own one, which still do.

## Main definitions

* `Aliases.placeholders`: the placeholders of a kind that something is sent for.
* `Aliases.Accounted`: texts that account for all placeholders added since some tables.
* `Emits`: a computation that turns such texts into others.
* `Session.Closes`: what a session sends along with a text, neither too little nor too much.

## Main statements

* `Expr.predicate_emits`, `Expr.updateText_emits`: what the compiler writes.
* `Request.accounted_text`: what a request without raw text yields.
* `Session.closed_text`: **what is compiled in a fresh session is closed and carries nothing unused**.
-/

namespace ItemMapper

namespace Aliases

/-- The placeholders of a kind that something is sent for. -/
def placeholders (a : Aliases) : Sigil → List String
  | .name => a.names.map Prod.fst
  | .value => a.values.map Prod.fst

/-- Whether some name or value finds a placeholder. -/
def Finds (a : Aliases) : Sigil → String → Prop
  | .name, placeholder => ∃ name, a.nameAliases.lookup name = some placeholder
  | .value, placeholder => ∃ value, aliasOf? a.valueAliases value = some placeholder

theorem Keeps.finds {a b : Aliases} (h : a.Keeps b) {sigil : Sigil} {placeholder : String}
    (hfinds : a.Finds sigil placeholder) : b.Finds sigil placeholder := by
  cases sigil with
  | name =>
    obtain ⟨name, hname⟩ := hfinds
    exact ⟨name, h.names hname⟩
  | value =>
    obtain ⟨value, hvalue⟩ := hfinds
    exact ⟨value, h.values hvalue⟩

end Aliases

namespace Fields

theorem mem_keys_iff {α : Type} {fields : Fields α} {key : String} :
    key ∈ fields.map Prod.fst ↔ (fields.get? key).isSome = true := by
  refine ⟨fun h => ?_, mem_keys_of_contains⟩
  induction fields with
  | nil => cases h
  | cons entry rest ih =>
    obtain ⟨k, v⟩ := entry
    rw [get?_cons]
    by_cases hk : key = k
    · rw [if_pos hk]
      rfl
    · rw [if_neg hk]
      exact ih ((List.mem_cons.mp h).resolve_left hk)

theorem mem_keys_insert {α : Type} {fields : Fields α} {key name : String} {value : α}
    (h : name ∈ (fields.insert key value).map Prod.fst) :
    name ∈ fields.map Prod.fst ∨ name = key := by
  obtain ⟨entry, hentry, rfl⟩ := List.mem_map.mp h
  rcases mem_insert_key hentry with rfl | hentry
  · exact .inr rfl
  · exact .inl (List.mem_map_of_mem hentry)

end Fields

namespace Aliases

/-- What finds a placeholder is what the placeholder stands for, so something is sent for it. -/
theorem Coherent.mem_placeholders {a : Aliases} (ha : a.Coherent) {sigil : Sigil}
    {placeholder : String} (h : a.Finds sigil placeholder) : placeholder ∈ a.placeholders sigil := by
  cases sigil with
  | name =>
    obtain ⟨name, hname⟩ := h
    refine Fields.mem_keys_iff.mpr ?_
    rw [ha.names (mem_of_lookup hname)]
    rfl
  | value =>
    obtain ⟨value, hvalue⟩ := h
    obtain ⟨present, hmem, -⟩ := mem_of_aliasOf? hvalue
    refine Fields.mem_keys_iff.mpr ?_
    rw [ha.values hmem]
    rfl

/-- Since the first tables, nothing was added that the texts do not use, and what the texts use is
found in the second tables. -/
structure Accounted (start a : Aliases) (texts : List (List Char)) : Prop where
  tidy : a.Tidy
  found : ∀ {sigil placeholder}, placeholder ∈ usedIn sigil texts → a.Finds sigil placeholder
  added : ∀ {sigil placeholder}, placeholder ∈ a.placeholders sigil →
    placeholder ∈ start.placeholders sigil ∨ placeholder ∈ usedIn sigil texts

variable {start a b : Aliases} {texts others : List (List Char)}

theorem Accounted.refl (h : a.Tidy) : Accounted a a [] := ⟨h, nofun, .inl⟩

/-- Only the placeholders of the texts matter. -/
theorem Accounted.congr (h : Accounted start a texts)
    (hused : ∀ sigil placeholder, placeholder ∈ usedIn sigil others ↔
      placeholder ∈ usedIn sigil texts) : Accounted start a others := by
  refine ⟨h.tidy, fun hmem => h.found ((hused _ _).mp hmem), fun hmem => ?_⟩
  exact (h.added hmem).imp_right (hused _ _).mpr

/-- One text more: the placeholder that was asked for. -/
theorem Accounted.ask (h : Accounted start a texts) (hb : b.Tidy) (hkeeps : a.Keeps b)
    {sigil : Sigil} {placeholder : String} (hfinds : b.Finds sigil placeholder)
    (hplaceholder : isPlaceholder sigil.char placeholder = true)
    (hadded : ∀ other p, p ∈ b.placeholders other →
      p ∈ a.placeholders other ∨ other = sigil ∧ p = placeholder) :
    Accounted start b (texts ++ [placeholder.toList]) := by
  have hused : ∀ other p, p ∈ usedIn other (texts ++ [placeholder.toList]) ↔
      p ∈ usedIn other texts ∨ other = sigil ∧ p = placeholder := by
    intro other p
    rw [usedIn_append, List.mem_append, usedIn_cons, usedIn_nil, List.append_nil,
      placeholdersIn_placeholder hplaceholder]
    by_cases hother : other = sigil
    · simp [hother]
    · simp [hother]
  refine ⟨hb, fun hmem => ?_, fun hmem => ?_⟩
  · rcases (hused _ _).mp hmem with hmem | ⟨rfl, rfl⟩
    · exact hkeeps.finds (h.found hmem)
    · exact hfinds
  · rw [hused]
    rcases hadded _ _ hmem with hmem | hnew
    · exact (h.added hmem).imp_right .inl
    · exact .inr (.inr hnew)

end Aliases

open Aliases (Accounted)

/-- A computation that turns texts that account for all placeholders into others that do. -/
def Emits {α : Type} (before : List (List Char)) (m : AliasM α) (after : α → List (List Char)) :
    Prop :=
  ∀ ⦃start a b : Aliases⦄ ⦃x : α⦄, Accounted start a before → m a = .ok x b →
    Accounted start b (after x)

namespace Emits

variable {α β : Type} {before : List (List Char)} {middle : α → List (List Char)}
  {after : β → List (List Char)}

theorem pure {y : β} (h : ∀ sigil placeholder, placeholder ∈ usedIn sigil (after y) ↔
    placeholder ∈ usedIn sigil before) : Emits before (Pure.pure y) after := by
  intro start a b x ha hrun
  obtain ⟨rfl, rfl⟩ := pure_eq_ok.mp hrun
  exact ha.congr h

theorem throw (e : Error) : Emits before (MonadExcept.throw e) after :=
  fun _ _ _ _ _ hrun => (throw_eq_ok.mp hrun).elim

/-- What comes next may rely on what came first having yielded its result. -/
theorem bind {m : AliasM α} {f : α → AliasM β} (hm : Emits before m middle)
    (hf : ∀ x, (∃ a b, m a = .ok x b) → Emits (middle x) (f x) after) :
    Emits before (m >>= f) after := by
  intro start a b y ha hrun
  obtain ⟨x, a₁, hx, hy⟩ := bind_eq_ok.mp hrun
  exact hf x ⟨a, a₁, hx⟩ (hm ha hx) hy

theorem ite {c : Prop} [Decidable c] {m n : AliasM β} (hm : Emits before m after)
    (hn : Emits before n after) : Emits before (if c then m else n) after := by
  by_cases hc : c
  · rwa [if_pos hc]
  · rwa [if_neg hc]

theorem ofExcept (result : Except Error α) :
    Emits before (AliasM.ofExcept result) fun _ => before := by
  intro start a b x ha hrun
  obtain ⟨-, rfl⟩ := AliasM.ofExcept_eq_ok.mp hrun
  exact ha

theorem congr {m : AliasM β} {others : List (List Char)} (hm : Emits others m after)
    (h : ∀ sigil placeholder, placeholder ∈ usedIn sigil others ↔
      placeholder ∈ usedIn sigil before) : Emits before m after :=
  fun _ _ _ _ ha hrun => hm (ha.congr h) hrun

theorem mapM {f : α → AliasM String} {xs : List α}
    (hf : ∀ x ∈ xs, ∀ before, Emits before (f x) fun text => before ++ [text.toList]) :
    Emits before (xs.mapM f) fun texts => before ++ texts.map String.toList := by
  induction xs generalizing before with
  | nil =>
    intro start a b texts ha hrun
    obtain ⟨rfl, rfl⟩ := mapM_nil_eq_ok.mp hrun
    simpa using ha
  | cons x xs ih =>
    intro start a b texts ha hrun
    obtain ⟨text, a₁, others, htext, hothers, rfl⟩ := mapM_cons_eq_ok.mp hrun
    have hfirst := hf x List.mem_cons_self before ha htext
    have hrest := ih (fun y hy => hf y (List.mem_cons_of_mem _ hy)) hfirst hothers
    simpa using hrest

end Emits

theorem length_of_mapM {ε σ α β : Type} {f : α → EStateM ε σ β} {xs : List α} {ys : List β}
    {s t : σ} (h : xs.mapM f s = .ok ys t) : ys.length = xs.length := by
  induction xs generalizing ys s with
  | nil =>
    rw [(mapM_nil_eq_ok.mp h).1]
    rfl
  | cons x xs ih =>
    obtain ⟨y, s₁, zs, -, hzs, rfl⟩ := mapM_cons_eq_ok.mp h
    rw [List.length_cons, List.length_cons, ih hzs]

theorem takes_of_checkArity {function : StoreFunction} {count : Nat} {x : Unit}
    (h : ∃ a b, AliasM.ofExcept (function.checkArity count) a = .ok x b) :
    function.takes count = true := by
  obtain ⟨a, b, hrun⟩ := h
  exact checkArity_eq_ok (AliasM.ofExcept_eq_ok.mp hrun).1

/-! ### Asking for placeholders -/

variable {before : List (List Char)}

theorem nameAlias_emits (name : String) :
    Emits before (Aliases.nameAlias name) fun text => before ++ [text.toList] := by
  intro start a b text ha h
  have hgrows : Aliases.Grows Aliases.Marked a b := (Aliases.nameAlias_grows name).of_ok h
  have hfinds : b.Finds .name text := ⟨name, Aliases.lookup_of_nameAlias h⟩
  refine ha.ask (hgrows.tidy ha.tidy) hgrows.keeps hfinds (Aliases.nameAlias_spec ha.tidy h).2 ?_
  intro other p hp
  cases hlookup : a.nameAliases.lookup name with
  | some found =>
    rw [Aliases.nameAlias_of_lookup hlookup] at h
    cases h
    exact .inl hp
  | none =>
    obtain ⟨number, -, hrun⟩ := Aliases.nameAlias_of_none hlookup
    rw [hrun] at h
    cases h
    cases other with
    | name => exact (Fields.mem_keys_insert hp).imp_right fun heq => ⟨rfl, heq⟩
    | value => exact .inl hp

theorem valueAlias_emits (value : AttributeValue) :
    Emits before (Aliases.valueAlias value) fun text => before ++ [text.toList] := by
  intro start a b text ha h
  have hgrows : Aliases.Grows Aliases.Marked a b := (Aliases.valueAlias_grows value).of_ok h
  have hfinds : b.Finds .value text := ⟨value, Aliases.aliasOf?_of_valueAlias h⟩
  obtain ⟨_, _, _, hmark⟩ := Aliases.valueAlias_spec ha.tidy h
  refine ha.ask (hgrows.tidy ha.tidy) hgrows.keeps hfinds hmark ?_
  intro other p hp
  cases hlookup : Aliases.aliasOf? a.valueAliases value with
  | some found =>
    rw [Aliases.valueAlias_of_aliasOf? hlookup] at h
    cases h
    exact .inl hp
  | none =>
    obtain ⟨number, -, hrun⟩ := Aliases.valueAlias_of_none hlookup
    rw [hrun] at h
    cases h
    cases other with
    | name => exact .inl hp
    | value => exact (Fields.mem_keys_insert hp).imp_right fun heq => ⟨rfl, heq⟩

namespace Expr

/-! ### Paths -/

theorem escape_emits (name : String) :
    Emits before (escape name) fun text => before ++ [text.toList] := by
  unfold escape
  by_cases hneeds : needsAlias name = true
  · rw [if_pos hneeds]
    exact nameAlias_emits name
  · rw [if_neg hneeds]
    refine .pure fun sigil placeholder => ?_
    have hall := (all_isNameChar_of_needsAlias (Bool.not_eq_true _ ▸ hneeds)).2
    rw [usedIn_append, usedIn_cons, usedIn_nil,
      placeholdersIn_plain (isPlain_of_all_isNameChar hall), List.append_nil, List.append_nil]

/-- The placeholders of two texts with some text between them, in place of those of the texts. -/
theorem mem_usedIn_joined {sigil : Sigil} {l r joined : List Char}
    (h : placeholdersIn sigil joined = placeholdersIn sigil l ++ placeholdersIn sigil r)
    (placeholder : String) :
    placeholder ∈ usedIn sigil (before ++ [joined]) ↔
      placeholder ∈ usedIn sigil (before ++ [l] ++ [r]) := by
  simp only [usedIn_append, usedIn_cons, usedIn_nil, h, List.append_nil, List.append_assoc]

theorem placeholdersIn_member (sigil : Sigil) (parent segment : String) :
    placeholdersIn sigil (s!"{parent}.{segment}").toList =
      placeholdersIn sigil parent.toList ++ placeholdersIn sigil segment.toList := by
  have htext : (s!"{parent}.{segment}").toList = parent.toList ++ '.' :: ([] ++ segment.toList) := by
    change (parent ++ "." ++ segment).toList = _
    simp
  rw [htext, placeholdersIn_between (by decide) (by decide)]

theorem placeholdersIn_element (sigil : Sigil) (parent : String) {position : Int}
    (hposition : 0 ≤ position) :
    placeholdersIn sigil (s!"{parent}[{position}]").toList = placeholdersIn sigil parent.toList := by
  obtain ⟨n, rfl⟩ := Int.eq_ofNat_of_zero_le hposition
  have hdigits : (toString n).toList.all isNameChar = true := by
    rw [Nat.toString_eq_repr, Nat.toList_repr]
    exact Aliases.all_isNameChar_toDigits n
  have htext : (s!"{parent}[{(n : Int)}]").toList =
      parent.toList ++ '[' :: ([] ++ ((toString n).toList ++ ']' :: [])) := by
    change (parent ++ "[" ++ toString n ++ "]").toList = _
    simp
  rw [htext, placeholdersIn_between (by decide) (by decide),
    placeholdersIn_append_plain (by decide) (by decide),
    placeholdersIn_plain (isPlain_of_all_isNameChar hdigits), List.append_nil]

theorem memberPath_emits (scope : Scope) (parent : Option String) (schema : Option Schema)
    (name : String) :
    Emits (before ++ parent.toList.map String.toList) (memberPath scope parent schema name)
      fun path => before ++ [path.text.toList] := by
  refine .bind (.ofExcept _) fun ⟨stored, type⟩ _ => ?_
  refine .bind (escape_emits stored) fun segment _ => .pure fun sigil placeholder => ?_
  cases parent with
  | none => simp
  | some parent => exact mem_usedIn_joined (placeholdersIn_member sigil parent segment) placeholder

/-- **A path uses the placeholders that it adds.** -/
theorem path_emits (scope : Scope) (e : Expr) :
    Emits before (e.path scope) fun path => before ++ [path.text.toList] := by
  fun_induction path scope e with
  | case1 name =>
    refine (memberPath_emits scope none scope.root name).congr fun sigil placeholder => ?_
    simp
  | case2 parent name _ ih =>
    exact .bind ih fun path _ => memberPath_emits scope (some path.text) path.schema name
  | case3 => exact .throw _
  | case4 parent key _ ih =>
    refine .bind ih fun path _ => .bind (escape_emits key) fun segment _ => ?_
    exact .pure fun sigil => mem_usedIn_joined (placeholdersIn_member sigil path.text segment)
  | case5 parent _ position hposition _ ih =>
    refine .bind ih fun path _ => .pure fun sigil placeholder => ?_
    simp only [elementPath, usedIn_append, usedIn_cons, usedIn_nil,
      placeholdersIn_element sigil path.text hposition]
  | case6 => exact .throw _
  | case7 => exact .throw _
  | case8 => exact .throw _

/-! ### Conditions -/

theorem constantText_emits (scope : Scope) (value : Value) (hint : Hint) :
    Emits before (constantText scope value hint) fun text => before ++ [text.toList] :=
  .bind (.ofExcept _) fun stored _ => valueAlias_emits stored

theorem pathText_emits (scope : Scope) (e : Expr) :
    Emits before (e.path scope >>= fun path => pure path.text) fun text => before ++ [text.toList] :=
  .bind (path_emits scope e) fun _ _ => .pure fun _ _ => .rfl

theorem subject_emits (scope : Scope) (function : StoreFunction) (arg : Expr) :
    Emits before (subject scope function arg) fun text => before ++ [text.toList] :=
  .ite (pathText_emits scope arg) (.throw _)

theorem filled_emits {function : StoreFunction} {args : List String}
    (htakes : function.takes args.length = true) :
    Emits (before ++ args.map String.toList) (filled function args) fun text =>
      before ++ [text.toList] := by
  intro start a b text ha h
  obtain ⟨hrender, rfl⟩ := AliasM.ofExcept_eq_ok.mp h
  refine ha.congr fun sigil placeholder => ?_
  rw [usedIn_append, usedIn_append, usedIn_cons, usedIn_nil, List.append_nil,
    placeholdersIn_render htakes hrender]

/-- A template is filled with a first argument and others that were written after it. -/
theorem filled_cons_emits {function : StoreFunction} {first : String} {others : List String}
    (htakes : function.takes (others.length + 1) = true) :
    Emits (before ++ [first.toList] ++ others.map String.toList) (filled function (first :: others))
      fun text => before ++ [text.toList] := by
  rw [List.append_assoc, List.singleton_append, ← List.map_cons]
  exact filled_emits htakes

theorem sizeText_emits (scope : Scope) (args : List Expr) :
    Emits before (sizeText scope args) fun text => before ++ [text.toList] := by
  refine .bind (.ofExcept _) fun _ hcheck => ?_
  refine .bind (.mapM fun arg _ _ => subject_emits scope .size arg) fun texts hrun => ?_
  obtain ⟨a, b, hrun⟩ := hrun
  refine filled_emits ?_
  rw [length_of_mapM hrun]
  exact takes_of_checkArity hcheck

theorem operand_emits (scope : Scope) (hint : Hint) {e : Expr} (he : e.raws = []) :
    Emits before (operand scope hint e) fun text => before ++ [text.toList] := by
  fun_induction operand scope hint e with
  | case1 => exact pathText_emits scope _
  | case2 => exact pathText_emits scope _
  | case3 hint value => exact constantText_emits scope value hint
  | case4 hint inner type ih => exact ih he
  | case5 hint args => exact sizeText_emits scope args
  | case6 => cases he
  | case7 => exact .throw _

theorem callText_emits (scope : Scope) (function : StoreFunction) {args : List Expr}
    (hargs : ∀ arg ∈ args, arg.raws = []) :
    Emits before (callText scope function args) fun text => before ++ [text.toList] := by
  refine .bind (.ofExcept _) fun _ hcheck => ?_
  have htakes := takes_of_checkArity hcheck
  have hraws := raws_of_mem_spread function hargs
  cases hspread : spread function args with
  | nil =>
    rw [hspread] at htakes
    cases function <;> cases htakes
  | cons first others =>
    rw [hspread] at htakes hraws
    obtain ⟨hfirst, hothers⟩ := List.forall_mem_cons.mp hraws
    refine .bind (.ite (subject_emits scope function first) (operand_emits scope _ hfirst)) ?_
    intro firstArg _
    refine .bind (.mapM fun arg harg _ => operand_emits scope _ (hothers arg harg)) ?_
    rintro otherArgs ⟨a, b, hrun⟩
    refine filled_cons_emits ?_
    rw [length_of_mapM hrun]
    exact htakes

theorem isPlain_symbol (op : BinaryOp) : isPlain op.symbol.toList = true := by
  cases op <;> decide

/-- Two texts with an operator between them have the placeholders of both. -/
theorem placeholdersIn_joined (sigil : Sigil) (l : String) (op : BinaryOp) (r : String) :
    placeholdersIn sigil (s!"{l} {op.symbol} {r}").toList =
      placeholdersIn sigil l.toList ++ placeholdersIn sigil r.toList := by
  have hsymbol : placeholdersIn sigil (op.symbol.toList ++ ' ' :: ([] ++ r.toList)) =
      placeholdersIn sigil r.toList := by
    rw [placeholdersIn_between (by decide) (by decide), placeholdersIn_plain (isPlain_symbol op),
      List.nil_append]
  rw [toList_joined]
  change placeholdersIn sigil (l.toList ++ ' ' :: ([] ++ (op.symbol.toList ++ ' ' :: r.toList))) = _
  rw [placeholdersIn_between (by decide) (by decide)]
  exact congrArg _ hsymbol

theorem truthText_emits (scope : Scope) (member : Expr) :
    Emits before (truthText scope member) fun text => before ++ [text.toList] := by
  refine .bind (path_emits scope member) fun path _ => .ite ?_ (.throw _)
  refine .bind (valueAlias_emits _) fun truth _ => .pure fun sigil => ?_
  have htext : s!"{path.text} = {truth}" = s!"{path.text} {BinaryOp.eq.symbol} {truth}" := by
    change path.text ++ " = " ++ truth = path.text ++ " " ++ "=" ++ " " ++ truth
    simp only [← String.toList_inj, String.toList_append, List.append_assoc]
    rfl
  rw [htext]
  exact mem_usedIn_joined (placeholdersIn_joined sigil path.text .eq truth)

theorem comparisonText_emits (scope : Scope) (op : BinaryOp) {left right : Expr}
    (hl : left.raws = []) (hr : right.raws = []) :
    Emits before (comparisonText scope op left right) fun text => before ++ [text.toList] := by
  refine .bind (operand_emits scope _ hl) fun l _ => .bind (operand_emits scope _ hr) fun r _ => ?_
  exact .pure fun sigil => mem_usedIn_joined (placeholdersIn_joined sigil l op r)

theorem placeholdersIn_group (sigil : Sigil) (wanted : Bool) (text : String) :
    placeholdersIn sigil (group wanted text).toList = placeholdersIn sigil text.toList := by
  cases wanted with
  | false => rfl
  | true =>
    have htext : (group true text).toList = ['('] ++ (text.toList ++ ')' :: []) := by
      change ("(" ++ text ++ ")").toList = _
      simp
    rw [htext, placeholdersIn_plain_append (by decide),
      placeholdersIn_append_plain (by decide) (by decide)]

/-- **A condition uses the placeholders that it adds.** -/
theorem predicate_emits (scope : Scope) {e : Expr} (he : e.raws = []) :
    Emits before (predicate scope e) fun text => before ++ [text.toList] := by
  fun_induction predicate scope e generalizing before with
  | case1 op left right _ ihl ihr =>
    obtain ⟨hl, hr⟩ := List.append_eq_nil_iff.mp he
    refine .bind (ihl hl) fun l _ => .bind (ihr hr) fun r _ => .pure fun sigil => ?_
    refine mem_usedIn_joined ?_
    rw [placeholdersIn_joined, placeholdersIn_group, placeholdersIn_group]
  | case2 op left right =>
    obtain ⟨hl, hr⟩ := List.append_eq_nil_iff.mp he
    exact comparisonText_emits scope op hl hr
  | case3 => exact .throw _
  | case4 inner ih =>
    refine .bind (ih he) fun text _ => .pure fun sigil placeholder => ?_
    have htext : (s!"NOT {group inner.groupedByNot text}").toList =
        "NOT ".toList ++ (group inner.groupedByNot text).toList := by
      change ("NOT " ++ group inner.groupedByNot text).toList = _
      rw [String.toList_append]
    rw [htext]
    simp only [usedIn_append, usedIn_cons, usedIn_nil]
    rw [placeholdersIn_plain_append (by decide), placeholdersIn_group]
  | case5 function args => exact callText_emits scope function (raws_of_mem_args he)
  | case6 => exact .throw _
  | case7 => exact truthText_emits scope _
  | case8 => exact truthText_emits scope _
  | case9 => cases he
  | case10 => exact .throw _

theorem conditionText_emits (scope : Scope) {e : Expr} (he : e.raws = []) :
    Emits before (conditionText scope e) fun text => before ++ [text.toList] := by
  unfold conditionText
  split
  · exact .throw _
  · exact predicate_emits scope he

/-! ### Updates and key conditions -/

theorem guardedPath_emits (scope : Scope) (target : Expr) :
    Emits before (guardedPath scope target) fun path => before ++ [path.text.toList] :=
  .ite (path_emits scope target) (.throw _)

theorem length_of_setValues {scope : Scope} {hint : Hint} {args : List Expr} {texts : List String}
    {a b : Aliases} (h : setValues scope hint args a = .ok texts b) :
    texts.length = args.length := by
  induction args generalizing texts a b with
  | nil =>
    rw [setValues] at h
    rw [← (pure_eq_ok.mp h).1]
    rfl
  | cons arg rest ih =>
    rw [setValues] at h
    obtain ⟨text, a₁, -, h⟩ := bind_eq_ok.mp h
    obtain ⟨others, a₂, hothers, h⟩ := bind_eq_ok.mp h
    obtain ⟨rfl, -⟩ := pure_eq_ok.mp h
    rw [List.length_cons, List.length_cons, ih hothers]

mutual
theorem setValue_emits (before : List (List Char)) (scope : Scope) (hint : Hint) :
    ∀ {e : Expr}, e.raws = [] →
      Emits before (setValue scope hint e) fun text => before ++ [text.toList]
  | .binary op left right, h => by
    obtain ⟨hl, hr⟩ := List.append_eq_nil_iff.mp h
    rw [setValue]
    refine .ite ?_ (operand_emits scope hint h)
    refine .bind (setValue_emits before scope hint hl) fun l _ => ?_
    refine .bind (setValue_emits _ scope hint hr) fun r _ => .pure fun sigil => ?_
    exact mem_usedIn_joined (placeholdersIn_joined sigil l op r)
  | .call function args, h => by
    by_cases hif : function = .ifNotExists
    · subst hif
      rw [setValue]
      refine .bind (.ofExcept _) fun _ hcheck => ?_
      exact ifNotExistsText_emits before scope (raws_of_mem_args h) (takes_of_checkArity hcheck)
    · by_cases happend : function = .listAppend
      · subst happend
        rw [setValue]
        refine .bind (.ofExcept _) fun _ hcheck => ?_
        refine .bind (setValues_emits before scope .plain (raws_of_mem_args h)) ?_
        rintro texts ⟨a, b, hrun⟩
        refine filled_emits ?_
        rw [length_of_setValues hrun]
        exact takes_of_checkArity hcheck
      · rw [setValue_of_not_setOperand scope hint (by cases function <;> trivial)]
        exact operand_emits scope hint h
  | .item, h | .member _ _, h | .index _ _, h | .constant _, h | .unary _ _, h
  | .conditional _ _ _, h | .raw _, h | .deferred _, h | .enumConvert _ _, h =>
    operand_emits scope hint h

theorem ifNotExistsText_emits (before : List (List Char)) (scope : Scope) :
    ∀ {args : List Expr}, (∀ arg ∈ args, arg.raws = []) →
      StoreFunction.ifNotExists.takes args.length = true →
      Emits before (ifNotExistsText scope args) fun text => before ++ [text.toList]
  | [], _, htakes => absurd htakes (by decide)
  | target :: rest, h, htakes => by
    rw [ifNotExistsText]
    refine .bind (guardedPath_emits scope target) fun path _ => ?_
    refine .bind (setValues_emits _ scope _ (List.forall_mem_cons.mp h).2) ?_
    rintro values ⟨a, b, hrun⟩
    refine filled_cons_emits ?_
    rw [length_of_setValues hrun]
    exact htakes

theorem setValues_emits (before : List (List Char)) (scope : Scope) (hint : Hint) :
    ∀ {args : List Expr}, (∀ arg ∈ args, arg.raws = []) →
      Emits before (setValues scope hint args) fun texts => before ++ texts.map String.toList
  | [], _ => .pure fun _ _ => by simp
  | value :: rest, h => by
    obtain ⟨hvalue, hrest⟩ := List.forall_mem_cons.mp h
    rw [setValues]
    refine .bind (setValue_emits before scope hint hvalue) fun text _ => ?_
    refine .bind (setValues_emits _ scope hint hrest) fun texts _ => .pure fun _ _ => ?_
    simp
end

theorem actionValues_emits (scope : Scope) (function : StoreFunction) (hint : Hint)
    {args : List Expr} (h : ∀ arg ∈ args, arg.raws = []) :
    Emits before (actionValues scope function hint args) fun texts =>
      before ++ texts.map String.toList := by
  unfold actionValues
  split
  · exact .mapM fun arg harg before => setValue_emits before scope hint (h arg harg)
  · exact .mapM fun arg harg _ => operand_emits scope _ (h arg harg)
  · exact .mapM fun arg harg _ => operand_emits scope _ (h arg harg)
  · exact .pure fun _ _ => by simp

theorem length_of_actionValues {scope : Scope} {function : StoreFunction} {hint : Hint}
    {args : List Expr} {texts : List String} {a b : Aliases}
    (hfunction : function.verb?.isSome = true) (htakes : function.takes (args.length + 1) = true)
    (h : actionValues scope function hint args a = .ok texts b) : texts.length = args.length := by
  cases function with
  | remove =>
    rw [actionValues] at h
    · obtain ⟨rfl, -⟩ := pure_eq_ok.mp h
      have hlength : args.length + 1 = 1 := beq_iff_eq.mp htakes
      rw [List.length_nil]
      omega
    all_goals exact nofun
  | set | add | delete => exact length_of_mapM h
  | _ => cases hfunction

theorem actionText_emits (scope : Scope) {function : StoreFunction} {args : List Expr}
    (hfunction : function.verb?.isSome = true) (h : ∀ arg ∈ args, arg.raws = []) :
    Emits before (actionText scope function args) fun text => before ++ [text.toList] := by
  refine .bind (.ofExcept _) fun _ hcheck => ?_
  have htakes := takes_of_checkArity hcheck
  cases args with
  | nil => cases function <;> cases htakes
  | cons target rest =>
    refine .ite (.bind (path_emits scope target) fun path _ => ?_) (.throw _)
    refine .bind (actionValues_emits scope function _ (List.forall_mem_cons.mp h).2) ?_
    rintro values ⟨a, b, hrun⟩
    refine filled_cons_emits ?_
    rw [length_of_actionValues hfunction htakes hrun]
    exact htakes

theorem addAction_emits (scope : Scope) (text : List Char) {action : Expr}
    (h : action.raws = []) :
    Emits (before ++ [text]) (addAction scope text action) fun text => before ++ [text] := by
  unfold addAction
  split
  · rename_i function args
    split
    · rename_i verb hverb
      have hfunction : function.verb?.isSome = true := by rw [hverb]; rfl
      refine .bind (actionText_emits scope hfunction (raws_of_mem_args h)) fun added _ => ?_
      refine .pure fun sigil placeholder => ?_
      simp only [usedIn_append, usedIn_cons, usedIn_nil, List.mem_append, mem_placeholdersIn_push,
        List.append_nil, or_assoc]
    · exact .throw _
  · cases h
  · exact .throw _

theorem addActions_emits (scope : Scope) (text : List Char) {actions : List Expr}
    (h : ∀ action ∈ actions, action.raws = []) :
    Emits (before ++ [text]) (addActions scope text actions) fun text => before ++ [text] := by
  induction actions generalizing text with
  | nil => exact .pure fun _ _ => .rfl
  | cons action rest ih =>
    obtain ⟨haction, hrest⟩ := List.forall_mem_cons.mp h
    exact .bind (addAction_emits scope text haction) fun text _ => ih text hrest

/-- **An update uses the placeholders that it adds.** -/
theorem updateText_emits (scope : Scope) {e : Expr} (he : e.raws = []) :
    Emits before (updateText scope e) fun text => before ++ [text.toList] := by
  have hconjuncts : ∀ c ∈ e.conjuncts, c.raws = [] := fun c hc =>
    raws_eq_nil_of_subset he (raws_subset_of_mem_conjuncts hc)
  have hactions : Emits before (addActions scope [] e.conjuncts) fun text => before ++ [text] := by
    refine (addActions_emits scope [] hconjuncts).congr fun sigil placeholder => ?_
    simp [usedIn_append, usedIn_cons, usedIn_nil, placeholdersIn]
  refine .bind hactions fun text _ => .ite (.throw _) (.pure fun sigil placeholder => ?_)
  rw [String.toList_ofList]

/-- **A key condition uses the placeholders that it adds.** -/
theorem keyConditionText_emits (scope : Scope) {e : Expr} (he : e.raws = []) :
    Emits before (keyConditionText scope e) fun result => before ++ [result.1.toList] := by
  refine .bind (.ofExcept _) fun members _ => .bind (conditionText_emits scope he) fun text _ => ?_
  exact .bind (.ofExcept _) fun index _ => .pure fun _ _ => .rfl

end Expr

/-! ### Requests -/

namespace Session

variable {start : Aliases} {s t : Session}

/-- A computation on the placeholders, in a session. -/
theorem accounted_onAliases {α : Type} {m : AliasM α} {after : α → List (List Char)} {x : α}
    (hm : Emits before m after) (h : onAliases m s = .ok x t)
    (hs : Accounted start s.aliases before) : Accounted start t.aliases (after x) := by
  obtain ⟨aliases, hrun, rfl⟩ := onAliases_eq_ok.mp h
  exact hm hs hrun

/-- A computation on a folded expression, which has no raw parts if the expression has none. -/
theorem accounted_folded {α : Type} {e : Expr} (he : e.raws = []) {m : Expr → AliasM α}
    {after : α → List (List Char)} {x : α}
    (hm : ∀ e' : Expr, e'.raws = [] → Emits before (m e') after)
    (h : (folded e >>= fun e' => onAliases (m e')) s = .ok x t)
    (hs : Accounted start s.aliases before) : Accounted start t.aliases (after x) := by
  obtain ⟨e', s₁, hfolded, h⟩ := bind_eq_ok.mp h
  obtain ⟨counter, hfold, rfl⟩ := folded_eq_ok.mp hfolded
  exact accounted_onAliases (hm e' (Expr.raws_eq_nil_of_subset he (Expr.raws_fold hfold))) h hs

theorem accounted_paths {scope : Scope} {exprs : List Expr} {texts : List String}
    (h : paths scope exprs s = .ok texts t) (hs : Accounted start s.aliases before) :
    Accounted start t.aliases (before ++ texts.map String.toList) := by
  induction exprs generalizing s before texts with
  | nil =>
    obtain ⟨rfl, rfl⟩ := pure_eq_ok.mp h
    simpa using hs
  | cons e rest ih =>
    obtain ⟨e', s₁, hfolded, h⟩ := bind_eq_ok.mp h
    obtain ⟨counter, -, rfl⟩ := folded_eq_ok.mp hfolded
    obtain ⟨path, s₂, hpath, h⟩ := bind_eq_ok.mp h
    obtain ⟨others, s₃, hothers, h⟩ := bind_eq_ok.mp h
    obtain ⟨rfl, rfl⟩ := pure_eq_ok.mp h
    have hfirst := accounted_onAliases (Expr.path_emits scope e') hpath hs
    have hrest := ih hothers hfirst
    simpa using hrest

theorem accounted_projection {scope : Scope} {exprs : List Expr} {text : String}
    (h : projection scope exprs s = .ok text t) (hs : Accounted start s.aliases before) :
    Accounted start t.aliases (before ++ [text.toList]) := by
  obtain ⟨texts, s₁, htexts, h⟩ := bind_eq_ok.mp h
  by_cases hempty : texts.isEmpty = true
  · rw [if_pos hempty] at h
    exact (throw_eq_ok.mp h).elim
  · rw [if_neg hempty] at h
    obtain ⟨rfl, rfl⟩ := pure_eq_ok.mp h
    refine (accounted_paths htexts hs).congr fun sigil placeholder => ?_
    rw [usedIn_append, usedIn_append, usedIn_cons, usedIn_nil, List.append_nil,
      placeholdersIn_intercalate]

end Session

namespace Request

/-- **What a request without raw text yields** uses the placeholders that the request adds, and finds
all placeholders that it uses. -/
theorem accounted_text {request : Request} (hraws : request.raws = []) {start : Aliases}
    {s t : Session} {text : String} (h : request.text s = .ok text t)
    (hs : Accounted start s.aliases before) :
    Accounted start t.aliases (before ++ [text.toList]) := by
  cases request with
  | condition scope e =>
    have haccounted :=
      Session.accounted_folded hraws (fun e' he => Expr.conditionText_emits scope he) h hs
    exact haccounted
  | update scope e =>
    have haccounted :=
      Session.accounted_folded hraws (fun e' he => Expr.updateText_emits scope he) h hs
    exact haccounted
  | keyCondition scope e =>
    obtain ⟨⟨text', index⟩, s₁, hrun, h⟩ := bind_eq_ok.mp h
    obtain ⟨rfl, rfl⟩ := pure_eq_ok.mp h
    have haccounted :=
      Session.accounted_folded hraws (fun e' he => Expr.keyConditionText_emits scope he) hrun hs
    exact haccounted
  | projection scope paths => exact Session.accounted_projection h hs
  | nameAlias name =>
    have haccounted := Session.accounted_onAliases (nameAlias_emits name) h hs
    exact haccounted
  | valueAlias value =>
    have haccounted := Session.accounted_onAliases (valueAlias_emits value) h hs
    exact haccounted
  | placeholders options raw => cases hraws

end Request

/-- What a session sends along with a text: something for each placeholder in the text and for no
others, and for distinct placeholders distinct names, and values that are not the same. -/
structure Session.Closes (t : Session) (text : String) : Prop where
  used_iff : ∀ {sigil placeholder}, placeholder ∈ placeholdersIn sigil text.toList ↔
    placeholder ∈ t.aliases.placeholders sigil
  name_injective : ∀ {p q name}, t.aliases.names.get? p = some name →
    t.aliases.names.get? q = some name → p = q
  value_injective : ∀ {p q value value'}, t.aliases.values.get? p = some value →
    t.aliases.values.get? q = some value' → value.same value' = true → p = q

/-- **What is compiled in a fresh session is closed and carries nothing unused**, if it has no raw
text. -/
theorem Session.closed_text {request : Request} (hraws : request.raws = []) {counter : Nat}
    {text : String} {t : Session} (h : request.text (start counter) = .ok text t) :
    t.Closes text := by
  have haccounted := request.accounted_text hraws h (.refl Aliases.tidy_empty)
  have hused : ∀ sigil, usedIn sigil [text.toList] = placeholdersIn sigil text.toList := fun sigil =>
    List.append_nil _
  have hgrows : Grows Aliases.Generated (start counter) t := by
    have hafter : after request.run (start counter) = t := by
      rw [← Request.after_text, after, h]
    rw [← hafter]
    refine Request.grows (fun raw hraw => ?_) _
    rw [hraws] at hraw
    cases hraw
  have hfaithful : t.aliases.Faithful := Aliases.Grows.faithful hgrows Aliases.faithful_empty
  refine ⟨⟨fun hmem => ?_, fun hmem => ?_⟩, hfaithful.name_injective, hfaithful.value_injective⟩
  · rw [← hused] at hmem
    exact haccounted.tidy.coherent.mem_placeholders (haccounted.found hmem)
  · rw [← hused]
    refine (haccounted.added hmem).resolve_left ?_
    rename_i sigil _
    cases sigil <;> exact List.not_mem_nil

/-- An update that names one attribute twice, counts in it and removes a part of an element. -/
def countingUpdate : Expr :=
  .binary .and
    (.call .set [.member .item "size",
      .binary .add (.call .ifNotExists [.member .item "size", .constant (.int 0)])
        (.constant (.int 1))])
    (.call .remove [.member (.index (.member .item "tags") (.constant (.int 0))) "name"])

set_option maxRecDepth 4000 in
theorem Session.closed_text_countingUpdate :
    (Request.update (.untyped default) countingUpdate).raws = [] ∧
      ∃ t, (Request.update (.untyped default) countingUpdate).text (start 0) =
          .ok "SET #p0 = if_not_exists(#p0, :v0) + :v1 REMOVE tags[0].#p1" t ∧
        t.Closes "SET #p0 = if_not_exists(#p0, :v0) + :v1 REMOVE tags[0].#p1" := by
  have hresult : result? (Request.update (.untyped default) countingUpdate).text (start 0) =
      some "SET #p0 = if_not_exists(#p0, :v0) + :v1 REMOVE tags[0].#p1" := by decide +kernel
  obtain ⟨t, h⟩ := result?_eq_some.mp hresult
  exact ⟨rfl, t, h, closed_text rfl h⟩

end ItemMapper
