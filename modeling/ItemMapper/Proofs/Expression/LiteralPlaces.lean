import ItemMapper.Expression.Compilation
import ItemMapper.Proofs.Agreement
import ItemMapper.Proofs.Expression.Calls
import ItemMapper.Proofs.Expression.Paths

/-!
# Places of literals

A constant that stands beside a member is shaped by what is known of the member: on either side of a
comparison, as a bound, as a candidate by itself or in a list, as the value that the member is set to and
as the default of an `if_not_exists`. Constants that the member shapes to the same attribute value can be
put for one another at each of these places, however deep in a condition or in an update: what is written
is the same, and so are the placeholders.

## Main definitions

* `Value.ShapedAlike`: constants that a hint shapes to the same.
* `Expr.ConditionPlace`, `Expr.ValuePlace`, `Expr.UpdatePlace`: the places.

## Main statements

* `Expr.ConditionPlace.predicate_eq`, `Expr.ConditionPlace.keyConditionText_eq`: at a place in a condition.
* `Expr.UpdatePlace.updateText_eq`: at a place in an update.
-/

namespace ItemMapper

/-- Two constants that a hint shapes to the same attribute value. Neither is a list or a set, which would
be taken apart among the candidates of an IN. -/
structure Value.ShapedAlike (options : CodecOptions) (hint : Hint) (x y : Value) : Prop where
  shaped : Expr.shaped options x hint = Expr.shaped options y hint
  single : x.members? = none
  single' : y.members? = none

namespace Expr

/-- The conditions with a place for a constant that a member shapes. -/
inductive ConditionPlace (member : Expr) : (Value → Expr) → Prop
  | right {op : BinaryOp} (hop : op.isComparison = true) :
      ConditionPlace member fun x => .binary op member (.constant x)
  | left {op : BinaryOp} (hop : op.isComparison = true) :
      ConditionPlace member fun x => .binary op (.constant x) member
  /-- A bound of a BETWEEN, a candidate of an IN that stands by itself, or the prefix of a `begins_with`. -/
  | argument {function : StoreFunction} (hfunction : function ≠ .attributeType ∧ function ≠ .contains)
      (before after : List Expr) :
      ConditionPlace member fun x => .call function (member :: (before ++ .constant x :: after))
  /-- A candidate of an IN in a list or a set. -/
  | listed {collect : List Value → Value} (hcollect : ∀ items, (collect items).members? = some items)
      (before after : List Value) :
      ConditionPlace member fun x =>
        .call .isIn [member, .constant (collect (before ++ x :: after))]
  | negated {K : Value → Expr} (h : ConditionPlace member K) :
      ConditionPlace member fun x => .unary .not (K x)
  | joinedLeft {K : Value → Expr} {op : BinaryOp} (h : ConditionPlace member K)
      (hop : op.isLogical = true) (other : Expr) : ConditionPlace member fun x => .binary op (K x) other
  | joinedRight {K : Value → Expr} {op : BinaryOp} (h : ConditionPlace member K)
      (hop : op.isLogical = true) (other : Expr) : ConditionPlace member fun x => .binary op other (K x)

/-- The values of updates with a place for a constant that the hint `given` shapes, where the value itself
stands beside a hint. -/
inductive ValuePlace (scope : Scope) (given : Hint) : Hint → (Value → Expr) → Prop
  | here : ValuePlace scope given given .constant
  | fallback {hint : Hint} {K : Value → Expr} (target : Expr)
      (h : ValuePlace scope given (.ofType (target.typeOf? scope)) K) :
      ValuePlace scope given hint fun x => .call .ifNotExists [target, K x]
  | termLeft {hint : Hint} {K : Value → Expr} {op : BinaryOp} (h : ValuePlace scope given hint K)
      (hop : op = .add ∨ op = .sub) (other : Expr) :
      ValuePlace scope given hint fun x => .binary op (K x) other
  | termRight {hint : Hint} {K : Value → Expr} {op : BinaryOp} (h : ValuePlace scope given hint K)
      (hop : op = .add ∨ op = .sub) (other : Expr) :
      ValuePlace scope given hint fun x => .binary op other (K x)
  | appendedLeft {hint : Hint} {K : Value → Expr} (h : ValuePlace scope given .plain K) (other : Expr) :
      ValuePlace scope given hint fun x => .call .listAppend [K x, other]
  | appendedRight {hint : Hint} {K : Value → Expr} (h : ValuePlace scope given .plain K) (other : Expr) :
      ValuePlace scope given hint fun x => .call .listAppend [other, K x]

/-- The updates with a place for a constant that the hint `given` shapes. -/
inductive UpdatePlace (scope : Scope) (given : Hint) : (Value → Expr) → Prop
  | set {K : Value → Expr} (target : Expr)
      (h : ValuePlace scope given (.ofType (target.typeOf? scope)) K) :
      UpdatePlace scope given fun x => .call .set [target, K x]
  | joinedLeft {K : Value → Expr} (h : UpdatePlace scope given K) (other : Expr) :
      UpdatePlace scope given fun x => .binary .and (K x) other
  | joinedRight {K : Value → Expr} (h : UpdatePlace scope given K) (other : Expr) :
      UpdatePlace scope given fun x => .binary .and other (K x)

variable {scope : Scope} {member : Expr} {given hint : Hint} {K : Value → Expr} {x y : Value}

theorem operand_constant_eq (h : x.ShapedAlike scope.options hint y) :
    operand scope hint (.constant x) = operand scope hint (.constant y) := by
  rw [operand, operand, constantText, constantText, h.shaped]

/-! ### Conditions -/

section
variable {function : StoreFunction} {first : Expr} {others others' : List Expr}

/-- Two calls of one function on one first argument are written the same if the later arguments are, and
the first one takes the same hint from them. -/
theorem callText_congr {args args' : List Expr} (hargs : spread function args = first :: others)
    (hargs' : spread function args' = first :: others') (hlength : others.length = others'.length)
    (hhead : others.head?.map (Expr.hint scope) = others'.head?.map (Expr.hint scope))
    (hothers : others.mapM (operand scope (argumentHint scope function first)) =
      others'.mapM (operand scope (argumentHint scope function first))) :
    callText scope function args = callText scope function args' := by
  unfold callText
  rw [hargs, hargs']
  dsimp only
  rw [List.length_cons, List.length_cons, hlength, firstText, firstText, hhead, hothers]

/-- One argument among others is written the same. -/
theorem mapM_replaced {f : Expr → AliasM String} {arg arg' : Expr} (h : f arg = f arg')
    (before after : List Expr) :
    (before ++ arg :: after).mapM f = (before ++ arg' :: after).mapM f := by
  rw [List.mapM_append, List.mapM_append, List.mapM_cons, List.mapM_cons, h]

theorem hint_head?_replaced (before after : List Expr) (x y : Value) :
    (before ++ .constant x :: after).head?.map (Expr.hint scope) =
      (before ++ .constant y :: after).head?.map (Expr.hint scope) := by
  cases before <;> rfl

/-- Arguments that stand by themselves are not taken apart. -/
theorem spread_of_single (hx : x.members? = none) (before after : List Expr) :
    spread function (first :: (before ++ .constant x :: after)) =
      first :: (before ++ .constant x :: after) := by
  refine spread_eq_self fun _ value heq _ => ?_
  cases before with
  | nil =>
    cases heq
    exact hx
  | cons arg rest =>
    cases rest <;> cases heq

theorem argumentHint_of_ne (hfunction : function ≠ .attributeType ∧ function ≠ .contains)
    (first : Expr) : argumentHint scope function first = Expr.hint scope first := by
  cases function with
  | attributeType => exact (hfunction.1 rfl).elim
  | contains => exact (hfunction.2 rfl).elim
  | _ => rfl

end

theorem predicate_comparison {op : BinaryOp} (hop : op.isComparison = true) (left right : Expr) :
    predicate scope (.binary op left right) = comparisonText scope op left right := by
  have hlogical : op.isLogical = false := by
    cases op <;> first | rfl | cases hop
  rw [predicate, if_neg (Bool.eq_false_iff.mp hlogical), if_pos hop]

/-- What a place holds does not decide about parentheses. -/
theorem ConditionPlace.groupedBy_eq (h : ConditionPlace member K) (x y : Value) (op : BinaryOp) :
    (K x).groupedBy op = (K y).groupedBy op := by
  cases h <;> rfl

theorem ConditionPlace.groupedByNot_eq (h : ConditionPlace member K) (x y : Value) :
    (K x).groupedByNot = (K y).groupedByNot := by
  cases h <;> rfl

/-- **A condition is written the same with any constant at a place that the member shapes to the same.** -/
theorem ConditionPlace.predicate_eq (h : ConditionPlace member K)
    (hxy : x.ShapedAlike scope.options (Expr.hint scope member) y) :
    predicate scope (K x) = predicate scope (K y) := by
  have hoperand := operand_constant_eq hxy
  have hcall : ∀ {function : StoreFunction} {args args' : List Expr},
      callText scope function args = callText scope function args' →
        predicate scope (.call function args) = predicate scope (.call function args') := by
    intro function args args' hsame
    rw [predicate, predicate, hsame]
    rfl
  induction h with
  | right hop =>
    rw [predicate_comparison hop, predicate_comparison hop, comparisonText, comparisonText, hoperand]
    rfl
  | left hop =>
    rw [predicate_comparison hop, predicate_comparison hop, comparisonText, comparisonText, hoperand]
    rfl
  | argument hfunction before after =>
    refine hcall (callText_congr (spread_of_single hxy.single before after)
      (spread_of_single hxy.single' before after) ?_ (hint_head?_replaced before after x y)
      (mapM_replaced ?_ before after))
    · rw [List.length_append, List.length_append]
      rfl
    · rw [argumentHint_of_ne hfunction, hoperand]
  | @listed collect hcollect before after =>
    have hspread : ∀ z, spread .isIn [member, .constant (collect (before ++ z :: after))] =
        member :: (before.map .constant ++ .constant z :: after.map .constant) := by
      intro z
      rw [spread_of_members (by rfl) (hcollect _), List.map_append, List.map_cons]
    refine hcall (callText_congr (hspread x) (hspread y) ?_ (hint_head?_replaced _ _ x y)
      (mapM_replaced hoperand _ _))
    rw [List.length_append, List.length_append]
    rfl
  | negated hK ih =>
    rw [predicate, predicate, hK.groupedByNot_eq x y, ih]
  | joinedLeft hK hop other ih =>
    rw [predicate, predicate, if_pos hop, if_pos hop, hK.groupedBy_eq x y, ih]
  | joinedRight hK hop other ih =>
    rw [predicate, predicate, if_pos hop, if_pos hop, hK.groupedBy_eq x y, ih]

theorem ConditionPlace.conditionText_eq (h : ConditionPlace member K)
    (hxy : x.ShapedAlike scope.options (Expr.hint scope member) y) :
    conditionText scope (K x) = conditionText scope (K y) := by
  have hself : ∀ z, conditionText scope (K z) = predicate scope (K z) := by
    intro z
    cases h <;> rfl
  rw [hself, hself, h.predicate_eq hxy]

/-! ### Key conditions -/

theorem keyMembers_append (members : List KeyMember) (conjuncts others : List Expr) :
    keyMembers scope members (conjuncts ++ others) = (do
      let found ← keyMembers scope members conjuncts
      keyMembers scope found others) := by
  induction conjuncts generalizing members with
  | nil => rfl
  | cons conjunct rest ih =>
    rw [List.cons_append, keyMembers, keyMembers, bind_assoc]
    refine bind_congr fun found => ?_
    cases found with
    | none => exact ih members
    | some found => exact ih _

theorem isLogical_cases {op : BinaryOp} (hop : op.isLogical = true) : op = .and ∨ op = .or := by
  cases op with
  | and => exact .inl rfl
  | or => exact .inr rfl
  | _ => cases hop

/-- A key condition speaks of the same members whatever stands at a place. -/
theorem ConditionPlace.keyMembers_eq (h : ConditionPlace member K) (x y : Value)
    (members : List KeyMember) :
    keyMembers scope members (K x).conjuncts = keyMembers scope members (K y).conjuncts := by
  have hsingle : ∀ e e' : Expr, keyMemberOf scope e = keyMemberOf scope e' →
      ∀ members, keyMembers scope members [e] = keyMembers scope members [e'] := by
    intro e e' hsame members
    rw [keyMembers, keyMembers, hsame]
    rfl
  induction h generalizing members with
  | @right op hop | @left op hop =>
    have hself : ∀ left right : Expr,
        (Expr.binary op left right).conjuncts = [.binary op left right] := by
      refine fun left right => conjuncts_eq_self fun _ _ heq => ?_
      cases heq
      cases hop
    rw [hself, hself]
    exact hsingle _ _ rfl members
  | argument _ _ _ | listed _ _ _ | negated _ => exact hsingle _ _ rfl members
  | joinedLeft _ hop other ih =>
    rcases isLogical_cases hop with rfl | rfl
    · rw [conjuncts, conjuncts, keyMembers_append, keyMembers_append, ih]
    · exact hsingle _ _ rfl members
  | joinedRight _ hop other ih =>
    rcases isLogical_cases hop with rfl | rfl
    · rw [conjuncts, conjuncts, keyMembers_append, keyMembers_append]
      exact bind_congr ih
    · exact hsingle _ _ rfl members

/-- **So is a key condition, and the index that it is for.** -/
theorem ConditionPlace.keyConditionText_eq (h : ConditionPlace member K)
    (hxy : x.ShapedAlike scope.options (Expr.hint scope member) y) :
    keyConditionText scope (K x) = keyConditionText scope (K y) := by
  rw [keyConditionText, keyConditionText, h.keyMembers_eq x y, h.conditionText_eq hxy]

/-! ### Updates -/

theorem type_of_guardedPath {target : Expr} {a b : Aliases} {path : Path}
    (h : guardedPath scope target a = .ok path b) : path.type = target.typeOf? scope := by
  rw [guardedPath] at h
  split at h
  · exact (path_known h).1
  · cases h

/-- One value among others is written the same. -/
theorem setValues_replaced {value value' : Expr}
    (h : setValue scope hint value = setValue scope hint value') (before after : List Expr) :
    setValues scope hint (before ++ value :: after) =
      setValues scope hint (before ++ value' :: after) := by
  induction before with
  | nil => rw [List.nil_append, List.nil_append, setValues, setValues, h]
  | cons first rest ih => rw [List.cons_append, List.cons_append, setValues, setValues, ih]

/-- **The value of an update is written the same.** -/
theorem ValuePlace.setValue_eq (h : ValuePlace scope given hint K)
    (hxy : x.ShapedAlike scope.options given y) :
    setValue scope hint (K x) = setValue scope hint (K y) := by
  induction h with
  | here => exact operand_constant_eq hxy
  | fallback target _ ih =>
    rw [setValue, setValue]
    refine congrArg _ (funext fun _ => ?_)
    rw [ifNotExistsText, ifNotExistsText]
    refine bind_congr_of_ok fun a path b hpath => ?_
    have hvalues := setValues_replaced ih [] []
    rw [List.nil_append, List.nil_append] at hvalues
    rw [type_of_guardedPath hpath, hvalues]
  | termLeft _ hop other ih =>
    rw [setValue, setValue, if_pos hop, if_pos hop, ih]
  | termRight _ hop other ih =>
    rw [setValue, setValue, if_pos hop, if_pos hop, ih]
  | appendedLeft _ other ih =>
    have hvalues := setValues_replaced ih [] [other]
    rw [List.nil_append, List.nil_append] at hvalues
    rw [setValue, setValue, hvalues]
    rfl
  | appendedRight _ other ih =>
    have hvalues := setValues_replaced ih [other] []
    rw [List.singleton_append, List.singleton_append] at hvalues
    rw [setValue, setValue, hvalues]
    rfl

/-- The action that sets a member is written the same. -/
theorem ValuePlace.actionText_eq {target : Expr}
    (h : ValuePlace scope given (.ofType (target.typeOf? scope)) K)
    (hxy : x.ShapedAlike scope.options given y) :
    actionText scope .set [target, K x] = actionText scope .set [target, K y] := by
  unfold actionText
  refine congrArg _ (funext fun _ => ?_)
  dsimp only
  split
  · refine bind_congr_of_ok fun a path b hpath => ?_
    rw [(path_known hpath).1, actionValues, actionValues, List.mapM_cons, List.mapM_cons,
      h.setValue_eq hxy]
  · rfl

theorem addActions_append (text : List Char) (actions others : List Expr) :
    addActions scope text (actions ++ others) = (do
      let text ← addActions scope text actions
      addActions scope text others) := by
  induction actions generalizing text with
  | nil => rfl
  | cons action rest ih =>
    rw [List.cons_append, addActions, addActions, bind_assoc]
    exact bind_congr ih

theorem UpdatePlace.addActions_eq (h : UpdatePlace scope given K)
    (hxy : x.ShapedAlike scope.options given y) (text : List Char) :
    addActions scope text (K x).conjuncts = addActions scope text (K y).conjuncts := by
  induction h generalizing text with
  | @set K target hvalue =>
    have haction : addAction scope text (.call .set [target, K x]) =
        addAction scope text (.call .set [target, K y]) := by
      unfold addAction
      dsimp only [StoreFunction.verb?]
      rw [hvalue.actionText_eq hxy]
    change addActions scope text [_] = addActions scope text [_]
    rw [addActions, haction, addActions]
  | joinedLeft _ other ih => rw [conjuncts, conjuncts, addActions_append, addActions_append, ih]
  | joinedRight _ other ih =>
    rw [conjuncts, conjuncts, addActions_append, addActions_append]
    exact bind_congr ih

/-- **An update is written the same with any constant at a place that is shaped to the same.** -/
theorem UpdatePlace.updateText_eq (h : UpdatePlace scope given K)
    (hxy : x.ShapedAlike scope.options given y) : updateText scope (K x) = updateText scope (K y) := by
  rw [updateText, updateText, h.addActions_eq hxy]

end Expr

end ItemMapper
