import ItemMapper.Proofs.Expression.Folding

/-!
# What folding keeps

An expression that is a condition has a truth value on every item. AND, OR and NOT join truth values, a
conditional takes its branch by its test, and the truth value of every other node, an atom, is that of the
thing that it stands for; what atoms stand for is left to an arbitrary interpretation, which so gives any
truth values to them. Only constants are computed: an atom without the item is its value, and inside an
atom every part that is known is its value, a conditional with a known test is the branch it chooses, and
a logical operator with one known side is the other side.

Deferred values are computed as they come, each at most once, and may depend on what was computed before.
So the meaning of an expression is that of the expression with the values that were computed in their
places; of those that were not computed nothing is known.

Folding keeps this truth value, under every interpretation.

## Main definitions

* `Expr.known?`: the value of an expression that does not depend on the item.
* `Interpretation`: what the parts of an expression stand for on an item.
* `Expr.denote`: what an expression stands for.
* `Expr.truth`: the truth value of an expression.
* `Expr.Answered`: the expression with deferred values computed.

## Main statements

* `Expr.truth_fold`: **a folded expression has the same truth value.**
-/

namespace ItemMapper

namespace Value

/-- The value of a logical operator by one of its sides alone. -/
def settles? (op : BinaryOp) (side : Value) : Option Value :=
  match op, side.asBool? with
  | .and, some false => some (.bool false)
  | .or, some true => some (.bool true)
  | _, _ => none

/-- The value of an operator, as far as its sides are known. -/
def knownBinary? (op : BinaryOp) : Option Value → Option Value → Option Value
  | some left, some right => (applyBinary op left right).toOption
  | some side, none | none, some side => settles? op side
  | none, none => none

theorem settles?_eq_none {op : BinaryOp} (h : op.isLogical = false) (side : Value) :
    settles? op side = none := by
  cases op with
  | and | or => cases h
  | _ => rfl

theorem settles?_eq {op : BinaryOp} (hop : op.isLogical = true) {side : Value} {b : Bool}
    (hb : side.asBool? = some b) :
    settles? op side = if op.isSettledBy b then some (.bool b) else none := by
  unfold settles?
  rw [hb]
  cases op with
  | and | or => cases b <;> rfl
  | _ => cases hop

/-- A logical operator with a truth value on the left. -/
theorem logical_left {op : BinaryOp} (hop : op.isLogical = true) (b c : Bool) :
    logical op b c = if op.isSettledBy b then b else c := by
  cases op with
  | and | or => cases b <;> rfl
  | _ => cases hop

/-- A logical operator with a truth value on the right. -/
theorem logical_right {op : BinaryOp} (hop : op.isLogical = true) (c b : Bool) :
    logical op c b = if op.isSettledBy b then b else c := by
  cases op with
  | and | or => cases b <;> cases c <;> rfl
  | _ => cases hop

/-- An operator that is not logical is not known by one side. -/
theorem knownBinary?_eq_none_of_left {op : BinaryOp} (h : op.isLogical = false)
    (left : Option Value) : knownBinary? op left none = none := by
  cases left with
  | none => rfl
  | some side => exact settles?_eq_none h side

theorem knownBinary?_eq_none_of_right {op : BinaryOp} (h : op.isLogical = false)
    (right : Option Value) : knownBinary? op none right = none := by
  cases right with
  | none => rfl
  | some side => exact settles?_eq_none h side

theorem applyUnary_not {value result : Value} (h : applyUnary .not value = .ok result) :
    ∃ b, value.asBool? = some b ∧ result = .bool !b := by
  unfold applyUnary at h
  dsimp only at h
  split at h
  · rename_i b hb
    exact ⟨b, hb, (Except.ok.inj h).symm⟩
  · cases h

/-- A logical operator is computed of two truth values. -/
theorem applyBinary_logical {op : BinaryOp} (hop : op.isLogical = true) {left right result : Value}
    (h : applyBinary op left right = .ok result) :
    ∃ b c, left.asBool? = some b ∧ right.asBool? = some c ∧ result = .bool (logical op b c) := by
  cases op with
  | and | or =>
    unfold applyBinary at h
    dsimp only at h
    split at h
    · rename_i b c hb hc
      exact ⟨b, c, hb, hc, (Except.ok.inj h).symm⟩
    · cases h
  | _ => cases hop

end Value

namespace Expr

/-- The value of an expression that depends neither on the item nor on calls, raw text and values that
are not computed yet, or does so only where this does not matter. -/
def known? : Expr → Option Value
  | .constant value => some value
  | .member parent name => parent.known?.bind fun value => (value.member name).toOption
  | .index parent position =>
    parent.known?.bind fun value => position.known?.bind fun key => (value.element key).toOption
  | .binary op left right => Value.knownBinary? op left.known? right.known?
  | .unary op operand => operand.known?.bind fun value => (Value.applyUnary op value).toOption
  | .conditional test thenBranch elseBranch =>
    match test.known?.bind Value.asBool? with
    | some true => thenBranch.known?
    | some false => elseBranch.known?
    | none => none
  | .enumConvert operand type => operand.known?.bind fun value => (Value.toEnum type value).toOption
  | _ => none

end Expr

/-- What the parts of an expression stand for on an item. Nothing is asked of it: the parts that depend
on the item may stand for anything, and any of these things may be true. -/
structure Interpretation where
  Thing : Type
  constant : Value → Thing
  item : Thing
  raw : RawExpression → Thing
  deferred : Deferral → Thing
  member : Thing → String → Thing
  element : Thing → Thing → Thing
  binary : BinaryOp → Thing → Thing → Thing
  unary : UnaryOp → Thing → Thing
  call : StoreFunction → List Thing → Thing
  conditional : Thing → Thing → Thing → Thing
  enumConvert : Thing → EnumType → Thing
  /-- Whether what an atom stands for is true. -/
  isTrue : Thing → Bool

namespace Interpretation

/-- A value if it is known, and otherwise something else. -/
def knownOr (I : Interpretation) (known : Option Value) (thing : I.Thing) : I.Thing :=
  (known.map I.constant).getD thing

/-- What an operator stands for whose value is not known: the other side of a known one, if the operator is
logical. -/
def joined (I : Interpretation) (op : BinaryOp) (left right : Option Value) (x y : I.Thing) : I.Thing :=
  match op.isLogical, left, right with
  | true, some _, none => y
  | true, none, some _ => x
  | _, _, _ => I.binary op x y

/-- The truth value of a value; one that is no truth value may count as either. -/
def valueIsTrue (I : Interpretation) (value : Value) : Bool :=
  value.asBool?.getD (I.isTrue (I.constant value))

end Interpretation

namespace Expr

variable (I : Interpretation)

mutual
/-- What an expression stands for in the place of an operand. -/
def denote : Expr → I.Thing
  | .item => I.item
  | .constant value => I.constant value
  | .raw text => I.raw text
  | .deferred compute => I.deferred compute
  | .member parent name =>
    I.knownOr (known? (.member parent name)) (I.member (denote parent) name)
  | .index parent position =>
    I.knownOr (known? (.index parent position)) (I.element (denote parent) (denote position))
  | .binary op left right =>
    I.knownOr (known? (.binary op left right))
      (I.joined op left.known? right.known? (denote left) (denote right))
  | .unary op operand => I.knownOr (known? (.unary op operand)) (I.unary op (denote operand))
  | .call function args => I.call function (denoteAll args)
  | .conditional test thenBranch elseBranch =>
    match test.known?.bind Value.asBool? with
    | some true => denote thenBranch
    | some false => denote elseBranch
    | none => I.conditional (denote test) (denote thenBranch) (denote elseBranch)
  | .enumConvert operand type =>
    I.knownOr (known? (.enumConvert operand type)) (I.enumConvert (denote operand) type)

/-- What several expressions stand for. -/
def denoteAll : List Expr → List I.Thing
  | [] => []
  | arg :: rest => denote arg :: denoteAll rest
end

/-- The truth value of an atom. -/
def atomIsTrue (atom : Expr) : Bool :=
  match atom.known? with
  | some value => I.valueIsTrue value
  | none => I.isTrue (atom.denote I)

/-- The truth value of an expression. -/
def truth : Expr → Bool
  | .binary .and left right => left.truth && right.truth
  | .binary .or left right => left.truth || right.truth
  | .unary .not operand => !operand.truth
  | .conditional test thenBranch elseBranch => if test.truth then thenBranch.truth else elseBranch.truth
  | atom => atomIsTrue I atom

/-- An expression with some of its deferred values computed, each at most once and from the left to the
right, and with the numbers that the application keeps before and after that. -/
inductive Answered : Expr → Nat → Expr → Nat → Prop
  /-- Nothing is computed. -/
  | unasked (e : Expr) (n : Nat) : Answered e n e n
  | deferred {compute : Deferral} {value : Value} {n k : Nat} (h : compute n = .ok value k) :
      Answered (.deferred compute) n (.constant value) k
  | member {parent parent' : Expr} {n k : Nat} (h : Answered parent n parent' k) (name : String) :
      Answered (.member parent name) n (.member parent' name) k
  | index {parent parent' position position' : Expr} {n m k : Nat}
      (hparent : Answered parent n parent' m) (hposition : Answered position m position' k) :
      Answered (.index parent position) n (.index parent' position') k
  | binary (op : BinaryOp) {left left' right right' : Expr} {n m k : Nat}
      (hleft : Answered left n left' m) (hright : Answered right m right' k) :
      Answered (.binary op left right) n (.binary op left' right') k
  | unary (op : UnaryOp) {operand operand' : Expr} {n k : Nat} (h : Answered operand n operand' k) :
      Answered (.unary op operand) n (.unary op operand') k
  | call (function : StoreFunction) {args args' : List Expr} {n k : Nat}
      (h : Row Answered args n args' k) : Answered (.call function args) n (.call function args') k
  | conditional {test test' thenBranch thenBranch' elseBranch elseBranch' : Expr} {n m l k : Nat}
      (htest : Answered test n test' m) (hthen : Answered thenBranch m thenBranch' l)
      (helse : Answered elseBranch l elseBranch' k) :
      Answered (.conditional test thenBranch elseBranch) n
        (.conditional test' thenBranch' elseBranch') k
  | enumConvert {operand operand' : Expr} {n k : Nat} (h : Answered operand n operand' k)
      (type : EnumType) : Answered (.enumConvert operand type) n (.enumConvert operand' type) k

/-- Two expressions that mean the same wherever they stand. -/
structure Agrees (e e' : Expr) : Prop where
  known : e.known? = e'.known?
  denote : ∀ I, e.denote I = e'.denote I
  truth : ∀ I, e.truth I = e'.truth I

variable {I}

theorem atomIsTrue_congr {e e' : Expr} (hknown : e.known? = e'.known?)
    (hdenote : e.denote I = e'.denote I) : atomIsTrue I e = atomIsTrue I e' := by
  rw [atomIsTrue, atomIsTrue, hknown, hdenote]

/-- What is known stands for its value. -/
theorem denote_of_known? :
    ∀ {e : Expr} {value : Value}, e.known? = some value → e.denote I = I.constant value
  | .constant _, _, h => congrArg I.constant (Option.some.inj h)
  | .member _ _, _, h | .index _ _, _, h | .binary _ _ _, _, h | .unary _ _, _, h
  | .enumConvert _ _, _, h => congrArg (I.knownOr · _) h
  | .conditional test thenBranch elseBranch, value, h => by
    rw [known?] at h
    rw [denote]
    split at h
    · rw [denote_of_known? h]
    · rw [denote_of_known? h]
    · cases h

theorem valueIsTrue_of_asBool? {value : Value} {b : Bool} (h : value.asBool? = some b) :
    I.valueIsTrue value = b := by
  rw [Interpretation.valueIsTrue, h, Option.getD_some]

namespace Agrees

variable {e e' e'' parent parent' position position' left left' right right' operand operand' test test'
  thenBranch thenBranch' elseBranch elseBranch' : Expr}

theorem refl (e : Expr) : Agrees e e := ⟨rfl, fun _ => rfl, fun _ => rfl⟩

theorem trans (h : Agrees e e') (h' : Agrees e' e'') : Agrees e e'' :=
  ⟨h.known.trans h'.known, fun I => (h.denote I).trans (h'.denote I),
    fun I => (h.truth I).trans (h'.truth I)⟩

/-- Expressions whose truth values are those of atoms agree if they stand for the same. -/
theorem ofAtoms (hatom : ∀ I, e.truth I = atomIsTrue I e) (hatom' : ∀ I, e'.truth I = atomIsTrue I e')
    (hknown : e.known? = e'.known?) (hdenote : ∀ I, e.denote I = e'.denote I) : Agrees e e' :=
  ⟨hknown, hdenote, fun I => by rw [hatom, hatom', atomIsTrue_congr hknown (hdenote I)]⟩

/-! ### Nodes over parts that agree -/

theorem member (h : Agrees parent parent') (name : String) :
    Agrees (.member parent name) (.member parent' name) := by
  have hknown : (Expr.member parent name).known? = (Expr.member parent' name).known? :=
    congrArg (Option.bind · fun value : Value => (value.member name).toOption) h.known
  exact ofAtoms (fun _ => rfl) (fun _ => rfl) hknown fun I =>
    congrArg₂ I.knownOr hknown (congrArg (I.member · name) (h.denote I))

theorem index (hparent : Agrees parent parent') (hposition : Agrees position position') :
    Agrees (.index parent position) (.index parent' position') := by
  have hknown : (Expr.index parent position).known? = (Expr.index parent' position').known? :=
    congrArg₂ (fun value? key? => value?.bind fun value => key?.bind fun key =>
      (value.element key).toOption) hparent.known hposition.known
  exact ofAtoms (fun _ => rfl) (fun _ => rfl) hknown fun I =>
    congrArg₂ I.knownOr hknown (congrArg₂ I.element (hparent.denote I) (hposition.denote I))

theorem binary (op : BinaryOp) (hleft : Agrees left left') (hright : Agrees right right') :
    Agrees (.binary op left right) (.binary op left' right') := by
  have hknown : (Expr.binary op left right).known? = (Expr.binary op left' right').known? :=
    congrArg₂ (Value.knownBinary? op) hleft.known hright.known
  have hjoined : ∀ I : Interpretation,
      I.joined op left.known? right.known? (left.denote I) (right.denote I) =
        I.joined op left'.known? right'.known? (left'.denote I) (right'.denote I) := by
    intro I
    rw [hleft.known, hright.known, hleft.denote, hright.denote]
  have hdenote : ∀ I, (Expr.binary op left right).denote I = (Expr.binary op left' right').denote I :=
    fun I => congrArg₂ I.knownOr hknown (hjoined I)
  refine ⟨hknown, hdenote, fun I => ?_⟩
  cases op with
  | and => exact congrArg₂ and (hleft.truth I) (hright.truth I)
  | or => exact congrArg₂ or (hleft.truth I) (hright.truth I)
  | _ => exact atomIsTrue_congr hknown (hdenote I)

theorem unary (op : UnaryOp) (h : Agrees operand operand') :
    Agrees (.unary op operand) (.unary op operand') := by
  have hknown : (Expr.unary op operand).known? = (Expr.unary op operand').known? :=
    congrArg (Option.bind · fun value => (Value.applyUnary op value).toOption) h.known
  have hdenote : ∀ I, (Expr.unary op operand).denote I = (Expr.unary op operand').denote I :=
    fun I => congrArg₂ I.knownOr hknown (congrArg (I.unary op) (h.denote I))
  refine ⟨hknown, hdenote, fun I => ?_⟩
  cases op with
  | not => exact congrArg not (h.truth I)
  | negate => exact atomIsTrue_congr hknown (hdenote I)

theorem call (function : StoreFunction) {args args' : List Expr}
    (h : ∀ I, denoteAll I args = denoteAll I args') :
    Agrees (.call function args) (.call function args') :=
  ofAtoms (fun _ => rfl) (fun _ => rfl) rfl fun I => congrArg (I.call function) (h I)

theorem conditional (htest : Agrees test test') (hthen : Agrees thenBranch thenBranch')
    (helse : Agrees elseBranch elseBranch') :
    Agrees (.conditional test thenBranch elseBranch) (.conditional test' thenBranch' elseBranch') where
  known := by rw [known?, known?, htest.known, hthen.known, helse.known]
  denote I := by
    rw [Expr.denote, Expr.denote, htest.known, htest.denote, hthen.denote, helse.denote]
  truth I := by rw [Expr.truth, Expr.truth, htest.truth, hthen.truth, helse.truth]

theorem enumConvert (h : Agrees operand operand') (type : EnumType) :
    Agrees (.enumConvert operand type) (.enumConvert operand' type) := by
  have hknown : (Expr.enumConvert operand type).known? = (Expr.enumConvert operand' type).known? :=
    congrArg (Option.bind · fun value => (Value.toEnum type value).toOption) h.known
  exact ofAtoms (fun _ => rfl) (fun _ => rfl) hknown fun I =>
    congrArg₂ I.knownOr hknown (congrArg (I.enumConvert · type) (h.denote I))

/-- A conditional agrees with the branch that a constant test chooses. -/
theorem chosen {value : Value} {b : Bool} (htest : Agrees test (.constant value))
    (hb : value.asBool? = some b) (thenBranch elseBranch : Expr) :
    Agrees (.conditional test thenBranch elseBranch) (if b then thenBranch else elseBranch) := by
  have hbind : test.known?.bind Value.asBool? = some b := by
    rw [htest.known]
    exact hb
  have htruth : ∀ I, test.truth I = b := fun I => (htest.truth I).trans (valueIsTrue_of_asBool? hb)
  cases b with
  | true =>
    refine ⟨by rw [known?, hbind]; rfl, fun I => by rw [Expr.denote, hbind]; rfl, fun I => ?_⟩
    rw [Expr.truth, htruth]
    rfl
  | false =>
    refine ⟨by rw [known?, hbind]; rfl, fun I => by rw [Expr.denote, hbind]; rfl, fun I => ?_⟩
    rw [Expr.truth, htruth]
    rfl

end Agrees

/-! ### Steps over folded parts -/

/-- What is folded to no constant is not known. -/
theorem IsFolded.known?_eq_none :
    ∀ {e : Expr}, e.IsFolded → e.isConstant = false → e.known? = none
  | .item, _, _ | .raw _, _, _ | .call _ _, _, _ | .deferred _, _, _ => rfl
  | .member _ _, h, _ => by
    obtain ⟨hself, hparent⟩ := isFolded_member.mp h
    rw [known?, hparent.known?_eq_none hself, Option.bind_none]
  | .index parent position, h, _ => by
    obtain ⟨hself, hparent, hposition⟩ := isFolded_index.mp h
    rw [known?]
    by_cases hconstant : parent.isConstant = true
    · have hother : position.isConstant = false := by rwa [isReducible, hconstant, Bool.true_and] at hself
      rw [hposition.known?_eq_none hother]
      exact Option.bind_fun_none _
    · rw [hparent.known?_eq_none (eq_false_of_ne_true hconstant), Option.bind_none]
  | .binary op left right, h, _ => by
    obtain ⟨hself, hleft, hright⟩ := isFolded_binary.mp h
    obtain ⟨hboth, hone⟩ := Bool.or_eq_false_iff.mp hself
    rw [known?]
    by_cases hleftc : left.isConstant = true
    · rw [hleftc, Bool.true_or, Bool.and_true] at hone
      rw [hleftc, Bool.true_and] at hboth
      rw [hright.known?_eq_none hboth]
      exact Value.knownBinary?_eq_none_of_left hone _
    · have hleftc := eq_false_of_ne_true hleftc
      rw [hleft.known?_eq_none hleftc]
      by_cases hrightc : right.isConstant = true
      · rw [hrightc, Bool.or_true, Bool.and_true] at hone
        exact Value.knownBinary?_eq_none_of_right hone _
      · rw [hright.known?_eq_none (eq_false_of_ne_true hrightc)]
        rfl
  | .unary _ _, h, _ => by
    obtain ⟨hself, hoperand⟩ := isFolded_unary.mp h
    rw [known?, hoperand.known?_eq_none hself, Option.bind_none]
  | .conditional _ _ _, h, _ => by
    obtain ⟨hself, htest, -, -⟩ := isFolded_conditional.mp h
    rw [known?, htest.known?_eq_none hself]
    rfl
  | .enumConvert _ _, h, _ => by
    obtain ⟨hself, hoperand⟩ := isFolded_enumConvert.mp h
    rw [known?, hoperand.known?_eq_none hself, Option.bind_none]

namespace Agrees

variable {e parent position left right operand : Expr}

/-- What a node that is computed agrees with, if its truth value is that of an atom. -/
theorem ofKnown {value : Value} (hatom : ∀ I, e.truth I = atomIsTrue I e)
    (hknown : e.known? = some value) : Agrees e (.constant value) :=
  ofAtoms hatom (fun _ => rfl) hknown fun _ => denote_of_known? hknown

theorem foldMember {name : String} (h : foldMember parent name = .ok e) :
    Agrees (.member parent name) e := by
  rcases foldMember_cases h with ⟨value, result, rfl, hresult, rfl⟩ | ⟨-, rfl⟩
  · have hknown : (Expr.member (.constant value) name).known? = some result :=
      except_toOption_eq_some.mpr hresult
    exact ofKnown (fun _ => rfl) hknown
  · exact refl _

theorem foldIndex (h : foldIndex parent position = .ok e) : Agrees (.index parent position) e := by
  rcases foldIndex_cases h with ⟨value, key, result, rfl, rfl, hresult, rfl⟩ | ⟨-, rfl⟩
  · have hknown : (Expr.index (.constant value) (.constant key)).known? = some result :=
      except_toOption_eq_some.mpr hresult
    exact ofKnown (fun _ => rfl) hknown
  · exact refl _

theorem foldEnumConvert {type : EnumType} (h : foldEnumConvert operand type = .ok e) :
    Agrees (.enumConvert operand type) e := by
  rcases foldEnumConvert_cases h with ⟨value, result, rfl, hresult, rfl⟩ | ⟨-, rfl⟩
  · have hknown : (Expr.enumConvert (.constant value) type).known? = some result :=
      except_toOption_eq_some.mpr hresult
    exact ofKnown (fun _ => rfl) hknown
  · exact refl _

theorem foldUnary {op : UnaryOp} (h : foldUnary op operand = .ok e) : Agrees (.unary op operand) e := by
  rcases foldUnary_cases h with ⟨value, result, rfl, hresult, rfl⟩ | ⟨-, rfl⟩
  · have hknown : (Expr.unary op (.constant value)).known? = some result :=
      except_toOption_eq_some.mpr hresult
    cases op with
    | negate => exact ofKnown (fun _ => rfl) hknown
    | not =>
      refine ⟨hknown, fun I => denote_of_known? hknown, fun I => ?_⟩
      obtain ⟨b, hb, rfl⟩ := Value.applyUnary_not hresult
      change (!I.valueIsTrue value) = !b
      rw [valueIsTrue_of_asBool? hb]
  · exact refl _

/-- The truth value of a logical operator is that of the operator on the truth values of the sides. -/
theorem truth_binary {op : BinaryOp} (hop : op.isLogical = true) (left right : Expr) :
    (Expr.binary op left right).truth I = Value.logical op (left.truth I) (right.truth I) := by
  cases op with
  | and | or => rfl
  | _ => cases hop

/-- A logical operator with a constant on one side, the other side being folded to no constant. -/
theorem foldLogical {op : BinaryOp} (hop : op.isLogical = true) {value : Value} {b : Bool} {other : Expr}
    (hb : value.asBool? = some b) (hother : other.known? = none)
    (hsides : left = .constant value ∧ right = other ∨ left = other ∧ right = .constant value) :
    Agrees (.binary op left right) (if op.isSettledBy b then .constant (.bool b) else other) := by
  have hknown : (Expr.binary op left right).known? =
      if op.isSettledBy b then some (.bool b) else none := by
    rw [← Value.settles?_eq hop hb, known?]
    rcases hsides with ⟨rfl, rfl⟩ | ⟨rfl, rfl⟩ <;> rw [hother] <;> rfl
  have htruth : ∀ I, (Expr.binary op left right).truth I =
      if op.isSettledBy b then b else other.truth I := by
    intro I
    have hvalue : (Expr.constant value).truth I = b := valueIsTrue_of_asBool? hb
    rw [truth_binary hop]
    rcases hsides with ⟨rfl, rfl⟩ | ⟨rfl, rfl⟩ <;> rw [hvalue]
    · exact Value.logical_left hop b _
    · exact Value.logical_right hop _ b
  have hjoined : ∀ I, I.joined op left.known? right.known? (left.denote I) (right.denote I) =
      other.denote I := by
    intro I
    unfold Interpretation.joined
    rcases hsides with ⟨rfl, rfl⟩ | ⟨rfl, rfl⟩ <;> simp only [hop, hother, known?]
  split at hknown
  · rename_i hsettled
    rw [if_pos hsettled]
    refine ⟨hknown, fun I => denote_of_known? hknown, fun I => ?_⟩
    rw [htruth, if_pos hsettled]
    rfl
  · rename_i hopen
    rw [if_neg hopen]
    refine ⟨hknown.trans hother.symm, fun I => ?_, fun I => by rw [htruth, if_neg hopen]⟩
    exact congrArg₂ I.knownOr hknown (hjoined I)

theorem foldBinary {op : BinaryOp} (hleft : left.IsFolded) (hright : right.IsFolded)
    (h : foldBinary op left right = .ok e) : Agrees (.binary op left right) e := by
  rcases foldBinary_cases h with ⟨x, y, result, rfl, rfl, hresult, rfl⟩ |
    ⟨value, b, other, hop, hb, hother, hsides, rfl⟩ | ⟨-, rfl⟩
  · have hknown : (Expr.binary op (.constant x) (.constant y)).known? = some result :=
      except_toOption_eq_some.mpr hresult
    by_cases hop : op.isLogical = true
    · refine ⟨hknown, fun I => denote_of_known? hknown, fun I => ?_⟩
      obtain ⟨b, c, hb, hc, rfl⟩ := Value.applyBinary_logical hop hresult
      rw [truth_binary hop]
      change Value.logical op (I.valueIsTrue x) (I.valueIsTrue y) = _
      rw [valueIsTrue_of_asBool? hb, valueIsTrue_of_asBool? hc]
      rfl
    · refine ofKnown (fun I => ?_) hknown
      cases op with
      | and | or => exact absurd rfl hop
      | _ => rfl
  · refine foldLogical hop hb ?_ hsides
    rcases hsides with ⟨-, rfl⟩ | ⟨rfl, -⟩
    · exact hright.known?_eq_none hother
    · exact hleft.known?_eq_none hother
  · exact refl _

end Agrees

/-! ### The whole folding -/

/-- What is folded agrees with the expression whose deferred values have been computed. -/
def KeepsMeaning (e : Expr) (n : Nat) (e' : Expr) (k : Nat) : Prop :=
  e'.IsFolded ∧ ∃ answered, Answered e n answered k ∧ Agrees answered e'

theorem Row.keepsMeaning {args args' : List Expr} {n k : Nat} (h : Row KeepsMeaning args n args' k) :
    AllFolded args' ∧ ∃ answered, Row Answered args n answered k ∧
      ∀ I, denoteAll I answered = denoteAll I args' := by
  induction h with
  | nil n => exact ⟨nofun, [], .nil n, fun _ => rfl⟩
  | cons harg _ ih =>
    obtain ⟨hfolded, answered, hanswered, hagrees⟩ := harg
    obtain ⟨hall, others, hothers, hdenote⟩ := ih
    refine ⟨allFolded_cons.mpr ⟨hfolded, hall⟩, answered :: others, .cons hanswered hothers,
      fun I => ?_⟩
    rw [denoteAll, denoteAll, hagrees.denote, hdenote]

theorem keptByFolding_keepsMeaning : KeptByFolding KeepsMeaning where
  item n := ⟨isFolded_item, _, .unasked _ n, .refl _⟩
  constant value n := ⟨isFolded_constant value, _, .unasked _ n, .refl _⟩
  raw text n := ⟨isFolded_raw text, _, .unasked _ n, .refl _⟩
  deferred h := ⟨isFolded_constant _, _, .deferred h, .refl _⟩
  member hparent h := by
    obtain ⟨hfolded, answered, hanswered, hagrees⟩ := hparent
    exact ⟨hfolded.of_foldMember h, _, hanswered.member _,
      (hagrees.member _).trans (.foldMember h)⟩
  index hparent hposition h := by
    obtain ⟨hfolded, _, hanswered, hagrees⟩ := hparent
    obtain ⟨hfolded', _, hanswered', hagrees'⟩ := hposition
    exact ⟨hfolded.of_foldIndex hfolded' h, _, hanswered.index hanswered',
      (hagrees.index hagrees').trans (.foldIndex h)⟩
  binary hleft hright h := by
    obtain ⟨hfolded, _, hanswered, hagrees⟩ := hleft
    obtain ⟨hfolded', _, hanswered', hagrees'⟩ := hright
    exact ⟨hfolded.of_foldBinary hfolded' h, _, hanswered.binary _ hanswered',
      (hagrees.binary _ hagrees').trans (.foldBinary hfolded hfolded' h)⟩
  unary hoperand h := by
    obtain ⟨hfolded, _, hanswered, hagrees⟩ := hoperand
    exact ⟨hfolded.of_foldUnary h, _, hanswered.unary _,
      (hagrees.unary _).trans (.foldUnary h)⟩
  call hargs := by
    obtain ⟨hfolded, _, hanswered, hdenote⟩ := hargs.keepsMeaning
    exact ⟨isFolded_call.mpr hfolded, _, .call _ hanswered, .call _ hdenote⟩
  chosen {_ thenBranch elseBranch _ _ b _ _ _} htest hb hbranch := by
    obtain ⟨-, _, hanswered, hagrees⟩ := htest
    obtain ⟨hfolded, branch, hanswered', hagrees'⟩ := hbranch
    -- the branch that is not chosen stays as it is
    cases b with
    | true =>
      exact ⟨hfolded, _, hanswered.conditional hanswered' (.unasked elseBranch _),
        (hagrees.chosen hb branch elseBranch).trans hagrees'⟩
    | false =>
      exact ⟨hfolded, _, hanswered.conditional (.unasked thenBranch _) hanswered',
        (hagrees.chosen hb thenBranch branch).trans hagrees'⟩
  conditional htest hconstant hthen helse := by
    obtain ⟨hfolded, _, hanswered, hagrees⟩ := htest
    obtain ⟨hfolded', _, hanswered', hagrees'⟩ := hthen
    obtain ⟨hfolded'', _, hanswered'', hagrees''⟩ := helse
    exact ⟨isFolded_conditional.mpr ⟨hconstant, hfolded, hfolded', hfolded''⟩, _,
      hanswered.conditional hanswered' hanswered'', hagrees.conditional hagrees' hagrees''⟩
  enumConvert hoperand h := by
    obtain ⟨hfolded, _, hanswered, hagrees⟩ := hoperand
    exact ⟨hfolded.of_foldEnumConvert h, _, hanswered.enumConvert _,
      (hagrees.enumConvert _).trans (.foldEnumConvert h)⟩

/-- **Folding keeps the truth value.** If an expression can be folded, then with the deferred values that
were computed on the way in their places it has the same truth value as the folded expression, whatever
the parts that depend on the item stand for and whichever atoms are true. -/
theorem truth_fold {e e' : Expr} {n k : Nat} (h : e.fold n = .ok e' k) :
    ∃ answered, Answered e n answered k ∧ ∀ I : Interpretation, e'.truth I = answered.truth I := by
  obtain ⟨-, answered, hanswered, hagrees⟩ := keptByFolding_keepsMeaning.of_fold h
  exact ⟨answered, hanswered, fun I => (hagrees.truth I).symm⟩

theorem truth_fold_settledChoice :
    settledChoice.fold 0 = .ok remainingCall 2 ∧
      ∃ answered, Answered settledChoice 0 answered 2 ∧
        ∀ I : Interpretation, remainingCall.truth I = answered.truth I :=
  ⟨rfl, truth_fold (e := settledChoice) (n := 0) (k := 2) rfl⟩

end Expr

end ItemMapper
