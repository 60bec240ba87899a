import ItemMapper.Expression.Compilation
import ItemMapper.Proofs.Agreement
import ItemMapper.Proofs.Expression.Folding
import ItemMapper.Proofs.Expression.Paths
import ItemMapper.Proofs.Schema.Lookup

/-!
# Declared and stored names

Two expressions that are alike but for the names of members: where the first one calls a member by one name,
the second one may call it by another. Before folding, the names are the declared and the stored name of a
member of the document that the path leads to so far; after it, they are any two under which the schema
finds the same member. Below an entry of a map no document is known, and a name there stands for itself.

## Main definitions

* `Scope.NamesApart`: no stored name is a name of another member, in any document of a scope.
* `Expr.LeadsTo`: an expression that leads to a document, however its positions are computed.
* `Expr.StoredAs`, `Expr.SameMember`: names of one member, before and after folding.
* `Expr.Respelled`: expressions that are alike but for names.

## Main statements

* `Expr.Respelled.fold`: respelled expressions are folded alike.
* `Expr.leadsTo_of_schemaOf?`: names and constant positions lead where the schema says.
-/

namespace ItemMapper

/-- The schemas of the document of a scope and of the documents that its members hold, at any depth. -/
inductive Scope.Reaches (scope : Scope) : Schema → Prop
  | root {schema : Schema} (h : scope.root = some schema) : Reaches scope schema
  | nested {schema inner : Schema} {m : Member} (h : Reaches scope schema) (hm : m ∈ schema.members)
      (hinner : scope.schemaOf? m.type = some inner) : Reaches scope inner

/-- No member is stored under a name, declared or stored, of another member of its document. -/
def Scope.NamesApart (scope : Scope) : Prop :=
  ∀ schema, scope.Reaches schema → schema.NamesApart scope.options

namespace Expr

/-! ### Respelled expressions -/

/-- Wherever the expression can be folded, it leads to a document with the schema, or to elements that
are such documents. -/
def LeadsTo (scope : Scope) (e : Expr) (schema : Schema) : Prop :=
  ∀ n e' k, e.fold n = .ok e' k → e'.schemaOf? scope = some schema

/-- What an expression leads to declares a member under a name and stores it under the other one. -/
def StoredAs (scope : Scope) (parent : Expr) (name stored : String) : Prop :=
  ∃ schema i m, parent.LeadsTo scope schema ∧ schema.member? name = some (i, m) ∧
    stored = m.storedName scope.options

/-- What an expression leads to has one member that is meant by both names. -/
def SameMember (scope : Scope) (parent : Expr) (name name' : String) : Prop :=
  ∃ schema found, parent.schemaOf? scope = some schema ∧
    schema.lookup? name scope.options = some found ∧ schema.lookup? name' scope.options = some found

/-- The second expression calls some members by other names than the first one, names that `renamed`
admits for members of what an expression leads to. -/
inductive Respelled (renamed : Expr → String → String → Prop) : Expr → Expr → Prop
  | item : Respelled renamed .item .item
  | constant (value : Value) : Respelled renamed (.constant value) (.constant value)
  | raw (text : RawExpression) : Respelled renamed (.raw text) (.raw text)
  | deferred (compute : Deferral) : Respelled renamed (.deferred compute) (.deferred compute)
  | member {parent parent' : Expr} (hparent : Respelled renamed parent parent') (name : String) :
      Respelled renamed (.member parent name) (.member parent' name)
  | renamed {parent parent' : Expr} {name name' : String} (hparent : Respelled renamed parent parent')
      (hname : renamed parent name name') :
      Respelled renamed (.member parent name) (.member parent' name')
  | index {parent parent' position position' : Expr} (hparent : Respelled renamed parent parent')
      (hposition : Respelled renamed position position') :
      Respelled renamed (.index parent position) (.index parent' position')
  | binary {left left' right right' : Expr} (op : BinaryOp) (hleft : Respelled renamed left left')
      (hright : Respelled renamed right right') :
      Respelled renamed (.binary op left right) (.binary op left' right')
  | unary {operand operand' : Expr} (op : UnaryOp) (hoperand : Respelled renamed operand operand') :
      Respelled renamed (.unary op operand) (.unary op operand')
  | call {args args' : List Expr} (function : StoreFunction) (hlength : args.length = args'.length)
      (hargs : ∀ arg arg', (arg, arg') ∈ args.zip args' → Respelled renamed arg arg') :
      Respelled renamed (.call function args) (.call function args')
  | conditional {test test' thenBranch thenBranch' elseBranch elseBranch' : Expr}
      (htest : Respelled renamed test test') (hthen : Respelled renamed thenBranch thenBranch')
      (helse : Respelled renamed elseBranch elseBranch') :
      Respelled renamed (.conditional test thenBranch elseBranch)
        (.conditional test' thenBranch' elseBranch')
  | enumConvert {operand operand' : Expr} (hoperand : Respelled renamed operand operand')
      (type : EnumType) : Respelled renamed (.enumConvert operand type) (.enumConvert operand' type)

section
variable {renamed : Expr → String → String → Prop} {e e' : Expr}

/-- Constants stay as they are, and nothing else becomes one. -/
theorem Respelled.constant_cases (h : Respelled renamed e e') :
    (∃ value, e = .constant value ∧ e' = .constant value) ∨
      e.isConstant = false ∧ e'.isConstant = false := by
  cases h with
  | constant value => exact .inl ⟨value, rfl, rfl⟩
  | _ => exact .inr ⟨rfl, rfl⟩

theorem Respelled.isPath_eq (h : Respelled renamed e e') : e.isPath = e'.isPath := by
  cases h <;> rfl

theorem Respelled.eq_item_iff (h : Respelled renamed e e') : e = .item ↔ e' = .item := by
  cases h <;> simp

/-- The parts that are joined by AND are respelled one by one. -/
theorem Respelled.conjuncts (h : Respelled renamed e e') :
    List.Forall₂ (Respelled renamed) e.conjuncts e'.conjuncts := by
  fun_induction Expr.conjuncts e generalizing e' with
  | case1 left right ihleft ihright =>
    cases h with
    | binary _ hleft hright => exact List.rel_append (ihleft hleft) (ihright hright)
  | case2 e hother =>
    have hself : e'.conjuncts = [e'] := by
      cases h with
      | binary op _ _ =>
        refine conjuncts_eq_self fun _ _ heq => ?_
        cases heq
        exact hother _ _ rfl
      | _ => rfl
    rw [hself]
    exact .cons h .nil

end

/-! ### Folding -/

section
variable {renamed : Expr → String → String → Prop} {left left' right right' e e' : Expr}

/-- Two results of folding that are both errors, or respelled. -/
def FoldsAlike (renamed : Expr → String → String → Prop) (r r' : Except Error Expr) : Prop :=
  RunsAlike (Respelled renamed) (FoldM.ofExcept r) (FoldM.ofExcept r')

theorem foldsAlike_ok (h : Respelled renamed e e') : FoldsAlike renamed (.ok e) (.ok e') := .pure h

/-- What is computed of constants alone is the same. -/
theorem foldsAlike_constant (r : Except Error Value) :
    FoldsAlike renamed (r.map .constant) (r.map .constant) := by
  cases r with
  | ok value => exact .pure (.constant value)
  | error e => exact .throw e e

theorem foldsAlike_foldLogical (op : BinaryOp) (value : Value) (h : Respelled renamed e e') :
    FoldsAlike renamed (foldLogical op value e) (foldLogical op value e') := by
  unfold foldLogical
  cases value.asBool? with
  | none => exact .throw _ _
  | some b =>
    cases op <;> cases b <;> first | exact .pure h | exact .pure (.constant _)

theorem foldsAlike_foldBinary (op : BinaryOp) (hleft : Respelled renamed left left')
    (hright : Respelled renamed right right') :
    FoldsAlike renamed (foldBinary op left right) (foldBinary op left' right') := by
  rcases hleft.constant_cases with ⟨x, rfl, rfl⟩ | ⟨hl, hl'⟩
  · rcases hright.constant_cases with ⟨y, rfl, rfl⟩ | ⟨hr, hr'⟩
    · exact foldsAlike_constant _
    · rw [foldBinary_constant_left x hr, foldBinary_constant_left x hr']
      split
      · exact foldsAlike_foldLogical op x hright
      · exact foldsAlike_ok (.binary op hleft hright)
  · rcases hright.constant_cases with ⟨y, rfl, rfl⟩ | ⟨hr, hr'⟩
    · rw [foldBinary_constant_right y hl, foldBinary_constant_right y hl']
      split
      · exact foldsAlike_foldLogical op y hleft
      · exact foldsAlike_ok (.binary op hleft hright)
    · rw [foldBinary_eq_self (by simp [isReducible, hl, hr]),
        foldBinary_eq_self (by simp [isReducible, hl', hr'])]
      exact foldsAlike_ok (.binary op hleft hright)

theorem foldsAlike_foldIndex (hparent : Respelled renamed left left')
    (hposition : Respelled renamed right right') :
    FoldsAlike renamed (foldIndex left right) (foldIndex left' right') := by
  rcases hparent.constant_cases with ⟨value, rfl, rfl⟩ | ⟨hp, hp'⟩
  · rcases hposition.constant_cases with ⟨key, rfl, rfl⟩ | ⟨hk, hk'⟩
    · exact foldsAlike_constant _
    · rw [foldIndex_eq_self (by simp [isReducible, hk]), foldIndex_eq_self (by simp [isReducible, hk'])]
      exact foldsAlike_ok (.index hparent hposition)
  · rw [foldIndex_eq_self (by simp [isReducible, hp]), foldIndex_eq_self (by simp [isReducible, hp'])]
    exact foldsAlike_ok (.index hparent hposition)

theorem foldsAlike_foldMember (h : Respelled renamed e e') (name : String) :
    FoldsAlike renamed (foldMember e name) (foldMember e' name) := by
  rcases h.constant_cases with ⟨value, rfl, rfl⟩ | ⟨hp, hp'⟩
  · exact foldsAlike_constant _
  · rw [foldMember_eq_self hp, foldMember_eq_self hp']
    exact foldsAlike_ok (.member h name)

theorem foldsAlike_foldUnary (op : UnaryOp) (h : Respelled renamed e e') :
    FoldsAlike renamed (foldUnary op e) (foldUnary op e') := by
  rcases h.constant_cases with ⟨value, rfl, rfl⟩ | ⟨ho, ho'⟩
  · exact foldsAlike_constant _
  · rw [foldUnary_eq_self ho, foldUnary_eq_self ho']
    exact foldsAlike_ok (.unary op h)

theorem foldsAlike_foldEnumConvert (type : EnumType) (h : Respelled renamed e e') :
    FoldsAlike renamed (foldEnumConvert e type) (foldEnumConvert e' type) := by
  rcases h.constant_cases with ⟨value, rfl, rfl⟩ | ⟨ho, ho'⟩
  · exact foldsAlike_constant _
  · rw [foldEnumConvert_eq_self ho, foldEnumConvert_eq_self ho']
    exact foldsAlike_ok (.enumConvert h type)

/-- Arguments that are folded to respelled ones one by one. -/
theorem runsAlike_foldAll {args args' : List Expr}
    (h : List.Forall₂ (fun arg arg' => RunsAlike (Respelled renamed) arg.fold arg'.fold) args args') :
    RunsAlike (List.Forall₂ (Respelled renamed)) (foldAll args) (foldAll args') := by
  induction h with
  | nil => exact .pure .nil
  | cons hfirst _ ih =>
    rw [foldAll, foldAll]
    exact hfirst.bind fun _ _ hfirst => ih.bind fun _ _ hrest => .pure (.cons hfirst hrest)

end

section
variable {scope : Scope} {e e' : Expr}

/-- What an expression leads to is one of the documents of the scope. -/
theorem reaches_of_schemaOf? {schema : Schema} (h : e.schemaOf? scope = some schema) :
    scope.Reaches schema := by
  rw [← knows_iff] at h
  induction h with
  | item h => exact .root h
  | member _ hm hinner ih => exact .nested ih (Schema.mem_of_lookup? hm).1 hinner
  | element _ _ ih => exact ih

/-- A member of a document of the scope is meant by its declared and by its stored name. -/
theorem sameMember_of_member? (happart : scope.NamesApart) {schema : Schema} {name : String} {i : Nat}
    {m : Member} (hschema : e.schemaOf? scope = some schema) (hm : schema.member? name = some (i, m)) :
    SameMember scope e name (m.storedName scope.options) :=
  ⟨schema, (i, m), hschema, Schema.lookup?_name hm,
    Schema.lookup?_storedName (happart schema (reaches_of_schemaOf? hschema)) hm⟩

theorem isConstant_of_schemaOf? {schema : Schema} (h : e.schemaOf? scope = some schema) :
    e.isConstant = false := by
  cases e with
  | constant value => cases h
  | _ => rfl

/-- What leads to a document before folding consists of names and positions, and folding does not change
it. -/
theorem isFolded_of_schemaOf? {schema : Schema} (h : e.schemaOf? scope = some schema) : e.IsFolded := by
  rw [← knows_iff] at h
  induction h with
  | item _ => exact isFolded_item
  | member habove _ _ ih =>
    exact isFolded_member.mpr ⟨isConstant_of_schemaOf? (knows_iff.mp habove), ih⟩
  | @element parent _ habove position ih =>
    have hself : (Expr.index parent (.constant (.int position))).isReducible = false := by
      rw [isReducible, isConstant_of_schemaOf? (knows_iff.mp habove), Bool.false_and]
    exact isFolded_index.mpr ⟨hself, ih, isFolded_constant _⟩

theorem leadsTo_of_schemaOf? {schema : Schema} (h : e.schemaOf? scope = some schema) :
    e.LeadsTo scope schema := by
  intro n e' k hfold
  rw [(isFolded_of_schemaOf? h).fold_eq n] at hfold
  cases hfold
  exact h

/-- **Folding keeps names apart**: an expression with stored names is folded to what the one with declared
names is folded to, up to the names. -/
theorem Respelled.fold (happart : scope.NamesApart) (h : Respelled (StoredAs scope) e e') :
    RunsAlike (Respelled (SameMember scope)) e.fold e'.fold := by
  induction h with
  | item => exact .pure .item
  | constant value => exact .pure (.constant value)
  | raw text => exact .pure (.raw text)
  | deferred compute =>
    rw [Expr.fold]
    exact (RunsAlike.refl compute).bind fun _ _ hsame => hsame ▸ .pure (.constant _)
  | member _ name ih =>
    rw [Expr.fold, Expr.fold]
    exact ih.bind fun _ _ hparent => foldsAlike_foldMember hparent name
  | renamed _ hname ih =>
    obtain ⟨schema, i, m, hleads, hm, rfl⟩ := hname
    rw [Expr.fold, Expr.fold]
    refine ih.bind_of_ok fun n k parent parent' hfold _ hparent => ?_
    have hsame := sameMember_of_member? happart (hleads _ _ _ hfold) hm
    have hpath := isConstant_of_schemaOf? (hleads _ _ _ hfold)
    rcases hparent.constant_cases with ⟨value, rfl, -⟩ | ⟨-, hpath'⟩
    · cases hpath
    · rw [foldMember_eq_self hpath, foldMember_eq_self hpath']
      exact foldsAlike_ok (.renamed hparent hsame) k
  | index _ _ ihparent ihposition =>
    rw [Expr.fold, Expr.fold]
    exact ihparent.bind fun _ _ hparent =>
      ihposition.bind fun _ _ hposition => foldsAlike_foldIndex hparent hposition
  | binary op _ _ ihleft ihright =>
    rw [Expr.fold, Expr.fold]
    exact ihleft.bind fun _ _ hleft =>
      ihright.bind fun _ _ hright => foldsAlike_foldBinary op hleft hright
  | unary op _ ih =>
    rw [Expr.fold, Expr.fold]
    exact ih.bind fun _ _ hoperand => foldsAlike_foldUnary op hoperand
  | call function hlength _ ih =>
    rw [Expr.fold, Expr.fold]
    refine (runsAlike_foldAll (List.forall₂_iff_zip.mpr ⟨hlength, ih _ _⟩)).bind fun args args' h => ?_
    exact .pure (.call function h.length_eq fun _ _ => List.forall₂_zip h)
  | @conditional test test' _ _ _ _ _ _ _ ihtest ihthen ihelse =>
    rw [Expr.fold, Expr.fold]
    refine ihtest.bind fun folded folded' htest => ?_
    rcases htest.constant_cases with ⟨value, rfl, rfl⟩ | ⟨hfolded, hfolded'⟩
    · refine (RunsAlike.refl (FoldM.ofExcept (testValue value))).bind fun b _ hsame => ?_
      subst hsame
      exact .ite ihthen ihelse
    · split
      · cases hfolded
      · split
        · cases hfolded'
        · exact ihthen.bind fun _ _ hthen => ihelse.bind fun _ _ helse =>
            .pure (.conditional htest hthen helse)
  | enumConvert _ type ih =>
    rw [Expr.fold, Expr.fold]
    exact ih.bind fun _ _ hoperand => foldsAlike_foldEnumConvert type hoperand

end

end Expr

end ItemMapper
