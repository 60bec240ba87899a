import ItemMapper.Proofs.Expression.Calls
import ItemMapper.Proofs.Expression.Respelling

/-!
# Names that are interchangeable

The names of members are looked up for the text of a path, for the hint that a member gives, for the document
that it holds and for the index of a key condition. Each of these comes to the same for two names of one
member, so expressions that are alike but for such names are written the same at every place, with the same
placeholders, or are both refused.

## Main statements

* `Expr.Respelled.path`: respelled paths.
* `Expr.Respelled.operand`, `Expr.Respelled.predicate`: respelled conditions.
* `Expr.Respelled.updateText`, `Expr.Respelled.keyConditionText`: respelled updates and key conditions.
* `Session.runsAlike_respelled`: **declared and stored names are interchangeable.**
-/

namespace ItemMapper

namespace Expr

variable {scope : Scope} {e e' parent : Expr} {name name' : String}

/-! ### Names in schemas -/

section
variable (h : SameMember scope parent name name')
include h

theorem SameMember.memberNamed_eq :
    memberNamed scope (parent.schemaOf? scope) name =
      memberNamed scope (parent.schemaOf? scope) name' := by
  obtain ⟨schema, found, hschema, hname, hname'⟩ := h
  rw [hschema, memberNamed, memberNamed, hname, hname']

theorem SameMember.typeNamed?_eq :
    typeNamed? scope (parent.schemaOf? scope) name =
      typeNamed? scope (parent.schemaOf? scope) name' := by
  obtain ⟨schema, found, hschema, hname, hname'⟩ := h
  rw [hschema, typeNamed?, typeNamed?, Option.bind_some, Option.bind_some, hname, hname']

theorem SameMember.memberPath_eq (text : Option String) :
    memberPath scope text (parent.schemaOf? scope) name =
      memberPath scope text (parent.schemaOf? scope) name' := by
  rw [memberPath, memberPath, h.memberNamed_eq]

end

theorem schemaOf?_index_of_not_constant {position : Expr} (h : position.isConstant = false) :
    (Expr.index parent position).schemaOf? scope = none := by
  cases position with
  | constant value => cases h
  | _ => rfl

/-! ### What is known of an expression -/

theorem Respelled.schemaOf?_eq (h : Respelled (SameMember scope) e e') :
    e.schemaOf? scope = e'.schemaOf? scope := by
  induction h with
  | member _ name ih => rw [schemaOf?, schemaOf?, ih]
  | renamed _ hname ih => rw [schemaOf?, schemaOf?, hname.typeNamed?_eq, ih]
  | index _ hposition ih _ =>
    rcases hposition.constant_cases with ⟨value, rfl, rfl⟩ | ⟨hk, hk'⟩
    · cases value with
      | int i => exact ih
      | _ => rfl
    · rw [schemaOf?_index_of_not_constant hk, schemaOf?_index_of_not_constant hk']
  | _ => rfl

theorem Respelled.typeOf?_eq (h : Respelled (SameMember scope) e e') :
    e.typeOf? scope = e'.typeOf? scope := by
  cases h with
  | member hparent name => rw [typeOf?, typeOf?, hparent.schemaOf?_eq]
  | renamed hparent hname => rw [typeOf?, typeOf?, hname.typeNamed?_eq, hparent.schemaOf?_eq]
  | _ => rfl

theorem Respelled.hint_eq (h : Respelled (SameMember scope) e e') : hint scope e = hint scope e' := by
  have htype := h.typeOf?_eq
  cases h with
  | enumConvert _ type => rfl
  | _ => exact congrArg Hint.ofType htype

theorem Respelled.keyMember?_eq (h : Respelled (SameMember scope) e e') :
    e.keyMember? scope = e'.keyMember? scope := by
  cases h with
  | member hparent name =>
    cases hparent <;> rfl
  | renamed hparent hname =>
    cases hparent with
    | item =>
      obtain ⟨schema, found, hschema, hfound, hfound'⟩ := hname
      have hroot : scope.root = some schema := hschema
      rw [keyMember?, keyMember?, hroot, Option.bind_some, Option.bind_some, hfound, hfound']
      rfl
    | _ => rfl
  | _ => rfl

/-! ### Paths -/

theorem isPosition_of_not_constant {position : Expr} (h : position.isConstant = false) :
    position.isPosition = false := by
  cases position with
  | constant value => cases h
  | _ => rfl

theorem runsAlike_of_fails {parent' position position' : Expr} (h : position.isPosition = false)
    (h' : position'.isPosition = false) :
    RunsAlike Eq ((Expr.index parent position).path scope)
      ((Expr.index parent' position').path scope) := by
  obtain ⟨error, herror⟩ := path_index_fails scope parent h
  obtain ⟨error', herror'⟩ := path_index_fails scope parent' h'
  rw [herror, herror']
  exact .throw error error'

/-- The paths of respelled expressions are the same. -/
theorem Respelled.path (h : Respelled (SameMember scope) e e') :
    RunsAlike Eq (e.path scope) (e'.path scope) := by
  induction h with
  | @member parent parent' hparent name ih =>
    by_cases hitem : parent = .item
    · obtain rfl := hparent.eq_item_iff.mp hitem
      subst hitem
      exact .refl _
    · rw [path_member hitem, path_member (mt hparent.eq_item_iff.mpr hitem)]
      exact ih.andThen _
  | @renamed parent parent' name name' hparent hname ih =>
    by_cases hitem : parent = .item
    · obtain rfl := hparent.eq_item_iff.mp hitem
      subst hitem
      have hsame : memberPath scope none scope.root name = memberPath scope none scope.root name' :=
        hname.memberPath_eq none
      change RunsAlike Eq (memberPath scope none scope.root name) _
      rw [hsame]
      exact .refl _
    · rw [path_member hitem, path_member (mt hparent.eq_item_iff.mpr hitem)]
      refine ih.bind_of_ok fun a b above above' habove _ hsame => ?_
      subst hsame
      rw [(path_known habove).2, hname.memberPath_eq]
      exact RunsAlike.refl _ b
  | @index parent parent' position position' hparent hposition ih _ =>
    by_cases hitem : parent = .item
    · obtain rfl := hparent.eq_item_iff.mp hitem
      subst hitem
      exact .throw _ _
    · have hitem' := mt hparent.eq_item_iff.mpr hitem
      rcases hposition.constant_cases with ⟨value, rfl, rfl⟩ | ⟨hk, hk'⟩
      · cases hvalue : (Expr.constant value).isPosition with
        | true =>
          cases value with
          | text key =>
            rw [path_entry hitem, path_entry hitem']
            exact ih.andThen _
          | int i =>
            have hi : 0 ≤ i := of_decide_eq_true hvalue
            rw [path_element hitem hi, path_element hitem' hi]
            exact ih.andThen _
          | _ => cases hvalue
        | false => exact runsAlike_of_fails hvalue hvalue
      · exact runsAlike_of_fails (isPosition_of_not_constant hk) (isPosition_of_not_constant hk')
  | _ => exact .throw _ _

/-! ### Operands and calls -/

/-- The texts of respelled paths are the same. -/
theorem Respelled.subject (function : StoreFunction) (h : Respelled (SameMember scope) e e') :
    RunsAlike Eq (subject scope function e) (subject scope function e') := by
  rw [Expr.subject, Expr.subject, h.isPath_eq]
  split
  · exact h.path.andThen _
  · exact .throw _ _

section
variable {args args' : List Expr}

theorem runsAlike_sizeText (h : List.Forall₂ (Respelled (SameMember scope)) args args') :
    RunsAlike Eq (sizeText scope args) (sizeText scope args') := by
  rw [sizeText, sizeText, h.length_eq]
  refine (RunsAlike.refl _).bind_eq fun _ => ?_
  exact (RunsAlike.mapM_eq (h.imp fun _ _ harg => harg.subject .size)).andThen _

end

/-- Operands that are respelled are written the same beside any hint. -/
theorem Respelled.operand (h : Respelled (SameMember scope) e e') (hint : Hint) :
    RunsAlike Eq (operand scope hint e) (operand scope hint e') := by
  induction h generalizing hint with
  | member hparent name => exact (Respelled.member hparent name).path.andThen _
  | renamed hparent hname => exact (Respelled.renamed hparent hname).path.andThen _
  | index hparent hposition => exact (Respelled.index hparent hposition).path.andThen _
  | constant value => exact .refl _
  | raw text => exact .refl _
  | enumConvert _ type ih => exact ih (.variant type)
  | call function hlength hargs =>
    cases function with
    | size => exact runsAlike_sizeText (List.forall₂_iff_zip.mpr ⟨hlength, hargs _ _⟩)
    | _ => exact .throw _ _
  | _ => exact .throw _ _

section
variable {function : StoreFunction} {first first' : Expr} {args args' others others' : List Expr}

/-- The hint that a first argument takes from the ones after it. -/
theorem hint_head?_eq (h : List.Forall₂ (Respelled (SameMember scope)) others others') :
    others.head?.map (hint scope) = others'.head?.map (hint scope) := by
  cases h with
  | nil => rfl
  | cons hfirst _ => exact congrArg some hfirst.hint_eq

theorem runsAlike_firstText (hfirst : Respelled (SameMember scope) first first')
    (hothers : List.Forall₂ (Respelled (SameMember scope)) others others') :
    RunsAlike Eq (firstText scope function first others) (firstText scope function first' others') := by
  rw [firstText, firstText, hint_head?_eq hothers]
  exact .ite (hfirst.subject function) (hfirst.operand _)

theorem argumentHint_eq (h : Respelled (SameMember scope) first first') :
    argumentHint scope function first = argumentHint scope function first' := by
  unfold argumentHint
  rw [h.hint_eq]

/-- Calls with respelled arguments are written the same. -/
theorem runsAlike_callText (h : List.Forall₂ (Respelled (SameMember scope)) args args') :
    RunsAlike Eq (callText scope function args) (callText scope function args') := by
  have hspread : List.Forall₂ (Respelled (SameMember scope)) (spread function args)
      (spread function args') := forall₂_spread .constant (fun _ _ harg => harg.constant_cases) h
  rw [callText, callText, hspread.length_eq]
  refine (RunsAlike.refl _).bind_eq fun _ => ?_
  generalize spread function args = written at hspread ⊢
  generalize spread function args' = written' at hspread ⊢
  cases hspread with
  | nil => exact .refl _
  | cons hfirst hothers =>
    refine (runsAlike_firstText hfirst hothers).bind_eq fun text => ?_
    rw [argumentHint_eq hfirst]
    exact (RunsAlike.mapM_eq (hothers.imp fun _ _ harg => harg.operand _)).andThen _

end

/-! ### Conditions -/

theorem Respelled.truthText (h : Respelled (SameMember scope) e e') :
    RunsAlike Eq (truthText scope e) (truthText scope e') := by
  rw [Expr.truthText, Expr.truthText]
  exact h.path.bind_eq fun path => .ite (.refl _) (.throw _ _)

theorem Respelled.groupedBy_eq (h : Respelled (SameMember scope) e e') (op : BinaryOp) :
    e.groupedBy op = e'.groupedBy op := by
  cases h <;> rfl

theorem Respelled.groupedByNot_eq (h : Respelled (SameMember scope) e e') :
    e.groupedByNot = e'.groupedByNot := by
  cases h <;> rfl

theorem runsAlike_comparisonText {left left' right right' : Expr} (op : BinaryOp)
    (hleft : Respelled (SameMember scope) left left')
    (hright : Respelled (SameMember scope) right right') :
    RunsAlike Eq (comparisonText scope op left right) (comparisonText scope op left' right') := by
  rw [comparisonText, comparisonText, hleft.hint_eq, hright.hint_eq]
  exact (hleft.operand _).bind_eq fun _ => (hright.operand _).andThen _

/-- **Conditions that are respelled are written the same.** -/
theorem Respelled.predicate (h : Respelled (SameMember scope) e e') :
    RunsAlike Eq (predicate scope e) (predicate scope e') := by
  induction h with
  | binary op hleft hright ihleft ihright =>
    rw [Expr.predicate, Expr.predicate, hleft.groupedBy_eq, hright.groupedBy_eq]
    exact .ite (ihleft.bind_eq fun _ => ihright.andThen _)
      (.ite (runsAlike_comparisonText op hleft hright) (.throw _ _))
  | unary op hoperand ih =>
    cases op with
    | not =>
      rw [Expr.predicate, Expr.predicate, hoperand.groupedByNot_eq]
      exact ih.andThen _
    | negate => exact .throw _ _
  | call function hlength hargs =>
    rw [Expr.predicate, Expr.predicate]
    exact .ite (runsAlike_callText (List.forall₂_iff_zip.mpr ⟨hlength, hargs _ _⟩)) (.throw _ _)
  | member hparent name => exact (Respelled.member hparent name).truthText
  | renamed hparent hname => exact (Respelled.renamed hparent hname).truthText
  | index hparent hposition => exact (Respelled.index hparent hposition).truthText
  | raw text => exact .refl _
  | _ => exact .throw _ _

theorem Respelled.conditionText (h : Respelled (SameMember scope) e e') :
    RunsAlike Eq (conditionText scope e) (conditionText scope e') := by
  have hpredicate := h.predicate
  cases h with
  | constant value => exact .refl _
  | _ => exact hpredicate

/-! ### Updates -/

theorem Respelled.guardedPath (h : Respelled (SameMember scope) e e') :
    RunsAlike Eq (guardedPath scope e) (guardedPath scope e') := by
  rw [Expr.guardedPath, Expr.guardedPath, h.isPath_eq]
  exact .ite h.path (.throw _ _)

section
variable {args args' : List Expr} {hint : Hint}

/-- Values that are written the same one by one. -/
theorem runsAlike_setValues (h : List.Forall₂
      (fun arg arg' => RunsAlike Eq (setValue scope hint arg) (setValue scope hint arg')) args args') :
    RunsAlike Eq (setValues scope hint args) (setValues scope hint args') := by
  induction h with
  | nil => exact .refl _
  | cons hfirst _ ih =>
    rw [setValues, setValues]
    exact hfirst.bind_eq fun _ => ih.andThen _

/-- The hint for the default comes from the path in front of it, which is the same. -/
theorem runsAlike_ifNotExistsText (h : List.Forall₂ (Respelled (SameMember scope)) args args')
    (hvalues : ∀ hint, List.Forall₂
      (fun arg arg' => RunsAlike Eq (setValue scope hint arg) (setValue scope hint arg')) args args') :
    RunsAlike Eq (ifNotExistsText scope args) (ifNotExistsText scope args') := by
  cases h with
  | nil => exact .refl _
  | cons hfirst _ =>
    rw [ifNotExistsText, ifNotExistsText]
    refine hfirst.guardedPath.bind_eq fun path => ?_
    cases hvalues (.ofType path.type) with
    | cons _ hrest => exact (runsAlike_setValues hrest).andThen _

end

/-- **Values of updates that are respelled are written the same.** -/
theorem Respelled.setValue (h : Respelled (SameMember scope) e e') (hint : Hint) :
    RunsAlike Eq (setValue scope hint e) (setValue scope hint e') := by
  induction h generalizing hint with
  | binary op hleft hright ihleft ihright =>
    rw [Expr.setValue, Expr.setValue]
    exact .ite ((ihleft hint).bind_eq fun _ => (ihright hint).andThen _)
      ((Respelled.binary op hleft hright).operand hint)
  | @call args args' function hlength hargs ih =>
    have hall : List.Forall₂ (Respelled (SameMember scope)) args args' :=
      List.forall₂_iff_zip.mpr ⟨hlength, hargs _ _⟩
    have hvalues : ∀ hint, List.Forall₂ (fun arg arg' =>
        RunsAlike Eq (Expr.setValue scope hint arg) (Expr.setValue scope hint arg')) args args' :=
      fun hint => List.forall₂_iff_zip.mpr ⟨hlength, fun hmem => ih _ _ hmem hint⟩
    cases function with
    | ifNotExists =>
      rw [Expr.setValue, Expr.setValue, hlength]
      exact (RunsAlike.refl _).bind_eq fun _ => runsAlike_ifNotExistsText hall hvalues
    | listAppend =>
      rw [Expr.setValue, Expr.setValue, hlength]
      exact (RunsAlike.refl _).bind_eq fun _ => (runsAlike_setValues (hvalues .plain)).andThen _
    | _ => exact (Respelled.call _ hlength hargs).operand hint
  | item => exact Respelled.item.operand hint
  | constant value => exact (Respelled.constant value).operand hint
  | raw text => exact (Respelled.raw text).operand hint
  | deferred compute => exact (Respelled.deferred compute).operand hint
  | member hparent name => exact (Respelled.member hparent name).operand hint
  | renamed hparent hname => exact (Respelled.renamed hparent hname).operand hint
  | index hparent hposition => exact (Respelled.index hparent hposition).operand hint
  | unary op hoperand => exact (Respelled.unary op hoperand).operand hint
  | conditional htest hthen helse => exact (Respelled.conditional htest hthen helse).operand hint
  | enumConvert hoperand type => exact (Respelled.enumConvert hoperand type).operand hint

section
variable {args args' : List Expr}

theorem runsAlike_actionValues (function : StoreFunction) (hint : Hint)
    (h : List.Forall₂ (Respelled (SameMember scope)) args args') :
    RunsAlike Eq (actionValues scope function hint args) (actionValues scope function hint args') := by
  cases function with
  | set => exact .mapM_eq (h.imp fun _ _ harg => harg.setValue hint)
  | add | delete => exact .mapM_eq (h.imp fun _ _ harg => harg.operand _)
  | _ => exact .refl _

theorem runsAlike_actionText (function : StoreFunction)
    (h : List.Forall₂ (Respelled (SameMember scope)) args args') :
    RunsAlike Eq (actionText scope function args) (actionText scope function args') := by
  unfold actionText
  rw [h.length_eq]
  refine (RunsAlike.refl _).bind_eq fun _ => ?_
  cases h with
  | nil => exact .refl _
  | cons htarget hrest =>
    dsimp only
    rw [htarget.isPath_eq]
    refine .ite (htarget.path.bind_eq fun path => ?_) (.throw _ _)
    exact (runsAlike_actionValues function _ hrest).andThen _

end

theorem Respelled.addAction (h : Respelled (SameMember scope) e e') (text : List Char) :
    RunsAlike Eq (addAction scope text e) (addAction scope text e') := by
  cases h with
  | @call args args' function hlength hargs =>
    unfold Expr.addAction
    dsimp only
    cases function.verb? with
    | none => exact .throw _ _
    | some verb =>
      exact (runsAlike_actionText function (List.forall₂_iff_zip.mpr ⟨hlength, hargs _ _⟩)).andThen _
  | raw fragment => exact .refl _
  | _ => exact .throw _ _

theorem runsAlike_addActions {actions actions' : List Expr}
    (h : List.Forall₂ (Respelled (SameMember scope)) actions actions') (text : List Char) :
    RunsAlike Eq (addActions scope text actions) (addActions scope text actions') := by
  induction h generalizing text with
  | nil => exact .refl _
  | cons hfirst _ ih =>
    rw [addActions, addActions]
    exact (hfirst.addAction text).bind_eq ih

/-- **Updates that are respelled are written the same.** -/
theorem Respelled.updateText (h : Respelled (SameMember scope) e e') :
    RunsAlike Eq (updateText scope e) (updateText scope e') :=
  (runsAlike_addActions h.conjuncts []).andThen _

/-! ### Key conditions -/

theorem keyMember?_head?_eq {args args' : List Expr}
    (h : List.Forall₂ (Respelled (SameMember scope)) args args') :
    args.head?.bind (keyMember? scope) = args'.head?.bind (keyMember? scope) := by
  cases h with
  | nil => rfl
  | cons hfirst _ => exact hfirst.keyMember?_eq

theorem Respelled.keyMemberOf (h : Respelled (SameMember scope) e e') :
    RunsAlike Eq (AliasM.ofExcept (keyMemberOf scope e)) (AliasM.ofExcept (keyMemberOf scope e')) := by
  cases h with
  | binary op hleft hright =>
    rw [Expr.keyMemberOf, Expr.keyMemberOf, hleft.keyMember?_eq, hright.keyMember?_eq]
    cases op.isComparison with
    | true => exact .refl _
    | false => exact .throw _ _
  | @call args args' function hlength hargs =>
    have hall : List.Forall₂ (Respelled (SameMember scope)) args args' :=
      List.forall₂_iff_zip.mpr ⟨hlength, hargs _ _⟩
    rw [Expr.keyMemberOf, Expr.keyMemberOf, keyMember?_head?_eq hall]
    by_cases hfunction : function = .between ∨ function = .beginsWith
    · rw [if_pos hfunction, if_pos hfunction]
      exact .refl _
    · rw [if_neg hfunction, if_neg hfunction]
      exact .throw _ _
  | raw text => exact .refl _
  | _ => exact .throw _ _

theorem runsAlike_keyMembers {conjuncts conjuncts' : List Expr}
    (h : List.Forall₂ (Respelled (SameMember scope)) conjuncts conjuncts') (members : List KeyMember) :
    RunsAlike Eq (AliasM.ofExcept (keyMembers scope members conjuncts))
      (AliasM.ofExcept (keyMembers scope members conjuncts')) := by
  induction h generalizing members with
  | nil => exact .refl _
  | cons hfirst _ ih =>
    rw [keyMembers, keyMembers, AliasM.ofExcept_bind, AliasM.ofExcept_bind]
    refine hfirst.keyMemberOf.bind_eq fun found => ?_
    cases found with
    | none => exact ih members
    | some found => exact ih _

theorem Respelled.keyConditionText (h : Respelled (SameMember scope) e e') :
    RunsAlike Eq (keyConditionText scope e) (keyConditionText scope e') := by
  rw [Expr.keyConditionText, Expr.keyConditionText]
  refine (runsAlike_keyMembers h.conjuncts []).bind_eq fun members => ?_
  exact h.conditionText.andThen _

end Expr

/-! ### Sessions -/

namespace Session

open ItemMapper.Expr

variable {scope : Scope} {e e' : Expr}

theorem runsAlike_onAliases {α β : Type} {R : α → β → Prop} {m : AliasM α} {m' : AliasM β}
    (h : RunsAlike R m m') : RunsAlike R (onAliases m) (onAliases m') := by
  intro s
  have haliases := h s.aliases
  unfold onAliases
  generalize m s.aliases = r at haliases ⊢
  generalize m' s.aliases = r' at haliases ⊢
  cases haliases with
  | ok related => exact .ok related
  | error => exact .error

theorem runsAlike_folded {R : Expr → Expr → Prop} (h : RunsAlike R e.fold e'.fold) :
    RunsAlike R (folded e) (folded e') := by
  intro s
  have hcounter := h s.counter
  unfold folded
  generalize e.fold s.counter = r at hcounter ⊢
  generalize e'.fold s.counter = r' at hcounter ⊢
  cases hcounter with
  | ok related => exact .ok related
  | error => exact .error

theorem runsAlike_paths (happart : scope.NamesApart) {es es' : List Expr}
    (h : List.Forall₂ (Respelled (StoredAs scope)) es es') :
    RunsAlike Eq (paths scope es) (paths scope es') := by
  induction h with
  | nil => exact .refl _
  | cons hfirst _ ih =>
    rw [paths, paths]
    refine (runsAlike_folded (hfirst.fold happart)).bind fun _ _ hfolded => ?_
    exact (runsAlike_onAliases hfolded.path).bind_eq fun _ => ih.andThen _

/-- **Declared and stored names are interchangeable.** Where no member of the documents of a scope is stored
under a name, declared or stored, of another member of its document, an expression that calls members by
their declared names and one that calls some of them by their stored names end alike, from every state of
a session: both fail, or both succeed with the same text and, in a key condition, the same index, and they
leave the same placeholders behind. -/
theorem runsAlike_respelled (happart : scope.NamesApart) :
    (∀ e e', Respelled (StoredAs scope) e e' →
      RunsAlike Eq (condition scope e) (condition scope e') ∧
      RunsAlike Eq (update scope e) (update scope e') ∧
      RunsAlike Eq (keyCondition scope e) (keyCondition scope e')) ∧
    ∀ es es', List.Forall₂ (Respelled (StoredAs scope)) es es' →
      RunsAlike Eq (projection scope es) (projection scope es') := by
  refine ⟨fun e e' h => ?_, fun es es' h => ?_⟩
  · have hfolded := runsAlike_folded (h.fold happart)
    exact ⟨hfolded.bind fun _ _ hfolded => runsAlike_onAliases hfolded.conditionText,
      hfolded.bind fun _ _ hfolded => runsAlike_onAliases hfolded.updateText,
      hfolded.bind fun _ _ hfolded => runsAlike_onAliases hfolded.keyConditionText⟩
  · exact (runsAlike_paths happart h).andThen _

/-- A parcel has a number and goes to an address. -/
def parcelSchema : Schema where
  typeName := "Parcel"
  members := [
    ⟨"number", some "Nr", [], false, none, none, ⟨"i64", .number, none, none⟩⟩,
    ⟨"to", some "To", [], false, none, none, ⟨"Address", .document, none, some 0⟩⟩]

/-- An address has a street, which is stored in capitals. -/
def parcelAddress : Schema where
  typeName := "Address"
  members := [⟨"street", some "STREET", [], false, none, none, ⟨"String", .text, none, none⟩⟩]

/-- Parcels with their addresses. -/
def parcelScope : Scope := ⟨default, some parcelSchema, fun _ => some parcelAddress⟩

theorem namesApart_parcelScope : parcelScope.NamesApart := by
  have hreached : ∀ schema, parcelScope.Reaches schema →
      schema = parcelSchema ∨ schema = parcelAddress := by
    intro schema h
    induction h with
    | root h => exact .inl (Option.some.inj h).symm
    | nested _ _ hinner =>
      obtain ⟨_, -, hschema⟩ := Option.bind_eq_some_iff.mp hinner
      exact .inr (Option.some.inj hschema).symm
  intro schema hschema
  rcases hreached schema hschema with rfl | rfl <;> decide

/-- The parcel with a number that goes to a street. -/
def parcelTo (number destination street : String) : Expr :=
  .binary .and (.binary .eq (.member .item number) (.constant (.int 7)))
    (.call .beginsWith [.member (.member .item destination) street, .constant (.text "High")])

/-- A condition on the number of a parcel and on the street that it goes to. -/
theorem runsAlike_respelled_parcel :
    RunsAlike Eq (condition parcelScope (parcelTo "number" "to" "street"))
        (condition parcelScope (parcelTo "Nr" "To" "STREET")) ∧
      result? (condition parcelScope (parcelTo "Nr" "To" "STREET")) (.start 0) =
        some "Nr = :v0 AND begins_with(#p0.STREET, :v1)" := by
  have hitem : Expr.item.LeadsTo parcelScope parcelSchema := leadsTo_of_schemaOf? rfl
  have haddress : (Expr.member .item "to").LeadsTo parcelScope parcelAddress :=
    leadsTo_of_schemaOf? rfl
  have hnumber : StoredAs parcelScope .item "number" "Nr" := ⟨_, 0, _, hitem, rfl, rfl⟩
  have hdestination : StoredAs parcelScope .item "to" "To" := ⟨_, 1, _, hitem, rfl, rfl⟩
  have hstreet : StoredAs parcelScope (.member .item "to") "street" "STREET" :=
    ⟨_, 0, _, haddress, rfl, rfl⟩
  refine ⟨((runsAlike_respelled namesApart_parcelScope).1 _ _ ?_).1, ?_⟩
  · refine .binary .and (.binary .eq (.renamed .item hnumber) (.constant _)) ?_
    refine .call .beginsWith rfl fun arg arg' hmem => ?_
    simp only [List.zip_cons_cons, List.zip_nil_left, List.mem_cons, Prod.mk.injEq,
      List.not_mem_nil, or_false] at hmem
    rcases hmem with ⟨rfl, rfl⟩ | ⟨rfl, rfl⟩
    · exact .renamed (.renamed .item hdestination) hstreet
    · exact .constant _
  · decide +kernel

end Session

end ItemMapper
