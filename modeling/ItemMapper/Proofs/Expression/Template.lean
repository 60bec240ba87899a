import ItemMapper.Expression.Function
import ItemMapper.Expression.Template
import ItemMapper.Proofs.Computation
import ItemMapper.Proofs.Number.Decimal

/-!
# Filled templates

What the templates of the store's functions yield with as many arguments as the functions take. A
template is a run of plain characters, then a placeholder, and so on; one lemma for each kind of piece
computes it from the front.

## Main definitions

* `StoreFunction.isNamed`: whether a call is written as a name and arguments between parentheses.

## Main statements

* `render_named`: calls that are written with a name.
* `render_between`, `render_isIn`: the other conditions.
* `render_set`, `render_remove`, `render_pair`: the actions of updates.
-/

namespace ItemMapper

namespace StoreFunction

/-- Whether a call is written as a name and arguments between parentheses. -/
def isNamed : StoreFunction → Bool
  | between | isIn | set | remove | add | delete => false
  | _ => true

end StoreFunction

theorem checkArity_eq_ok {function : StoreFunction} {count : Nat} {x : Unit}
    (h : function.checkArity count = .ok x) : function.takes count = true := by
  unfold StoreFunction.checkArity at h
  by_cases htakes : function.takes count = true
  · exact htakes
  · rw [if_neg htakes] at h
    cases h

namespace Template

variable {template : String} {args : List String} {used : Nat} {rest : List Piece}

theorem renderPieces_plain (c : Char) :
    renderPieces template args used (.plain c :: rest) =
      (renderPieces template args used rest).map (c.toString ++ ·) := by
  rw [renderPieces]
  cases renderPieces template args used rest <;> rfl

/-- Plain characters stand for themselves. -/
theorem renderPieces_text (text : List Char) :
    renderPieces template args used (text.map .plain ++ rest) =
      (renderPieces template args used rest).map (String.ofList text ++ ·) := by
  induction text with
  | nil =>
    rw [List.map_nil, List.nil_append]
    cases renderPieces template args used rest with
    | ok s => exact congrArg Except.ok (String.empty_append).symm
    | error e => rfl
  | cons c text ih =>
    rw [List.map_cons, List.cons_append, renderPieces_plain, ih]
    cases renderPieces template args used rest with
    | ok s =>
      refine congrArg Except.ok ?_
      rw [← String.toList_inj]
      simp
    | error e => rfl

/-- A position stands for the argument there. -/
theorem renderPieces_position {position : Nat} (arg : String) (harg : args[position]? = some arg)
    (hsmall : position < 2 ^ 64) :
    renderPieces template args used (.placeholder (toString position) :: rest) =
      (renderPieces template args (max used (position + 1)) rest).map (arg ++ ·) := by
  have hstar : toString position ≠ "*" := by
    intro h
    have hlist := congrArg String.toList h
    rw [Nat.toString_eq_repr, Nat.toList_repr] at hlist
    exact toDigits_ne_sign rfl [] hlist
  have hplaceholder : renderPlaceholder args used (toString position) =
      .ok (arg, max used (position + 1)) := by
    rw [renderPlaceholder, if_neg hstar, readNat?_toString]
    simp only [Option.filter_some, decide_eq_true hsmall, if_true, harg]
  rw [renderPieces, hplaceholder]
  change (renderPieces template args (max used (position + 1)) rest >>= _) = _
  cases renderPieces template args (max used (position + 1)) rest <;> rfl

/-- A star stands for the arguments that are left. -/
theorem renderPieces_star :
    renderPieces template args used (.placeholder "*" :: rest) =
      (renderPieces template args used rest).map (", ".intercalate (args.drop used) ++ ·) := by
  rw [renderPieces, renderPlaceholder, if_pos rfl]
  change (renderPieces template args used rest >>= _) = _
  cases renderPieces template args used rest <;> rfl

theorem renderPieces_nil : renderPieces template args used [] = .ok "" := rfl

end Template

open Template

theorem pieces_of_arity_one {f : StoreFunction} (h : f.isNamed = true) (harity : f.arity = 1) :
    pieces f.template.toList =
      (f.name.toList ++ ['(']).map .plain ++ .placeholder (toString 0) :: ([')'].map .plain ++ []) := by
  cases f <;> first | rfl | exact absurd h (by decide) | exact absurd harity (by decide)

theorem pieces_of_arity_two {f : StoreFunction} (h : f.isNamed = true) (harity : f.arity = 2) :
    pieces f.template.toList =
      (f.name.toList ++ ['(']).map .plain ++ .placeholder (toString 0) ::
        ([',', ' '].map .plain ++ .placeholder (toString 1) :: ([')'].map .plain ++ [])) := by
  cases f <;> first | rfl | exact absurd h (by decide) | exact absurd harity (by decide)

/-- **A call with a name** is written as the name and the arguments between parentheses. -/
theorem render_named {f : StoreFunction} {args : List String} (h : f.isNamed = true)
    (hlength : args.length = f.arity) :
    render f.template args = .ok (f.name ++ "(" ++ ", ".intercalate args ++ ")") := by
  have harity : f.arity = 1 ∨ f.arity = 2 := by
    cases f <;> first | exact .inl rfl | exact .inr rfl | exact absurd h (by decide)
  rw [render]
  rcases harity with harity | harity
  · obtain ⟨x, rfl⟩ := List.length_eq_one_iff.mp (hlength.trans harity)
    rw [pieces_of_arity_one h harity, renderPieces_text,
      renderPieces_position x rfl (by decide), renderPieces_text, renderPieces_nil]
    refine congrArg Except.ok ?_
    rw [← String.toList_inj]
    simp
  · obtain ⟨x, y, rfl⟩ := List.length_eq_two.mp (hlength.trans harity)
    rw [pieces_of_arity_two h harity, renderPieces_text,
      renderPieces_position x rfl (by decide), renderPieces_text,
      renderPieces_position y rfl (by decide), renderPieces_text, renderPieces_nil]
    refine congrArg Except.ok ?_
    rw [← String.toList_inj]
    simp

theorem render_between (x low high : String) :
    render StoreFunction.between.template [x, low, high] =
      .ok (x ++ " BETWEEN " ++ low ++ " AND " ++ high) := by
  have hpieces : pieces StoreFunction.between.template.toList =
      .placeholder (toString 0) :: (" BETWEEN ".toList.map .plain ++ .placeholder (toString 1) ::
        (" AND ".toList.map .plain ++ [.placeholder (toString 2)])) := rfl
  rw [render, hpieces, renderPieces_position x rfl (by decide), renderPieces_text,
    renderPieces_position low rfl (by decide), renderPieces_text,
    renderPieces_position high rfl (by decide), renderPieces_nil]
  refine congrArg Except.ok ?_
  rw [← String.toList_inj]
  simp

/-- The candidates of an IN stand between parentheses. -/
theorem render_isIn (x : String) (candidates : List String) :
    render StoreFunction.isIn.template (x :: candidates) =
      .ok (x ++ " IN (" ++ ", ".intercalate candidates ++ ")") := by
  have hpieces : pieces StoreFunction.isIn.template.toList =
      .placeholder (toString 0) :: (" IN (".toList.map .plain ++
        .placeholder "*" :: ([')'].map .plain ++ [])) := rfl
  rw [render, hpieces, renderPieces_position x rfl (by decide), renderPieces_text,
    renderPieces_star, renderPieces_text, renderPieces_nil]
  refine congrArg Except.ok ?_
  rw [← String.toList_inj]
  simp

theorem render_set (x value : String) :
    render StoreFunction.set.template [x, value] = .ok (x ++ " = " ++ value) := by
  have hpieces : pieces StoreFunction.set.template.toList =
      .placeholder (toString 0) :: (" = ".toList.map .plain ++ [.placeholder (toString 1)]) := rfl
  rw [render, hpieces, renderPieces_position x rfl (by decide), renderPieces_text,
    renderPieces_position value rfl (by decide), renderPieces_nil]
  refine congrArg Except.ok ?_
  rw [← String.toList_inj]
  simp

theorem render_remove (x : String) : render StoreFunction.remove.template [x] = .ok x := by
  have hpieces : pieces StoreFunction.remove.template.toList = [.placeholder (toString 0)] := rfl
  rw [render, hpieces, renderPieces_position x rfl (by decide), renderPieces_nil]
  refine congrArg Except.ok ?_
  rw [← String.toList_inj]
  simp

/-- The actions of ADD and DELETE. -/
theorem render_pair {f : StoreFunction} (h : f = .add ∨ f = .delete) (x value : String) :
    render f.template [x, value] = .ok (x ++ " " ++ value) := by
  have hpieces : pieces f.template.toList =
      .placeholder (toString 0) :: ([' '].map .plain ++ [.placeholder (toString 1)]) := by
    rcases h with rfl | rfl <;> rfl
  rw [render, hpieces, renderPieces_position x rfl (by decide), renderPieces_text,
    renderPieces_position value rfl (by decide), renderPieces_nil]
  refine congrArg Except.ok ?_
  rw [← String.toList_inj]
  simp

end ItemMapper
