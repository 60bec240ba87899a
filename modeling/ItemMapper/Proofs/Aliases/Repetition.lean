import ItemMapper.Proofs.Aliases.Runs

/-!
# Compiling an expression again

Placeholders are chosen by what the tables hold, and the first run has changed the tables. Yet a call that
succeeded takes the same way again, at once and after any other requests: each name and each value finds
the placeholder that it got, each placeholder of raw text stands for what it stands for, and nothing is
left to add. What may differ is only the number that deferred values keep, so they have to return what
they returned before.

## Main definitions

* `Deferral.IsSteady`, `Expr.IsSteady`: deferred values that return the same whenever they are computed.
* `Session.IgnoresNumber`: a computation that comes to the same with any number kept.
* `Session.Reuses`: a computation that comes to the same at any later time, and adds nothing.

## Main statements

* `Expr.exists_fold_of_isSteady`: such an expression is folded to the same from any number.
* `Session.reuses_of_isSteady`: **conditions, updates, key conditions and projections reuse everything**.
-/

namespace ItemMapper

/-- If the computation returns a value, it returns this value whatever number the application keeps. -/
def Deferral.IsSteady (compute : Deferral) : Prop :=
  ∀ {n k : Nat} {value : Value}, compute n = .ok value k → ∀ m, ∃ l, compute m = .ok value l

namespace Expr

/-- The deferred values of the expression return the same whenever they are computed. -/
def IsSteady (e : Expr) : Prop := ∀ compute, .deferred compute ∈ e.parts → compute.IsSteady

/-- The deferred values of each of the expressions return the same whenever they are computed. -/
def AllSteady (args : List Expr) : Prop :=
  ∀ compute, .deferred compute ∈ partsOfAll args → compute.IsSteady

theorem IsSteady.of_parts {e part : Expr} (h : e.IsSteady) (hparts : part.parts ⊆ e.parts) :
    part.IsSteady :=
  fun compute hmem => h compute (hparts hmem)

theorem IsSteady.both {e left right : Expr} (h : e.IsSteady)
    (hparts : left.parts ++ right.parts ⊆ e.parts) : left.IsSteady ∧ right.IsSteady :=
  ⟨h.of_parts (List.Subset.trans (List.subset_append_left ..) hparts),
    h.of_parts (List.Subset.trans (List.subset_append_right ..) hparts)⟩

section
variable {test thenBranch elseBranch : Expr}

theorem IsSteady.tested (h : IsSteady (.conditional test thenBranch elseBranch)) : test.IsSteady :=
  h.of_parts (List.Subset.trans (List.subset_append_left ..) (List.subset_cons_self ..))

theorem IsSteady.branches (h : IsSteady (.conditional test thenBranch elseBranch)) :
    thenBranch.IsSteady ∧ elseBranch.IsSteady :=
  h.both (List.Subset.trans (List.subset_append_right ..) (List.subset_cons_self ..))

end

/-! ### Folding again -/

/-- The expression is folded to the same from any number, if it is steady. -/
def Refolds (e e' : Expr) : Prop := e.IsSteady → ∀ n, ∃ k, e.fold n = .ok e' k

theorem exists_foldAll_of_row {args args' : List Expr} {n k : Nat}
    (h : Row (fun e _ e' _ => e.Refolds e') args n args' k) (hsteady : AllSteady args) (m : Nat) :
    ∃ l, foldAll args m = .ok args' l := by
  induction h generalizing m with
  | nil => exact ⟨m, rfl⟩
  | cons harg _ ih =>
    obtain ⟨l, hfold⟩ := harg (fun _ hmem => hsteady _ (List.mem_append_left _ hmem)) m
    obtain ⟨l', hfoldAll⟩ := ih (fun _ hmem => hsteady _ (List.mem_append_right _ hmem)) l
    refine ⟨l', ?_⟩
    rw [foldAll, bind_eq_ok]
    exact ⟨_, l, hfold, bind_eq_ok.mpr ⟨_, l', hfoldAll, rfl⟩⟩

/-- Each step of folding comes to the same if the parts do. -/
theorem keptByFolding_refolds : KeptByFolding fun e _ e' _ => e.Refolds e' where
  item _ := fun _ n => ⟨n, rfl⟩
  constant _ _ := fun _ n => ⟨n, rfl⟩
  raw _ _ := fun _ n => ⟨n, rfl⟩
  deferred hvalue := fun hsteady n => by
    obtain ⟨k, hagain⟩ := hsteady _ List.mem_cons_self hvalue n
    exact ⟨k, bind_eq_ok.mpr ⟨_, k, hagain, rfl⟩⟩
  member hparent hstep := fun hsteady n => by
    obtain ⟨k, hfold⟩ := hparent (hsteady.of_parts (List.subset_cons_self ..)) n
    refine ⟨k, ?_⟩
    rw [fold, bind_eq_ok]
    exact ⟨_, k, hfold, FoldM.ofExcept_eq_ok.mpr ⟨hstep, rfl⟩⟩
  index hparent hposition hstep := fun hsteady n => by
    obtain ⟨hsteady, hsteady'⟩ := hsteady.both (List.subset_cons_self ..)
    obtain ⟨k, hfold⟩ := hparent hsteady n
    obtain ⟨l, hfold'⟩ := hposition hsteady' k
    refine ⟨l, ?_⟩
    rw [fold, bind_eq_ok]
    refine ⟨_, k, hfold, bind_eq_ok.mpr ⟨_, l, hfold', ?_⟩⟩
    exact FoldM.ofExcept_eq_ok.mpr ⟨hstep, rfl⟩
  binary hleft hright hstep := fun hsteady n => by
    obtain ⟨hsteady, hsteady'⟩ := hsteady.both (List.subset_cons_self ..)
    obtain ⟨k, hfold⟩ := hleft hsteady n
    obtain ⟨l, hfold'⟩ := hright hsteady' k
    refine ⟨l, ?_⟩
    rw [fold, bind_eq_ok]
    refine ⟨_, k, hfold, bind_eq_ok.mpr ⟨_, l, hfold', ?_⟩⟩
    exact FoldM.ofExcept_eq_ok.mpr ⟨hstep, rfl⟩
  unary hoperand hstep := fun hsteady n => by
    obtain ⟨k, hfold⟩ := hoperand (hsteady.of_parts (List.subset_cons_self ..)) n
    refine ⟨k, ?_⟩
    rw [fold, bind_eq_ok]
    exact ⟨_, k, hfold, FoldM.ofExcept_eq_ok.mpr ⟨hstep, rfl⟩⟩
  call hargs := fun hsteady n => by
    have hall : AllSteady _ := fun _ hmem => hsteady _ (List.mem_cons_of_mem _ hmem)
    obtain ⟨k, hfold⟩ := exists_foldAll_of_row hargs hall n
    refine ⟨k, ?_⟩
    rw [fold, bind_eq_ok]
    exact ⟨_, k, hfold, rfl⟩
  chosen {test thenBranch elseBranch e value b _ _ _} htest hb hbranch := fun hsteady n => by
    obtain ⟨k, hfold⟩ := htest hsteady.tested n
    obtain ⟨hthen, helse⟩ := hsteady.branches
    have hchosen : IsSteady (if b then thenBranch else elseBranch) := by
      cases b with
      | true => exact hthen
      | false => exact helse
    obtain ⟨l, hfold'⟩ := hbranch hchosen k
    refine ⟨l, ?_⟩
    rw [fold, bind_eq_ok]
    refine ⟨.constant value, k, hfold, bind_eq_ok.mpr ⟨b, k, ?_, ?_⟩⟩
    · exact FoldM.ofExcept_eq_ok.mpr ⟨testValue_eq_ok.mpr hb, rfl⟩
    · cases b with
      | true => exact hfold'
      | false => exact hfold'
  conditional htest hconstant hthen helse := fun hsteady n => by
    obtain ⟨hsteady', hsteady''⟩ := hsteady.branches
    obtain ⟨k, hfold⟩ := htest hsteady.tested n
    obtain ⟨l, hfold'⟩ := hthen hsteady' k
    obtain ⟨l', hfold''⟩ := helse hsteady'' l
    refine ⟨l', ?_⟩
    rw [fold, bind_eq_ok]
    refine ⟨_, k, hfold, ?_⟩
    split
    · cases hconstant
    · exact bind_eq_ok.mpr ⟨_, l, hfold', bind_eq_ok.mpr ⟨_, l', hfold'', rfl⟩⟩
  enumConvert hoperand hstep := fun hsteady n => by
    obtain ⟨k, hfold⟩ := hoperand (hsteady.of_parts (List.subset_cons_self ..)) n
    refine ⟨k, ?_⟩
    rw [fold, bind_eq_ok]
    exact ⟨_, k, hfold, FoldM.ofExcept_eq_ok.mpr ⟨hstep, rfl⟩⟩

/-- **A steady expression is folded to the same from any number.** -/
theorem exists_fold_of_isSteady {e e' : Expr} {n k : Nat} (hsteady : e.IsSteady)
    (h : e.fold n = .ok e' k) (m : Nat) : ∃ l, e.fold m = .ok e' l :=
  (keptByFolding_refolds.of_fold h : e.Refolds e') hsteady m

end Expr

namespace Session

open Request (runAll)

variable {α β : Type}

/-! ### Any number -/

/-- If the computation succeeds, it comes to the same whatever number the application keeps. -/
def IgnoresNumber (m : SessionM α) : Prop :=
  ∀ (s t : Session) (x : α), m s = .ok x t →
    ∀ n, ∃ k, m { s with counter := n } = .ok x { t with counter := k }

namespace IgnoresNumber

theorem pure (x : α) : IgnoresNumber (Pure.pure x : SessionM α) := by
  intro s t y h n
  obtain ⟨rfl, rfl⟩ := pure_eq_ok.mp h
  exact ⟨n, rfl⟩

theorem throw (e : Error) : IgnoresNumber (MonadExcept.throw e : SessionM α) :=
  fun _ _ _ h => (throw_eq_ok.mp h).elim

theorem bind {m : SessionM α} {f : α → SessionM β} (hm : IgnoresNumber m)
    (hf : ∀ x, IgnoresNumber (f x)) : IgnoresNumber (m >>= f) := by
  intro s t y h n
  obtain ⟨x, u, hrun, h⟩ := bind_eq_ok.mp h
  obtain ⟨k, hagain⟩ := hm s u x hrun n
  obtain ⟨l, hrest⟩ := hf x u t y h k
  exact ⟨l, bind_eq_ok.mpr ⟨x, _, hagain, hrest⟩⟩

theorem onAliases (action : AliasM α) : IgnoresNumber (Session.onAliases action) := by
  intro s t x h n
  obtain ⟨aliases, hrun, rfl⟩ := onAliases_eq_ok.mp h
  exact ⟨n, onAliases_eq_ok.mpr ⟨aliases, hrun, rfl⟩⟩

theorem folded {e : Expr} (he : e.IsSteady) : IgnoresNumber (Session.folded e) := by
  intro s t e' h n
  obtain ⟨counter, hfold, rfl⟩ := folded_eq_ok.mp h
  obtain ⟨k, hagain⟩ := Expr.exists_fold_of_isSteady he hfold n
  exact ⟨k, folded_eq_ok.mpr ⟨k, hagain, rfl⟩⟩

/-- What is written of a steady expression. -/
theorem written {e : Expr} (he : e.IsSteady) (write : Expr → AliasM α) :
    IgnoresNumber (Session.folded e >>= fun e' => Session.onAliases (write e')) :=
  (IgnoresNumber.folded he).bind fun e' => .onAliases (write e')

theorem paths (scope : Scope) {exprs : List Expr} (h : ∀ e ∈ exprs, e.IsSteady) :
    IgnoresNumber (Session.paths scope exprs) := by
  induction exprs with
  | nil => exact .pure []
  | cons e rest ih =>
    obtain ⟨he, hrest⟩ := List.forall_mem_cons.mp h
    refine (IgnoresNumber.folded he).bind fun e' => ?_
    refine (IgnoresNumber.onAliases (e'.path scope)).bind fun path => ?_
    exact (ih hrest).bind fun others => .pure _

theorem projection (scope : Scope) {exprs : List Expr} (h : ∀ e ∈ exprs, e.IsSteady) :
    IgnoresNumber (Session.projection scope exprs) := by
  refine (IgnoresNumber.paths scope h).bind fun texts => ?_
  by_cases hempty : texts.isEmpty = true
  · rw [if_pos hempty]
    exact .throw _
  · rw [if_neg hempty]
    exact .pure _

end IgnoresNumber

/-! ### Any later time -/

/-- If the computation succeeds, it succeeds again at any later time: it comes to the same, and leaves the
tables exactly as they are then. -/
def Reuses (m : SessionM α) : Prop :=
  ∀ (s t : Session) (x : α), m s = .ok x t →
    ∀ later : List Request, ∃ n, m (runAll later t) = .ok x { runAll later t with counter := n }

theorem IgnoresNumber.reuses {m : SessionM α} (hnumber : IgnoresNumber m)
    (hmade : Made Aliases.Arbitrary m) : Reuses m := by
  intro s t x h later
  have hafter : after m s = t := by rw [after, h]
  have hincludes : t.aliases.Includes (runAll later t).aliases :=
    Aliases.Grows.includes (Request.runAll_grows_arbitrary later t)
  -- with the later tables but the number of the first run, nothing is added
  have hagain : m { s with aliases := (runAll later t).aliases } =
      .ok x { t with aliases := (runAll later t).aliases } := by
    rw [hmade.repeats.again (hafter.symm ▸ hincludes), h]
    rfl
  exact hnumber _ _ x hagain (runAll later t).counter

/-- **Compiling an expression again reuses everything.** In every session, if a condition, an update, a key
condition or a projection is compiled, with raw text or without, then compiling it again, at once or after
any other requests, yields the same text and the same index and leaves the tables exactly as they are;
provided that its deferred values return what they returned. -/
theorem reuses_of_isSteady (scope : Scope) :
    (∀ e : Expr, e.IsSteady →
      Reuses (condition scope e) ∧ Reuses (update scope e) ∧ Reuses (keyCondition scope e)) ∧
      ∀ exprs : List Expr, (∀ e ∈ exprs, e.IsSteady) → Reuses (projection scope exprs) := by
  have harbitrary : ∀ raw : RawExpression, raw.Brings Aliases.Arbitrary :=
    fun _ => ⟨fun _ _ => trivial, fun _ _ => trivial⟩
  refine ⟨fun e he => ?_, fun exprs h => ?_⟩
  · have hbrings : e.Brings Aliases.Arbitrary := fun raw _ => harbitrary raw
    refine ⟨?_, ?_, ?_⟩
    · exact (IgnoresNumber.written he _).reuses (condition_made scope hbrings)
    · exact (IgnoresNumber.written he _).reuses (update_made scope hbrings)
    · exact (IgnoresNumber.written he _).reuses (keyCondition_made scope hbrings)
  · have hbrings : Expr.AllBring Aliases.Arbitrary exprs := fun _ _ raw _ => harbitrary raw
    exact (IgnoresNumber.projection scope h).reuses (projection_made scope hbrings)

/-- Counts how often it is computed, and returns the same every time. -/
def countedFive : Deferral := fun n => .ok (.int 5) (n + 1)

theorem isSteady_countedFive : countedFive.IsSteady := by
  intro n k value h m
  cases h
  exact ⟨m + 1, rfl⟩

/-- Raw text that takes the placeholder that the deferred value would get, and the deferred value. -/
def rawAndDeferred : Expr :=
  .binary .and
    (.raw (((RawExpression.ofText "#n > :v0").bindName "n" "size").bindValue "v0" (.int 2)))
    (.binary .eq (.member .item "name") (.deferred countedFive))

theorem reuses_of_isSteady_rawAndDeferred :
    rawAndDeferred.IsSteady ∧
      ∃ t, condition (.untyped default) rawAndDeferred (start 0) = .ok "(#n > :v0) AND #p0 = :v1" t ∧
        ∃ n, condition (.untyped default) rawAndDeferred (runAll mixedRequests t) =
          .ok "(#n > :v0) AND #p0 = :v1" { runAll mixedRequests t with counter := n } := by
  have hsteady : rawAndDeferred.IsSteady := by
    intro compute hmem
    simp only [rawAndDeferred, Expr.parts, List.mem_cons, List.mem_append, List.not_mem_nil,
      reduceCtorEq, false_or, or_false, Expr.deferred.injEq] at hmem
    exact hmem ▸ isSteady_countedFive
  have htext : result? (condition (.untyped default) rawAndDeferred) (start 0) =
      some "(#n > :v0) AND #p0 = :v1" := by decide +kernel
  obtain ⟨t, hrun⟩ := result?_eq_some.mp htext
  have hreuses := ((reuses_of_isSteady (.untyped default)).1 rawAndDeferred hsteady).1
  exact ⟨hsteady, t, hrun, hreuses _ t _ hrun mixedRequests⟩

end Session

end ItemMapper
