import Mathlib.Logic.Relation
import ItemMapper.Expression.Aliases
import ItemMapper.Expression.Folding

/-!
# Computations with a state

A computation that succeeds has succeeded in each of its steps. The equivalences here take a
successful run apart, step by step, with the states in between. What is true of the states before and
after each step, whether it succeeds or fails, is true of the states before and after a computation.

## Main definitions

* `after`: the state that a computation leaves behind.
* `Leads`: a computation that relates the states before and after it.

## Main statements

* `bind_eq_ok`, `pure_eq_ok`, `throw_eq_ok`: the steps of a computation.
* `mapM_cons_eq_ok`: the first of several computations.
* `AliasM.ofExcept_eq_ok`, `FoldM.ofExcept_eq_ok`: a result that changes no state.
* `except_bind_eq_ok`, `except_map_eq_ok`: the steps of a computation without state.
-/

namespace ItemMapper

section
variable {ε σ α β : Type}

/-! ### Successful runs -/

theorem bind_eq_ok {x : EStateM ε σ α} {f : α → EStateM ε σ β} {s s' : σ} {b : β} :
    (x >>= f) s = .ok b s' ↔ ∃ a t, x s = .ok a t ∧ f a t = .ok b s' := by
  change EStateM.bind x f s = _ ↔ _
  rw [EStateM.bind]
  cases x s with
  | ok a t =>
    constructor
    · intro h
      exact ⟨a, t, rfl, h⟩
    · rintro ⟨a', t', heq, h⟩
      cases heq
      exact h
  | error e t =>
    constructor
    · intro h
      cases h
    · rintro ⟨a', t', heq, -⟩
      cases heq

theorem unit_bind_eq_ok {x : EStateM ε σ Unit} {f : Unit → EStateM ε σ β} {s s' : σ} {b : β} :
    (x >>= f) s = .ok b s' ↔ ∃ t, x s = .ok () t ∧ f () t = .ok b s' := by
  rw [bind_eq_ok]
  constructor
  · rintro ⟨⟨⟩, t, hx, h⟩
    exact ⟨t, hx, h⟩
  · rintro ⟨t, hx, h⟩
    exact ⟨(), t, hx, h⟩

/-- A computation that first reads its state. -/
theorem get_bind {f : σ → EStateM ε σ β} {s : σ} : (get >>= f) s = f s s := rfl

theorem pure_eq_ok {a b : α} {s s' : σ} :
    (pure a : EStateM ε σ α) s = .ok b s' ↔ a = b ∧ s = s' := by
  change EStateM.Result.ok a s = _ ↔ _
  rw [EStateM.Result.ok.injEq]

theorem throw_eq_ok {e : ε} {b : α} {s s' : σ} :
    (throw e : EStateM ε σ α) s = .ok b s' ↔ False := by
  constructor
  · intro h
    cases h
  · exact False.elim

theorem mapM_nil_eq_ok {f : α → EStateM ε σ β} {ys : List β} {s s' : σ} :
    ([] : List α).mapM f s = .ok ys s' ↔ ys = [] ∧ s = s' := by
  rw [List.mapM_nil, pure_eq_ok, eq_comm]

theorem mapM_cons_eq_ok {f : α → EStateM ε σ β} {x : α} {xs : List α} {ys : List β} {s s' : σ} :
    (x :: xs).mapM f s = .ok ys s' ↔
      ∃ y t zs, f x s = .ok y t ∧ xs.mapM f t = .ok zs s' ∧ ys = y :: zs := by
  rw [List.mapM_cons, bind_eq_ok]
  simp only [bind_eq_ok, pure_eq_ok]
  constructor
  · rintro ⟨y, t, hy, zs, t', hz, rfl, rfl⟩
    exact ⟨y, t, zs, hy, hz, rfl⟩
  · rintro ⟨y, t, zs, hy, hz, rfl⟩
    exact ⟨y, t, hy, zs, s', hz, rfl, rfl⟩

theorem except_bind_eq_ok {x : Except ε α} {f : α → Except ε β} {b : β} :
    (x >>= f) = .ok b ↔ ∃ a, x = .ok a ∧ f a = .ok b := by
  change Except.bind x f = _ ↔ _
  cases x with
  | ok a =>
    constructor
    · intro h
      exact ⟨a, rfl, h⟩
    · rintro ⟨a', heq, h⟩
      cases heq
      exact h
  | error e =>
    constructor
    · intro h
      cases h
    · rintro ⟨a', heq, -⟩
      cases heq

theorem except_map_eq_ok {x : Except ε α} {f : α → β} {b : β} :
    x.map f = .ok b ↔ ∃ a, x = .ok a ∧ f a = b := by
  cases x with
  | ok a =>
    constructor
    · intro h
      cases h
      exact ⟨a, rfl, rfl⟩
    · rintro ⟨a', heq, h⟩
      cases heq
      exact congrArg _ h
  | error e =>
    constructor
    · intro h
      cases h
    · rintro ⟨a', heq, -⟩
      cases heq

theorem except_toOption_eq_some {x : Except ε α} {a : α} : x.toOption = some a ↔ x = .ok a := by
  cases x with
  | ok b => simp [Except.toOption]
  | error e => simp [Except.toOption]

/-- The result of a run, if it succeeds. -/
def result? (m : EStateM ε σ α) (s : σ) : Option α :=
  match m s with
  | .ok x _ => some x
  | .error _ _ => none

theorem result?_eq_some {m : EStateM ε σ α} {s : σ} {x : α} :
    result? m s = some x ↔ ∃ t, m s = .ok x t := by
  unfold result?
  cases m s with
  | ok y t =>
    constructor
    · intro h
      cases h
      exact ⟨t, rfl⟩
    · rintro ⟨t', h⟩
      cases h
      rfl
  | error e t =>
    constructor
    · intro h
      cases h
    · rintro ⟨t', h⟩
      cases h

/-- The error of a run with the state that it leaves behind, if it fails. -/
def failure? (m : EStateM ε σ α) (s : σ) : Option (ε × σ) :=
  match m s with
  | .ok _ _ => none
  | .error e t => some (e, t)

theorem failure?_eq_some {m : EStateM ε σ α} {s t : σ} {e : ε} :
    failure? m s = some (e, t) ↔ m s = .error e t := by
  unfold failure?
  cases m s <;> simp

/-! ### All runs -/

/-- The state that a computation leaves behind, whether it succeeds or fails. -/
def after (m : EStateM ε σ α) (s : σ) : σ :=
  match m s with
  | .ok _ t => t
  | .error _ t => t

theorem after_bind_pure (m : EStateM ε σ α) (f : α → β) (s : σ) :
    after (m >>= fun x => pure (f x)) s = after m s := by
  change after (EStateM.bind m fun x => pure (f x)) s = _
  rw [after, after, EStateM.bind]
  cases m s <;> rfl

/-- A computation that leads from every state to a state related to it. -/
def Leads (R : σ → σ → Prop) (m : EStateM ε σ α) : Prop := ∀ s, R s (after m s)

variable {R : σ → σ → Prop}

theorem Leads.of_ok {m : EStateM ε σ α} {x : α} {s t : σ} (hm : Leads R m) (h : m s = .ok x t) :
    R s t := by
  have hafter := hm s
  rw [after, h] at hafter
  exact hafter

theorem Leads.bind [IsTrans σ R] {m : EStateM ε σ α} {f : α → EStateM ε σ β} (hm : Leads R m)
    (hf : ∀ x, Leads R (f x)) : Leads R (m >>= f) := by
  intro s
  have hms := hm s
  change R s (after (EStateM.bind m f) s)
  rw [after, EStateM.bind]
  rw [after] at hms
  cases hrun : m s with
  | ok x t =>
    rw [hrun] at hms
    exact IsTrans.trans _ _ _ hms (hf x t)
  | error e t =>
    rw [hrun] at hms
    exact hms

theorem Leads.ite {c : Prop} [Decidable c] {m n : EStateM ε σ α} (hm : Leads R m)
    (hn : Leads R n) : Leads R (if c then m else n) := by
  by_cases hc : c
  · rw [if_pos hc]
    exact hm
  · rw [if_neg hc]
    exact hn

section
variable [Std.Refl R]

theorem Leads.pure (x : α) : Leads R (Pure.pure x : EStateM ε σ α) := fun s => refl s

theorem Leads.throw (e : ε) : Leads R (MonadExcept.throw e : EStateM ε σ α) := fun s => refl s

theorem Leads.mapM [IsTrans σ R] {f : α → EStateM ε σ β} {xs : List α}
    (hf : ∀ x ∈ xs, Leads R (f x)) : Leads R (xs.mapM f) := by
  induction xs with
  | nil => exact .pure []
  | cons x xs ih =>
    rw [List.mapM_cons]
    refine .bind (hf x List.mem_cons_self) fun y => ?_
    exact .bind (ih fun x hx => hf x (List.mem_cons_of_mem _ hx)) fun ys => .pure (y :: ys)

end

end

theorem AliasM.ofExcept_eq_ok {α : Type} {result : Except Error α} {x : α} {a a' : Aliases} :
    AliasM.ofExcept result a = .ok x a' ↔ result = .ok x ∧ a = a' := by
  cases result with
  | ok y => simp [AliasM.ofExcept, pure_eq_ok]
  | error e => simp [AliasM.ofExcept, throw_eq_ok]

theorem AliasM.ofExcept_bind_eq_ok {α β : Type} {result : Except Error α} {f : α → AliasM β} {y : β}
    {a b : Aliases} :
    (AliasM.ofExcept result >>= f) a = .ok y b ↔ ∃ x, result = .ok x ∧ f x a = .ok y b := by
  rw [bind_eq_ok]
  constructor
  · rintro ⟨x, a', hx, h⟩
    obtain ⟨rfl, rfl⟩ := AliasM.ofExcept_eq_ok.mp hx
    exact ⟨x, rfl, h⟩
  · rintro ⟨x, rfl, h⟩
    exact ⟨x, a, AliasM.ofExcept_eq_ok.mpr ⟨rfl, rfl⟩, h⟩

theorem Leads.ofExcept {α : Type} {R : Aliases → Aliases → Prop} [Std.Refl R]
    (result : Except Error α) : Leads R (AliasM.ofExcept result) := by
  cases result with
  | ok x => exact .pure x
  | error e => exact .throw e

theorem FoldM.ofExcept_eq_ok {α : Type} {result : Except Error α} {x : α} {n n' : Nat} :
    FoldM.ofExcept result n = .ok x n' ↔ result = .ok x ∧ n = n' := by
  cases result with
  | ok y => simp [FoldM.ofExcept, pure_eq_ok]
  | error e => simp [FoldM.ofExcept, throw_eq_ok]

end ItemMapper
