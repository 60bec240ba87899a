import Mathlib.Data.List.Forall2
import ItemMapper.Proofs.Computation

/-!
# Computations that end alike

Two computations end alike if from every state both fail, or both succeed with related results, and leave
the same state behind in either case. The errors may differ, as they quote what was asked for. This is
kept by every way in which computations are put together, so that two programs of one shape end alike
if their parts do.

## Main definitions

* `EndsAlike`: the ends of two runs.
* `RunsAlike`: two computations that end alike from every state.

## Main statements

* `RunsAlike.bind`, `RunsAlike.bind_of_ok`: one computation after another.
* `RunsAlike.mapM`: several computations in a row.
-/

namespace ItemMapper

section
variable {ε σ α β γ δ : Type} {R : α → β → Prop} {S : γ → δ → Prop}

/-- The ends of two runs that both fail, or succeed with related results, in the same state. -/
inductive EndsAlike (R : α → β → Prop) : EStateM.Result ε σ α → EStateM.Result ε σ β → Prop
  | ok {x : α} {y : β} {s : σ} (related : R x y) : EndsAlike R (.ok x s) (.ok y s)
  | error {e e' : ε} {s : σ} : EndsAlike R (.error e s) (.error e' s)

theorem EndsAlike.imp {R' : α → β → Prop} {r : EStateM.Result ε σ α} {r' : EStateM.Result ε σ β}
    (h : EndsAlike R r r') (himp : ∀ x y, R x y → R' x y) : EndsAlike R' r r' := by
  cases h with
  | ok related => exact .ok (himp _ _ related)
  | error => exact .error

/-- Two computations that end alike from every state. -/
def RunsAlike (R : α → β → Prop) (m : EStateM ε σ α) (m' : EStateM ε σ β) : Prop :=
  ∀ s, EndsAlike R (m s) (m' s)

namespace RunsAlike

variable {m : EStateM ε σ α} {m' : EStateM ε σ β} {f : α → EStateM ε σ γ} {f' : β → EStateM ε σ δ}

theorem imp {R' : α → β → Prop} (h : RunsAlike R m m') (himp : ∀ x y, R x y → R' x y) :
    RunsAlike R' m m' := fun s => (h s).imp himp

theorem pure {x : α} {y : β} (h : R x y) :
    RunsAlike R (Pure.pure x : EStateM ε σ α) (Pure.pure y) := fun _ => .ok h

theorem throw (e e' : ε) :
    RunsAlike R (MonadExcept.throw e : EStateM ε σ α) (MonadExcept.throw e') := fun _ => .error

/-- One computation after another, where the second one may depend on the run of the first. -/
theorem bind_of_ok (h : RunsAlike R m m')
    (hf : ∀ s t x y, m s = .ok x t → m' s = .ok y t → R x y → EndsAlike S (f x t) (f' y t)) :
    RunsAlike S (m >>= f) (m' >>= f') := by
  intro s
  have hs := h s
  change EndsAlike S (EStateM.bind m f s) (EStateM.bind m' f' s)
  rw [EStateM.bind, EStateM.bind]
  generalize hm : m s = r at hs ⊢
  generalize hm' : m' s = r' at hs ⊢
  cases hs with
  | ok related => exact hf s _ _ _ hm hm' related
  | error => exact .error

/-- One computation after another. -/
theorem bind (h : RunsAlike R m m') (hf : ∀ x y, R x y → RunsAlike S (f x) (f' y)) :
    RunsAlike S (m >>= f) (m' >>= f') :=
  h.bind_of_ok fun _ t x y _ _ related => hf x y related t

theorem ite {c : Prop} [Decidable c] {n : EStateM ε σ α} {n' : EStateM ε σ β} (h : RunsAlike R m m')
    (hn : RunsAlike R n n') : RunsAlike R (if c then m else n) (if c then m' else n') := by
  by_cases hc : c
  · rw [if_pos hc, if_pos hc]
    exact h
  · rw [if_neg hc, if_neg hc]
    exact hn

/-- Computations in a row. -/
theorem mapM {ι κ : Type} {g : ι → EStateM ε σ α} {g' : κ → EStateM ε σ β} {is : List ι} {ks : List κ}
    (h : List.Forall₂ (fun i k => RunsAlike R (g i) (g' k)) is ks) :
    RunsAlike (List.Forall₂ R) (is.mapM g) (ks.mapM g') := by
  induction h with
  | nil => exact .pure .nil
  | cons hfirst _ ih =>
    rw [List.mapM_cons, List.mapM_cons]
    refine hfirst.bind fun x y hxy => ?_
    exact ih.bind fun xs ys hrest => .pure (.cons hxy hrest)

end RunsAlike

end

section
variable {ε σ α γ : Type}

theorem RunsAlike.refl (m : EStateM ε σ α) : RunsAlike Eq m m := by
  intro s
  cases m s with
  | ok x t => exact .ok rfl
  | error e t => exact .error

/-- Computations in a row that have the same results. -/
theorem RunsAlike.mapM_eq {ι κ : Type} {g : ι → EStateM ε σ α} {g' : κ → EStateM ε σ α} {is : List ι}
    {ks : List κ} (h : List.Forall₂ (fun i k => RunsAlike Eq (g i) (g' k)) is ks) :
    RunsAlike Eq (is.mapM g) (ks.mapM g') :=
  (RunsAlike.mapM h).imp fun _ _ hsame => List.forall₂_eq_eq_eq ▸ hsame

/-- After the same result, the computations that are done with it end alike. -/
theorem RunsAlike.bind_eq {β : Type} {S : β → γ → Prop} {m m' : EStateM ε σ α} {f : α → EStateM ε σ β}
    {f' : α → EStateM ε σ γ} (h : RunsAlike Eq m m') (hf : ∀ x, RunsAlike S (f x) (f' x)) :
    RunsAlike S (m >>= f) (m' >>= f') :=
  h.bind fun x _ hsame => hsame ▸ hf x

/-- The same is done with the same result. -/
theorem RunsAlike.andThen {m m' : EStateM ε σ α} (h : RunsAlike Eq m m') (f : α → EStateM ε σ γ) :
    RunsAlike Eq (m >>= f) (m' >>= f) :=
  h.bind_eq fun x => .refl (f x)

end

/-- Computations that are put after another one are the same if they are so for each of its results. -/
theorem bind_congr_of_ok {ε σ α β : Type} {m : EStateM ε σ α} {f g : α → EStateM ε σ β}
    (h : ∀ s x t, m s = .ok x t → f x = g x) : m >>= f = m >>= g := by
  funext s
  change EStateM.bind m f s = EStateM.bind m g s
  rw [EStateM.bind, EStateM.bind]
  cases hm : m s with
  | ok x t => exact congrFun (h s x t hm) t
  | error e t => rfl

theorem AliasM.ofExcept_bind {α β : Type} (result : Except Error α) (f : α → Except Error β) :
    AliasM.ofExcept (result >>= f) = (AliasM.ofExcept result >>= fun x => AliasM.ofExcept (f x)) := by
  cases result <;> rfl

end ItemMapper
