import ItemMapper.Proofs.Aliases.Lookup

/-!
# Computations that ask for placeholders

Whatever is compiled touches the placeholder tables in three ways only: it asks for the placeholder of
a name, for that of a value, and takes over the placeholders of raw text. What these steps keep to,
every computation that is made of them keeps to. They only add placeholders, and they can be
repeated: with tables that include all that a computation left behind, it yields what it
yielded, or fails as it failed, and adds nothing more.

## Main definitions

* `Aliases.Includes`: tables with all that other tables hold.
* `RepeatsOn`: a computation that does the same again and adds nothing.
* `AliasM.Made`: a computation made of the three steps.

## Main statements

* `AliasM.Made.grows`: such a computation only adds placeholders.
* `AliasM.Made.repeats`: such a computation can be repeated.
-/

namespace ItemMapper

/-- The first tables are included in the second ones: placeholders stand for the same things, and names
and values find the same placeholders. -/
structure Aliases.Includes (a b : Aliases) : Prop where
  bound : a.Extends b
  found : a.Keeps b

theorem Aliases.Includes.refl (a : Aliases) : a.Includes a := ⟨.refl a, .refl a⟩

theorem Aliases.Includes.trans {a b c : Aliases} (h : a.Includes b) (h' : b.Includes c) :
    a.Includes c := ⟨h.bound.trans h'.bound, h.found.trans h'.found⟩

theorem Aliases.Grows.includes {own : Char → String → Prop} {a b : Aliases} (h : Grows own a b) :
    a.Includes b := ⟨h.extends, h.keeps⟩

/-! ### Repeating -/

/-- The outcome of a computation with another state behind it. -/
def mapState {ε σ α : Type} (f : σ → σ) : EStateM.Result ε σ α → EStateM.Result ε σ α
  | .ok x s => .ok x (f s)
  | .error e s => .error e (f s)

/-- A computation on states that hold tables and possibly more. It adds to the tables only, and with
tables that include those that it left behind, it does the same again and adds nothing. -/
structure RepeatsOn {σ α : Type} (view : σ → Aliases) (put : Aliases → σ → σ) (m : EStateM Error σ α) :
    Prop where
  includes : ∀ s, (view s).Includes (view (after m s))
  again : ∀ {s b}, (view (after m s)).Includes b → m (put b s) = mapState (put b) (m s)

namespace RepeatsOn

variable {σ α β : Type} {view : σ → Aliases} {put : Aliases → σ → σ}

theorem pure (x : α) : RepeatsOn view put (Pure.pure x : EStateM Error σ α) :=
  ⟨fun _ => .refl _, fun _ => rfl⟩

theorem throw (e : Error) : RepeatsOn view put (MonadExcept.throw e : EStateM Error σ α) :=
  ⟨fun _ => .refl _, fun _ => rfl⟩

/-- What comes next may rely on what came first having yielded its result. -/
theorem bind {m : EStateM Error σ α} {f : α → EStateM Error σ β} (hm : RepeatsOn view put m)
    (hf : ∀ {x s t}, m s = .ok x t → RepeatsOn view put (f x)) : RepeatsOn view put (m >>= f) := by
  have hrun : ∀ s, (m >>= f) s = match m s with
      | .ok x t => f x t
      | .error e t => .error e t := by
    intro s
    change EStateM.bind m f s = _
    rw [EStateM.bind]
    cases m s <;> rfl
  constructor
  · intro s
    have hfirst := hm.includes s
    rw [after] at hfirst ⊢
    rw [hrun]
    cases hms : m s with
    | ok x t =>
      rw [hms] at hfirst
      exact hfirst.trans ((hf hms).includes t)
    | error e t =>
      rw [hms] at hfirst
      exact hfirst
  · intro s b hb
    rw [after, hrun] at hb
    rw [hrun, hrun]
    cases hms : m s with
    | ok x t =>
      rw [hms] at hb
      have hafter : after m s = t := by rw [after, hms]
      -- what the first computation left behind is included in what both leave behind
      have hmiddle : (view (after m s)).Includes b := by
        rw [hafter]
        exact ((hf hms).includes t).trans hb
      rw [hm.again hmiddle, hms]
      exact (hf hms).again hb
    | error e t =>
      rw [hms] at hb
      have hmiddle : (view (after m s)).Includes b := by
        rw [after, hms]
        exact hb
      rw [hm.again hmiddle, hms]
      rfl

end RepeatsOn

namespace AliasM

/-- A computation on the tables alone that can be repeated. -/
abbrev Repeats {α : Type} (m : AliasM α) : Prop := RepeatsOn id (fun b _ => b) m

theorem repeats_ofExcept {α : Type} (result : Except Error α) : Repeats (ofExcept result) := by
  cases result with
  | ok x => exact .pure x
  | error e => exact .throw e

/-- What a step leaves behind includes the tables that it found, if it only adds placeholders. -/
theorem includes_of_grows {own : Char → String → Prop} {α : Type} {m : AliasM α} (h : m.Grows own)
    (a : Aliases) : a.Includes (after m a) := (h a).includes

end AliasM

namespace Aliases

open AliasM (Repeats)

/-- Whether raw text may bring a placeholder: any that it likes. -/
def Arbitrary (_ : Char) (_ : String) : Prop := True

theorem nameAlias_repeats (name : String) : Repeats (nameAlias name) := by
  have hgrows : AliasM.Grows Arbitrary (nameAlias name) := nameAlias_grows name
  refine ⟨AliasM.includes_of_grows hgrows, fun {a b} hb => ?_⟩
  obtain ⟨placeholder, a', hrun, -, -⟩ := nameAlias_cases a name
  rw [after, hrun] at hb
  rw [hrun]
  exact hb.found.nameAlias hrun

theorem valueAlias_repeats (value : AttributeValue) : Repeats (valueAlias value) := by
  have hgrows : AliasM.Grows Arbitrary (valueAlias value) := valueAlias_grows value
  refine ⟨AliasM.includes_of_grows hgrows, fun {a b} hb => ?_⟩
  obtain ⟨placeholder, a', hrun, -, -⟩ := valueAlias_cases a value
  rw [after, hrun] at hb
  rw [hrun]
  exact hb.found.valueAlias hrun (AttributeValue.same_refl value)

theorem mergeName_repeats (placeholder name : String) : Repeats (mergeName placeholder name) := by
  have hgrows : AliasM.Grows Arbitrary (mergeName placeholder name) := mergeName_grows name trivial
  refine ⟨AliasM.includes_of_grows hgrows, fun {a b} hb => ?_⟩
  rw [after] at hb
  cases hbound : a.names.get? placeholder with
  | some present =>
    rw [mergeName_of_some hbound] at hb ⊢
    by_cases hname : present = name
    · rw [if_pos hname] at hb ⊢
      rw [mergeName_of_some (hb.bound.names hbound), if_pos hname]
      rfl
    · rw [if_neg hname] at hb ⊢
      rw [mergeName_of_some (hb.bound.names hbound), if_neg hname]
      rfl
  | none =>
    rw [mergeName_of_none name hbound] at hb ⊢
    have hnew : (a.bindName placeholder name).names.get? placeholder = some name := by
      rw [get?_bindName, if_pos rfl]
    rw [mergeName_of_some (hb.bound.names hnew), if_pos rfl]
    rfl

theorem mergeStored_repeats (placeholder : String) (value : AttributeValue) :
    Repeats (mergeStored placeholder value) := by
  have hgrows : AliasM.Grows Arbitrary (mergeStored placeholder value) :=
    mergeStored_grows value trivial
  refine ⟨AliasM.includes_of_grows hgrows, fun {a b} hb => ?_⟩
  rw [after] at hb
  cases hbound : a.values.get? placeholder with
  | some present =>
    rw [mergeStored_of_some hbound] at hb ⊢
    by_cases hsame : present.same value = true
    · rw [if_pos hsame] at hb ⊢
      rw [mergeStored_of_some (hb.bound.values hbound), if_pos hsame]
      rfl
    · rw [if_neg hsame] at hb ⊢
      rw [mergeStored_of_some (hb.bound.values hbound), if_neg hsame]
      rfl
  | none =>
    rw [mergeStored_of_none value hbound] at hb ⊢
    have hnew : (a.bindValue placeholder value).values.get? placeholder = some value := by
      rw [get?_bindValue, if_pos rfl]
    rw [mergeStored_of_some (hb.bound.values hnew), AttributeValue.same_refl, if_pos rfl]
    rfl

theorem mergeNames_repeats (entries : List (String × String)) : Repeats (mergeNames entries) := by
  induction entries with
  | nil => exact .pure ()
  | cons entry rest ih => exact .bind (mergeName_repeats entry.1 entry.2) fun _ => ih

theorem mergeValues_repeats (options : CodecOptions) (entries : List (String × Value)) :
    Repeats (mergeValues options entries) := by
  induction entries with
  | nil => exact .pure ()
  | cons entry rest ih =>
    have hfirst : Repeats (mergeValue options entry.1 entry.2) := by
      rw [mergeValue_eq]
      exact .bind (AliasM.repeats_ofExcept _) fun _ => mergeStored_repeats entry.1 _
    exact .bind hfirst fun _ => ih

theorem mergeRaw_repeats (options : CodecOptions) (raw : RawExpression) :
    Repeats (mergeRaw options raw) :=
  .bind (mergeNames_repeats raw.names) fun _ => mergeValues_repeats options raw.values

end Aliases

/-! ### Made of steps -/

/-- A computation that asks for placeholders and takes over placeholders of raw text, those that `own`
allows, and does nothing else to the tables. -/
inductive AliasM.Made (own : Char → String → Prop) : {α : Type} → AliasM α → Prop
  | pure {α : Type} (x : α) : Made own (Pure.pure x)
  | throw {α : Type} (e : Error) : Made own (MonadExcept.throw e : AliasM α)
  | bind {α β : Type} {m : AliasM α} {f : α → AliasM β} :
      Made own m → (∀ x, Made own (f x)) → Made own (m >>= f)
  | nameAlias (name : String) : Made own (Aliases.nameAlias name)
  | valueAlias (value : AttributeValue) : Made own (Aliases.valueAlias value)
  | mergeRaw (options : CodecOptions) {raw : RawExpression} :
      raw.Brings own → Made own (Aliases.mergeRaw options raw)

namespace AliasM.Made

variable {own : Char → String → Prop} {α : Type}

theorem ite {c : Prop} [Decidable c] {m n : AliasM α} (hm : m.Made own) (hn : n.Made own) :
    Made own (if c then m else n) := by
  by_cases hc : c
  · rwa [if_pos hc]
  · rwa [if_neg hc]

theorem ofExcept (result : Except Error α) : Made own (AliasM.ofExcept result) := by
  cases result with
  | ok x => exact .pure x
  | error e => exact .throw e

theorem mapM {β : Type} {f : β → AliasM α} {xs : List β} (hf : ∀ x ∈ xs, (f x).Made own) :
    Made own (xs.mapM f) := by
  induction xs with
  | nil => exact .pure []
  | cons x xs ih =>
    rw [List.mapM_cons]
    refine .bind (hf x List.mem_cons_self) fun y => ?_
    exact .bind (ih fun x hx => hf x (List.mem_cons_of_mem _ hx)) fun ys => .pure (y :: ys)

/-- **A computation made of steps only adds placeholders.** -/
theorem grows {m : AliasM α} (h : m.Made own) : m.Grows own := by
  induction h with
  | pure x => exact Leads.pure x
  | throw e => exact Leads.throw e
  | bind _ _ ihm ihf => exact Leads.bind ihm ihf
  | nameAlias name => exact Aliases.nameAlias_grows name
  | valueAlias value => exact Aliases.valueAlias_grows value
  | mergeRaw options hraw => exact Aliases.mergeRaw_grows options hraw

/-- **A computation made of steps can be repeated.** -/
theorem repeats {m : AliasM α} (h : m.Made own) : m.Repeats := by
  induction h with
  | pure x => exact .pure x
  | throw e => exact .throw e
  | bind _ _ ihm ihf => exact .bind ihm fun _ => ihf _
  | nameAlias name => exact Aliases.nameAlias_repeats name
  | valueAlias value => exact Aliases.valueAlias_repeats value
  | mergeRaw options _ => exact Aliases.mergeRaw_repeats options _

end AliasM.Made

end ItemMapper
