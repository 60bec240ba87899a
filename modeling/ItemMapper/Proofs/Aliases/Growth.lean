import ItemMapper.Proofs.Aliases.Coherence
import ItemMapper.Proofs.Computation

/-!
# How placeholder tables grow

Whatever is compiled, the tables change one placeholder at a time: a free placeholder is generated for
a name or a value that has none, or a placeholder of raw text that stands for nothing yet is taken
over. A computation that fails has taken such steps too. Properties of the tables are therefore
proved for one step, and hold after all of them.

## Main definitions

* `Aliases.Adds`: one placeholder more.
* `Aliases.Grows`: any number of them.
* `AliasM.Grows`: a computation that does nothing else to the tables, failing or not.
* `Aliases.Tidy`: coherent tables of well-formed placeholders.
* `Yields`: what a computation on tidy tables yields.

## Main statements

* `Aliases.Grows.extends`, `Aliases.Grows.coherent`, `Aliases.Grows.wellMarked`: what growth preserves.
* `Aliases.nameAlias_grows`, `Aliases.valueAlias_grows`, `Aliases.mergeRaw_grows`: the operations on
  the tables.
* `Aliases.nameAlias_spec`, `Aliases.valueAlias_spec`: what comes of asking for a placeholder.
-/

namespace ItemMapper

namespace Aliases

/-- One placeholder more. `own` says which placeholders raw text may bring, behind which mark. -/
inductive Adds (own : Char → String → Prop) (a : Aliases) : Aliases → Prop
  | name {name : String} {number : Nat} :
      a.nameAliases.lookup name = none → a.names.get? (nameMark number) = none →
      Adds own a { a.bindName (nameMark number) name with nextName := number + 1 }
  | value {value : AttributeValue} {number : Nat} :
      aliasOf? a.valueAliases value = none → a.values.get? (valueMark number) = none →
      Adds own a { a.bindValue (valueMark number) value with nextValue := number + 1 }
  | rawName {placeholder : String} (name : String) :
      own '#' placeholder → a.names.get? placeholder = none →
      Adds own a (a.bindName placeholder name)
  | rawValue {placeholder : String} (value : AttributeValue) :
      own ':' placeholder → a.values.get? placeholder = none →
      Adds own a (a.bindValue placeholder value)

/-- Any number of placeholders more. -/
def Grows (own : Char → String → Prop) : Aliases → Aliases → Prop :=
  Relation.ReflTransGen (Adds own)

instance (own : Char → String → Prop) : Std.Refl (Grows own) :=
  inferInstanceAs (Std.Refl (Relation.ReflTransGen (Adds own)))

instance (own : Char → String → Prop) : IsTrans Aliases (Grows own) :=
  inferInstanceAs (IsTrans Aliases (Relation.ReflTransGen (Adds own)))

/-- The form of the placeholders that the store knows. -/
def Marked (mark : Char) (placeholder : String) : Prop := isPlaceholder mark placeholder = true

section
variable {own : Char → String → Prop} {a b : Aliases}

theorem Adds.extends (h : Adds own a b) : a.Extends b := by
  cases h with
  | name _ free =>
    obtain ⟨hnames, hvalues⟩ := extends_bindName _ free
    exact ⟨hnames, hvalues⟩
  | value _ free =>
    obtain ⟨hnames, hvalues⟩ := extends_bindValue _ free
    exact ⟨hnames, hvalues⟩
  | rawName name _ free => exact extends_bindName name free
  | rawValue value _ free => exact extends_bindValue value free

theorem Adds.coherent (h : Adds own a b) (ha : a.Coherent) : b.Coherent := by
  cases h with
  | name _ free =>
    obtain ⟨hnames, hvalues⟩ := ha.bindName _ free
    exact ⟨hnames, hvalues⟩
  | value _ free =>
    obtain ⟨hnames, hvalues⟩ := ha.bindValue _ free
    exact ⟨hnames, hvalues⟩
  | rawName name _ free => exact ha.bindName name free
  | rawValue value _ free => exact ha.bindValue value free

theorem Adds.wellMarked (h : Adds Marked a b) (ha : a.WellMarked) : b.WellMarked := by
  cases h with
  | name =>
    obtain ⟨hnames, hvalues⟩ := ha.bindName _ (isPlaceholder_nameMark _)
    exact ⟨hnames, hvalues⟩
  | value =>
    obtain ⟨hnames, hvalues⟩ := ha.bindValue _ (isPlaceholder_valueMark _)
    exact ⟨hnames, hvalues⟩
  | rawName name hown => exact ha.bindName name hown
  | rawValue value hown => exact ha.bindValue value hown

/-- **A placeholder stands for the same thing for good.** -/
theorem Grows.extends (h : Grows own a b) : a.Extends b := by
  induction h with
  | refl => exact .refl a
  | tail _ step ih => exact ih.trans step.extends

/-- What finds a placeholder stays what the placeholder stands for. -/
theorem Grows.coherent (h : Grows own a b) (ha : a.Coherent) : b.Coherent := by
  induction h with
  | refl => exact ha
  | tail _ step ih => exact step.coherent ih

/-- Where raw text brings well-formed placeholders, all placeholders are well formed. -/
theorem Grows.wellMarked (h : Grows Marked a b) (ha : a.WellMarked) : b.WellMarked := by
  induction h with
  | refl => exact ha
  | tail _ step ih => exact step.wellMarked ih

end

end Aliases

namespace AliasM

/-- A computation that only adds placeholders, those of raw text among them as `own` allows. -/
abbrev Grows {α : Type} (own : Char → String → Prop) (m : AliasM α) : Prop := Leads (Aliases.Grows own) m

end AliasM

/-- Whether all placeholders that raw text brings are allowed. -/
structure RawExpression.Brings (own : Char → String → Prop) (raw : RawExpression) : Prop where
  names : ∀ entry ∈ raw.names, own '#' entry.1
  values : ∀ entry ∈ raw.values, own ':' entry.1

namespace Aliases

variable {own : Char → String → Prop}

/-! ### The operations on the tables -/

theorem nameAlias_of_lookup {a : Aliases} {name placeholder : String}
    (h : a.nameAliases.lookup name = some placeholder) :
    nameAlias name a = .ok placeholder a := by
  rw [nameAlias, get_bind, h]
  rfl

theorem nameAlias_of_none {a : Aliases} {name : String} (h : a.nameAliases.lookup name = none) :
    ∃ number, a.names.get? (nameMark number) = none ∧
      nameAlias name a =
        .ok (nameMark number) { a.bindName (nameMark number) name with nextName := number + 1 } := by
  refine ⟨_, free_firstFree a.names nameMark_injective a.nextName, ?_⟩
  rw [nameAlias, get_bind, h]
  rfl

theorem valueAlias_of_aliasOf? {a : Aliases} {value : AttributeValue} {placeholder : String}
    (h : aliasOf? a.valueAliases value = some placeholder) :
    valueAlias value a = .ok placeholder a := by
  rw [valueAlias, get_bind, h]
  rfl

theorem valueAlias_of_none {a : Aliases} {value : AttributeValue}
    (h : aliasOf? a.valueAliases value = none) :
    ∃ number, a.values.get? (valueMark number) = none ∧
      valueAlias value a =
        .ok (valueMark number)
          { a.bindValue (valueMark number) value with nextValue := number + 1 } := by
  refine ⟨_, free_firstFree a.values valueMark_injective a.nextValue, ?_⟩
  rw [valueAlias, get_bind, h]
  rfl

theorem nameAlias_grows (name : String) : AliasM.Grows own (nameAlias name) := by
  intro a
  rw [after]
  cases h : a.nameAliases.lookup name with
  | some placeholder =>
    rw [nameAlias_of_lookup h]
    exact .refl
  | none =>
    obtain ⟨number, free, hrun⟩ := nameAlias_of_none h
    rw [hrun]
    exact .single (.name h free)

theorem valueAlias_grows (value : AttributeValue) : AliasM.Grows own (valueAlias value) := by
  intro a
  rw [after]
  cases h : aliasOf? a.valueAliases value with
  | some placeholder =>
    rw [valueAlias_of_aliasOf? h]
    exact .refl
  | none =>
    obtain ⟨number, free, hrun⟩ := valueAlias_of_none h
    rw [hrun]
    exact .single (.value h free)

theorem mergeName_of_some {a : Aliases} {placeholder name present : String}
    (h : a.names.get? placeholder = some present) :
    mergeName placeholder name a =
      if present = name then .ok () a else .error ↑(Cause.aliasConflict placeholder) a := by
  rw [mergeName, get_bind, h]
  by_cases hname : present = name
  · rw [if_pos hname]
    exact congrFun (if_pos hname) a
  · rw [if_neg hname]
    exact congrFun (if_neg hname) a

theorem mergeName_of_none {a : Aliases} {placeholder : String} (name : String)
    (h : a.names.get? placeholder = none) :
    mergeName placeholder name a = .ok () (a.bindName placeholder name) := by
  rw [mergeName, get_bind, h]
  rfl

theorem mergeName_grows {placeholder : String} (name : String) (hown : own '#' placeholder) :
    AliasM.Grows own (mergeName placeholder name) := by
  intro a
  rw [after]
  cases free : a.names.get? placeholder with
  | some present =>
    rw [mergeName_of_some free]
    by_cases hname : present = name
    · rw [if_pos hname]
      exact .refl
    · rw [if_neg hname]
      exact .refl
  | none =>
    rw [mergeName_of_none name free]
    exact .single (.rawName name hown free)

/-- Takes over a placeholder for a value in its stored form. -/
def mergeStored (placeholder : String) (value : AttributeValue) : AliasM Unit := do
  let a ← get
  match a.values.get? placeholder with
  | some present => if present.same value then pure () else throw ↑(Cause.aliasConflict placeholder)
  | none => set (a.bindValue placeholder value)

theorem mergeValue_eq (options : CodecOptions) (placeholder : String) (value : Value) :
    mergeValue options placeholder value =
      (AliasM.ofExcept (stored options value) >>= mergeStored placeholder) := rfl

theorem mergeStored_of_some {a : Aliases} {placeholder : String} {value present : AttributeValue}
    (h : a.values.get? placeholder = some present) :
    mergeStored placeholder value a =
      if present.same value then .ok () a else .error ↑(Cause.aliasConflict placeholder) a := by
  rw [mergeStored, get_bind, h]
  by_cases hsame : present.same value = true
  · rw [if_pos hsame]
    exact congrFun (if_pos hsame) a
  · rw [if_neg hsame]
    exact congrFun (if_neg hsame) a

theorem mergeStored_of_none {a : Aliases} {placeholder : String} (value : AttributeValue)
    (h : a.values.get? placeholder = none) :
    mergeStored placeholder value a = .ok () (a.bindValue placeholder value) := by
  rw [mergeStored, get_bind, h]
  rfl

theorem mergeStored_grows {placeholder : String} (value : AttributeValue)
    (hown : own ':' placeholder) : AliasM.Grows own (mergeStored placeholder value) := by
  intro a
  rw [after]
  cases free : a.values.get? placeholder with
  | some present =>
    rw [mergeStored_of_some free]
    by_cases hsame : present.same value = true
    · rw [if_pos hsame]
      exact .refl
    · rw [if_neg hsame]
      exact .refl
  | none =>
    rw [mergeStored_of_none value free]
    exact .single (.rawValue value hown free)

theorem mergeValue_grows (options : CodecOptions) {placeholder : String} (value : Value)
    (hown : own ':' placeholder) : AliasM.Grows own (mergeValue options placeholder value) := by
  rw [mergeValue_eq]
  exact .bind (.ofExcept _) fun value => mergeStored_grows value hown

theorem mergeNames_grows {entries : List (String × String)}
    (hown : ∀ entry ∈ entries, own '#' entry.1) : AliasM.Grows own (mergeNames entries) := by
  induction entries with
  | nil => exact .pure ()
  | cons entry rest ih =>
    refine .bind (mergeName_grows entry.2 (hown entry List.mem_cons_self)) fun _ => ?_
    exact ih fun entry h => hown entry (List.mem_cons_of_mem _ h)

theorem mergeValues_grows (options : CodecOptions) {entries : List (String × Value)}
    (hown : ∀ entry ∈ entries, own ':' entry.1) :
    AliasM.Grows own (mergeValues options entries) := by
  induction entries with
  | nil => exact .pure ()
  | cons entry rest ih =>
    refine .bind (mergeValue_grows options entry.2 (hown entry List.mem_cons_self)) fun _ => ?_
    exact ih fun entry h => hown entry (List.mem_cons_of_mem _ h)

theorem mergeRaw_grows (options : CodecOptions) {raw : RawExpression} (hraw : raw.Brings own) :
    AliasM.Grows own (mergeRaw options raw) :=
  .bind (mergeNames_grows hraw.names) fun _ => mergeValues_grows options hraw.values

/-! ### Tidy tables -/

/-- The tables as they are where only well-formed placeholders came in. -/
structure Tidy (a : Aliases) : Prop where
  coherent : a.Coherent
  wellMarked : a.WellMarked

theorem tidy_empty : empty.Tidy := ⟨coherent_empty, wellMarked_empty⟩

theorem Grows.tidy {a b : Aliases} (h : Grows Marked a b) (ha : a.Tidy) : b.Tidy :=
  ⟨h.coherent ha.coherent, h.wellMarked ha.wellMarked⟩

/-- The placeholder that a name gets stands for the name. -/
theorem nameAlias_spec {a b : Aliases} {name placeholder : String} (ha : a.Tidy)
    (h : nameAlias name a = .ok placeholder b) :
    b.names.get? placeholder = some name ∧ isPlaceholder '#' placeholder = true := by
  cases hlookup : a.nameAliases.lookup name with
  | some present =>
    rw [nameAlias_of_lookup hlookup] at h
    cases h
    have hmem := mem_of_lookup hlookup
    exact ⟨ha.coherent.names hmem, ha.wellMarked.names hmem⟩
  | none =>
    obtain ⟨number, free, hrun⟩ := nameAlias_of_none hlookup
    rw [hrun] at h
    cases h
    refine ⟨?_, isPlaceholder_nameMark number⟩
    exact (get?_bindName a _ name _).trans (if_pos rfl)

/-- The placeholder that a value gets stands for the value, up to the order inside sets. -/
theorem valueAlias_spec {a b : Aliases} {value : AttributeValue} {placeholder : String} (ha : a.Tidy)
    (h : valueAlias value a = .ok placeholder b) :
    ∃ present, b.values.get? placeholder = some present ∧ present.same value = true ∧
      isPlaceholder ':' placeholder = true := by
  cases hlookup : aliasOf? a.valueAliases value with
  | some found =>
    rw [valueAlias_of_aliasOf? hlookup] at h
    cases h
    obtain ⟨present, hmem, hsame⟩ := mem_of_aliasOf? hlookup
    exact ⟨present, ha.coherent.values hmem, hsame, ha.wellMarked.values hmem⟩
  | none =>
    obtain ⟨number, free, hrun⟩ := valueAlias_of_none hlookup
    rw [hrun] at h
    cases h
    refine ⟨value, ?_, AttributeValue.same_refl value, isPlaceholder_valueMark number⟩
    exact (get?_bindValue a _ _ value).trans (if_pos rfl)

end Aliases

/-! ### Results -/

/-- A computation whose results have a property, and that leaves tidy tables with more placeholders. -/
def Yields {α : Type} (m : AliasM α) (Q : Aliases → α → Prop) : Prop :=
  ∀ ⦃a b : Aliases⦄ ⦃x : α⦄, a.Tidy → m a = .ok x b → b.Tidy ∧ a.Extends b ∧ Q b x

namespace Yields

variable {α β : Type} {Q : α → Prop} {R : Aliases → β → Prop}

theorem pure {y : β} (h : ∀ a, R a y) : Yields (Pure.pure y) R := by
  intro a b x ha hrun
  obtain ⟨rfl, rfl⟩ := pure_eq_ok.mp hrun
  exact ⟨ha, .refl a, h a⟩

theorem throw (e : Error) : Yields (MonadExcept.throw e) R :=
  fun _ _ _ _ hrun => (throw_eq_ok.mp hrun).elim

theorem bind {m : AliasM α} {f : α → AliasM β} (hm : Yields m fun _ x => Q x)
    (hf : ∀ x, Q x → Yields (f x) R) : Yields (m >>= f) R := by
  intro a b y ha hrun
  obtain ⟨x, a₁, hx, hy⟩ := bind_eq_ok.mp hrun
  obtain ⟨ha₁, hextends, hQ⟩ := hm ha hx
  obtain ⟨hb, hextends', hR⟩ := hf x hQ ha₁ hy
  exact ⟨hb, hextends.trans hextends', hR⟩

theorem imp {m : AliasM β} {R' : Aliases → β → Prop} (hm : Yields m R)
    (h : ∀ a y, R a y → R' a y) : Yields m R' := by
  intro a b y ha hrun
  obtain ⟨hb, hextends, hR⟩ := hm ha hrun
  exact ⟨hb, hextends, h b y hR⟩

theorem ofExcept {result : Except Error α} (h : ∀ x, result = .ok x → Q x) :
    Yields (AliasM.ofExcept result) fun _ x => Q x := by
  intro a b x ha hrun
  obtain ⟨hresult, rfl⟩ := AliasM.ofExcept_eq_ok.mp hrun
  exact ⟨ha, .refl a, h x hresult⟩

end Yields

/-- Several computations yield what each of them yields, if more placeholders do no harm. -/
theorem mapM_yields {α β : Type} {f : α → AliasM β} {Q : Aliases → α → β → Prop}
    (mono : ∀ {a b : Aliases} {x : α} {y : β}, Q a x y → a.Extends b → Q b x y) {xs : List α}
    (hf : ∀ x ∈ xs, Yields (f x) fun a y => Q a x y) :
    Yields (xs.mapM f) fun a ys => List.Forall₂ (Q a) xs ys := by
  induction xs with
  | nil =>
    intro a b ys ha h
    obtain ⟨rfl, rfl⟩ := mapM_nil_eq_ok.mp h
    exact ⟨ha, .refl a, .nil⟩
  | cons x xs ih =>
    intro a b ys ha h
    obtain ⟨y, a₁, zs, hy, hzs, rfl⟩ := mapM_cons_eq_ok.mp h
    obtain ⟨ha₁, hextends, hQ⟩ := hf x List.mem_cons_self ha hy
    obtain ⟨hb, hextends', hQs⟩ := ih (fun x hx => hf x (List.mem_cons_of_mem _ hx)) ha₁ hzs
    exact ⟨hb, hextends.trans hextends', .cons (mono hQ hextends') hQs⟩

/-- Several computations yield as many results, all with the property that each of them has. -/
theorem Yields.mapM {α β : Type} {f : α → AliasM β} {Q : β → Prop} {xs : List α}
    (hf : ∀ x ∈ xs, Yields (f x) fun _ y => Q y) :
    Yields (xs.mapM f) fun _ ys => ys.length = xs.length ∧ ∀ y ∈ ys, Q y := by
  refine (mapM_yields (Q := fun _ _ y => Q y) (fun hQ _ => hQ) hf).imp fun a ys hys => ?_
  refine ⟨hys.length_eq.symm, ?_⟩
  induction hys with
  | nil => exact fun _ h => absurd h List.not_mem_nil
  | cons hy _ ih =>
    exact List.forall_mem_cons.mpr ⟨hy, ih fun x hx => hf x (List.mem_cons_of_mem _ hx)⟩

end ItemMapper
