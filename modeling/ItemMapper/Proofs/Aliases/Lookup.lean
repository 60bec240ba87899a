import ItemMapper.Proofs.Aliases.Growth

/-!
# Finding placeholders

A name or a value finds a placeholder in the tables, if it has one. New placeholders do not change what
is found: they are for names and values that found nothing. Hence asking for the placeholder of a name
or a value yields the same answer at any later time, and a later answer adds nothing. Values are
looked up without regard to the order inside sets, which is an equivalence: each value has a canonical
form, with its sets in order.

## Main definitions

* `AttributeValue.canonical`: a value with its sets in order.
* `Aliases.Keeps`: every name and every value that found a placeholder still finds it.
* `Aliases.Faithful`: what a placeholder stands for finds the placeholder.

## Main statements

* `AttributeValue.same_iff`: values are the same if their canonical forms are equal.
* `Aliases.Grows.keeps`: what is found stays found.
* `Aliases.Grows.faithful`: without raw text, each name and each value has one placeholder.
* `Aliases.nameAlias_cases`, `Aliases.valueAlias_cases`: asking for a placeholder.
* `Aliases.Keeps.nameAlias`, `Aliases.Keeps.valueAlias`: asking again.
-/

namespace ItemMapper

namespace AttributeValue

/-! ### Sets in order -/

mutual
/-- The value with its sets in order. -/
def canonical : AttributeValue → AttributeValue
  | .textSet members => .textSet (sortBy compareText members)
  | .numberSet members => .numberSet (sortBy compareText members)
  | .binarySet members => .binarySet (sortBy compareBytes members)
  | .list items => .list (canonicalItems items)
  | .map fields => .map (canonicalFields fields)
  | other => other

/-- The values with their sets in order. -/
def canonicalItems : List AttributeValue → List AttributeValue
  | [] => []
  | item :: rest => item.canonical :: canonicalItems rest

/-- The fields with the sets of their values in order. -/
def canonicalFields : List (String × AttributeValue) → List (String × AttributeValue)
  | [] => []
  | (key, value) :: rest => (key, value.canonical) :: canonicalFields rest
end

mutual
/-- **Values are the same if they are equal but for the order inside sets.** -/
theorem same_iff (x y : AttributeValue) : x.same y = true ↔ x.canonical = y.canonical := by
  match x, y with
  | .text x, y => cases y <;> simp [same, canonical]
  | .number x, y => cases y <;> simp [same, canonical]
  | .binary x, y => cases y <;> simp [same, canonical]
  | .textSet x, y => cases y <;> simp [same, canonical]
  | .numberSet x, y => cases y <;> simp [same, canonical]
  | .binarySet x, y => cases y <;> simp [same, canonical]
  | .bool x, y => cases y <;> simp [same, canonical]
  | .null x, y => cases y <;> simp [same, canonical]
  | .list x, y => cases y <;> simp [same, canonical, sameItems_iff x]
  | .map x, y => cases y <;> simp [same, canonical, sameFields_iff x]

theorem sameItems_iff (x y : List AttributeValue) :
    sameItems x y = true ↔ canonicalItems x = canonicalItems y := by
  match x, y with
  | [], y => cases y <;> simp [sameItems, canonicalItems]
  | x :: xs, y => cases y <;> simp [sameItems, canonicalItems, same_iff x, sameItems_iff xs]

theorem sameFields_iff (x y : List (String × AttributeValue)) :
    sameFields x y = true ↔ canonicalFields x = canonicalFields y := by
  match x, y with
  | [], y => cases y <;> simp [sameFields, canonicalFields]
  | (j, x) :: xs, y =>
    cases y <;>
      simp [sameFields, canonicalFields, same_iff x, sameFields_iff xs, Prod.ext_iff, and_assoc]
end

/-- Values that are the same are the same as the same values. -/
theorem same_congr_right {x y : AttributeValue} (h : x.same y = true) (z : AttributeValue) :
    z.same x = z.same y := by
  rw [Bool.eq_iff_iff, same_iff, same_iff, (same_iff x y).mp h]

end AttributeValue

namespace Aliases

/-! ### Tables with one placeholder more -/

/-- Values that are the same find the same placeholder. -/
theorem aliasOf?_congr (table : List (AttributeValue × String)) {value value' : AttributeValue}
    (h : value.same value' = true) : aliasOf? table value = aliasOf? table value' := by
  have hpredicate : (fun entry : AttributeValue × String => entry.1.same value) =
      fun entry => entry.1.same value' :=
    funext fun entry => AttributeValue.same_congr_right h entry.1
  rw [aliasOf?, aliasOf?, hpredicate]

theorem aliasOf?_cons (value : AttributeValue) (placeholder : String)
    (table : List (AttributeValue × String)) (key : AttributeValue) :
    aliasOf? ((value, placeholder) :: table) key =
      if value.same key then some placeholder else aliasOf? table key := by
  rw [aliasOf?, List.find?_cons]
  cases value.same key <;> rfl

/-- What a name finds after a placeholder was bound: what it found before, or the new one. -/
theorem lookup_bindName (a : Aliases) (placeholder name key : String) :
    (a.bindName placeholder name).nameAliases.lookup key =
      (a.nameAliases.lookup key).or (if key = name then some placeholder else none) := by
  have hnew : a.nameAliases.lookup name = none →
      ((name, placeholder) :: a.nameAliases).lookup key =
        (a.nameAliases.lookup key).or (if key = name then some placeholder else none) := by
    intro hnone
    rw [List.lookup_cons]
    by_cases hkey : key = name
    · subst hkey
      rw [hnone, if_pos rfl, beq_self_eq_true]
      rfl
    · rw [if_neg hkey, Option.or_none, beq_eq_false_iff_ne.mpr hkey]
  simp only [bindName]
  cases hfound : a.nameAliases.lookup name with
  | none => exact hnew hfound
  | some present =>
    rw [Option.isSome_some, if_pos rfl]
    by_cases hkey : key = name
    · subst hkey
      rw [hfound, Option.some_or]
    · rw [if_neg hkey, Option.or_none]

/-- What a value finds after a placeholder was bound: what it found before, or the new one. -/
theorem aliasOf?_bindValue (a : Aliases) (placeholder : String) (value key : AttributeValue) :
    aliasOf? (a.bindValue placeholder value).valueAliases key =
      (aliasOf? a.valueAliases key).or (if value.same key then some placeholder else none) := by
  simp only [bindValue]
  cases hfound : aliasOf? a.valueAliases value with
  | none =>
    rw [Option.isSome_none, if_neg Bool.false_ne_true, aliasOf?_cons]
    by_cases hkey : value.same key = true
    · rw [if_pos hkey, if_pos hkey, ← aliasOf?_congr _ hkey, hfound]
      rfl
    · rw [if_neg hkey, if_neg hkey, Option.or_none]
  | some present =>
    rw [Option.isSome_some, if_pos rfl]
    by_cases hkey : value.same key = true
    · rw [← aliasOf?_congr _ hkey, hfound, Option.some_or]
    · rw [if_neg hkey, Option.or_none]

/-! ### What is found stays found -/

/-- Every name and every value that finds a placeholder in the first tables finds it in the second
ones. -/
structure Keeps (a b : Aliases) : Prop where
  names : ∀ {name placeholder : String}, a.nameAliases.lookup name = some placeholder →
    b.nameAliases.lookup name = some placeholder
  values : ∀ {value : AttributeValue} {placeholder : String},
    aliasOf? a.valueAliases value = some placeholder →
    aliasOf? b.valueAliases value = some placeholder

theorem Keeps.refl (a : Aliases) : a.Keeps a := ⟨id, id⟩

theorem Keeps.trans {a b c : Aliases} (h : a.Keeps b) (h' : b.Keeps c) : a.Keeps c :=
  ⟨fun hfound => h'.names (h.names hfound), fun hfound => h'.values (h.values hfound)⟩

theorem keeps_bindName (a : Aliases) (placeholder name : String) :
    a.Keeps (a.bindName placeholder name) := by
  refine ⟨fun hfound => ?_, id⟩
  rw [lookup_bindName, hfound, Option.some_or]

theorem keeps_bindValue (a : Aliases) (placeholder : String) (value : AttributeValue) :
    a.Keeps (a.bindValue placeholder value) := by
  refine ⟨id, fun hfound => ?_⟩
  rw [aliasOf?_bindValue, hfound, Option.some_or]

section
variable {own : Char → String → Prop} {a b : Aliases}

theorem Adds.keeps (h : Adds own a b) : a.Keeps b := by
  cases h with
  | name =>
    obtain ⟨hnames, hvalues⟩ := keeps_bindName a _ _
    exact ⟨hnames, hvalues⟩
  | value =>
    obtain ⟨hnames, hvalues⟩ := keeps_bindValue a _ _
    exact ⟨hnames, hvalues⟩
  | rawName => exact keeps_bindName a _ _
  | rawValue => exact keeps_bindValue a _ _

/-- **A name or a value keeps the placeholder that it finds.** -/
theorem Grows.keeps (h : Grows own a b) : a.Keeps b := by
  induction h with
  | refl => exact .refl a
  | tail _ step ih => exact ih.trans step.keeps

end

/-! ### Without raw text -/

/-- What a placeholder stands for finds that placeholder and no other. -/
structure Faithful (a : Aliases) : Prop where
  names : ∀ {placeholder name : String}, a.names.get? placeholder = some name →
    a.nameAliases.lookup name = some placeholder
  values : ∀ {placeholder : String} {value : AttributeValue},
    a.values.get? placeholder = some value → aliasOf? a.valueAliases value = some placeholder

theorem faithful_empty : empty.Faithful := ⟨nofun, nofun⟩

/-- No placeholder of raw text is allowed. -/
def Generated (_ : Char) (_ : String) : Prop := False

section
variable {a b : Aliases}

theorem Adds.faithful (h : Adds Generated a b) (ha : a.Faithful) : b.Faithful := by
  have hkeeps := h.keeps
  cases h with
  | @name name number unknown free =>
    refine ⟨fun {placeholder other} hbound => ?_, fun hbound => hkeeps.values (ha.values hbound)⟩
    have hnames := get?_bindName a (nameMark number) name placeholder
    by_cases hplaceholder : placeholder = nameMark number
    · rw [if_pos hplaceholder] at hnames
      obtain rfl : name = other := Option.some.inj (hnames.symm.trans hbound)
      change (a.bindName (nameMark number) name).nameAliases.lookup name = _
      rw [lookup_bindName, unknown, if_pos rfl, hplaceholder]
      rfl
    · rw [if_neg hplaceholder] at hnames
      exact hkeeps.names (ha.names (hnames.symm.trans hbound))
  | @value value number unknown free =>
    refine ⟨fun hbound => hkeeps.names (ha.names hbound), fun {placeholder other} hbound => ?_⟩
    have hvalues := get?_bindValue a (valueMark number) placeholder value
    by_cases hplaceholder : placeholder = valueMark number
    · rw [if_pos hplaceholder] at hvalues
      obtain rfl : value = other := Option.some.inj (hvalues.symm.trans hbound)
      change aliasOf? (a.bindValue (valueMark number) value).valueAliases value = _
      rw [aliasOf?_bindValue, unknown, AttributeValue.same_refl, if_pos rfl, hplaceholder]
      rfl
    · rw [if_neg hplaceholder] at hvalues
      exact hkeeps.values (ha.values (hvalues.symm.trans hbound))
  | rawName _ hown => exact hown.elim
  | rawValue _ hown => exact hown.elim

/-- **Without raw text, each name and each value has one placeholder.** -/
theorem Grows.faithful (h : Grows Generated a b) (ha : a.Faithful) : b.Faithful := by
  induction h with
  | refl => exact ha
  | tail _ step ih => exact step.faithful ih

/-- Distinct placeholders stand for distinct names. -/
theorem Faithful.name_injective (h : a.Faithful) {p q name : String}
    (hp : a.names.get? p = some name) (hq : a.names.get? q = some name) : p = q :=
  Option.some.inj ((h.names hp).symm.trans (h.names hq))

/-- Distinct placeholders stand for values that are not the same. -/
theorem Faithful.value_injective (h : a.Faithful) {p q : String} {value value' : AttributeValue}
    (hp : a.values.get? p = some value) (hq : a.values.get? q = some value')
    (hsame : value.same value' = true) : p = q := by
  have hfound := h.values hp
  rw [aliasOf?_congr _ hsame, h.values hq] at hfound
  exact (Option.some.inj hfound).symm

end

/-! ### Asking for placeholders -/

/-- **Asking for the placeholder of a name**: it is found, or a free one is generated. -/
theorem nameAlias_cases (a : Aliases) (name : String) :
    ∃ placeholder b, nameAlias name a = .ok placeholder b ∧
      b.nameAliases.lookup name = some placeholder ∧
      (a.nameAliases.lookup name = some placeholder ∧ b = a ∨
        a.nameAliases.lookup name = none ∧ a.names.get? placeholder = none ∧
          ∃ number, placeholder = nameMark number) := by
  cases hfound : a.nameAliases.lookup name with
  | some placeholder =>
    exact ⟨placeholder, a, nameAlias_of_lookup hfound, hfound, .inl ⟨rfl, rfl⟩⟩
  | none =>
    obtain ⟨number, free, hrun⟩ := nameAlias_of_none hfound
    refine ⟨nameMark number, _, hrun, ?_, .inr ⟨rfl, free, number, rfl⟩⟩
    change (a.bindName (nameMark number) name).nameAliases.lookup name = _
    rw [lookup_bindName, hfound, if_pos rfl]
    rfl

/-- **Asking for the placeholder of a value**: it is found, or a free one is generated. -/
theorem valueAlias_cases (a : Aliases) (value : AttributeValue) :
    ∃ placeholder b, valueAlias value a = .ok placeholder b ∧
      aliasOf? b.valueAliases value = some placeholder ∧
      (aliasOf? a.valueAliases value = some placeholder ∧ b = a ∨
        aliasOf? a.valueAliases value = none ∧ a.values.get? placeholder = none ∧
          ∃ number, placeholder = valueMark number) := by
  cases hfound : aliasOf? a.valueAliases value with
  | some placeholder =>
    exact ⟨placeholder, a, valueAlias_of_aliasOf? hfound, hfound, .inl ⟨rfl, rfl⟩⟩
  | none =>
    obtain ⟨number, free, hrun⟩ := valueAlias_of_none hfound
    refine ⟨valueMark number, _, hrun, ?_, .inr ⟨rfl, free, number, rfl⟩⟩
    change aliasOf? (a.bindValue (valueMark number) value).valueAliases value = _
    rw [aliasOf?_bindValue, hfound, AttributeValue.same_refl, if_pos rfl]
    rfl

theorem lookup_of_nameAlias {a b : Aliases} {name placeholder : String}
    (h : nameAlias name a = .ok placeholder b) : b.nameAliases.lookup name = some placeholder := by
  obtain ⟨_, _, hrun, hfound, -⟩ := nameAlias_cases a name
  rw [hrun] at h
  cases h
  exact hfound

theorem aliasOf?_of_valueAlias {a b : Aliases} {value : AttributeValue} {placeholder : String}
    (h : valueAlias value a = .ok placeholder b) :
    aliasOf? b.valueAliases value = some placeholder := by
  obtain ⟨_, _, hrun, hfound, -⟩ := valueAlias_cases a value
  rw [hrun] at h
  cases h
  exact hfound

/-- **Asking for a name again** yields the same placeholder, and adds nothing. -/
theorem Keeps.nameAlias {a b c : Aliases} {name placeholder : String}
    (h : Aliases.nameAlias name a = .ok placeholder b) (hkeeps : b.Keeps c) :
    Aliases.nameAlias name c = .ok placeholder c :=
  nameAlias_of_lookup (hkeeps.names (lookup_of_nameAlias h))

/-- **Asking for the same value again** yields the same placeholder, and adds nothing. -/
theorem Keeps.valueAlias {a b c : Aliases} {value value' : AttributeValue} {placeholder : String}
    (h : Aliases.valueAlias value a = .ok placeholder b) (hkeeps : b.Keeps c)
    (hsame : value.same value' = true) :
    Aliases.valueAlias value' c = .ok placeholder c := by
  refine valueAlias_of_aliasOf? ?_
  rw [← aliasOf?_congr _ hsame]
  exact hkeeps.values (aliasOf?_of_valueAlias h)

end Aliases

end ItemMapper
