import Mathlib.Data.List.Nodup
import Mathlib.Data.List.Perm.Subperm
import ItemMapper.Expression.Aliases
import ItemMapper.Proofs.Values.Fields

/-!
# Coherent placeholder tables

The tables of a request only grow: a placeholder that stands for something stands for it for good,
because a generated placeholder is a free one and a placeholder of raw text is refused where it
stands for something else. The tables by which names and values find their placeholders agree with
the tables that are sent along.

## Main definitions

* `Aliases.Extends`: every placeholder still stands for what it stood for.
* `Aliases.Coherent`: what finds a placeholder is what the placeholder stands for.
* `Aliases.WellMarked`: every placeholder in use is a mark and then letters, digits and underscores.

## Main statements

* `Aliases.free_firstFree`: the search for a free placeholder ends with one.
* `Aliases.Coherent.bindName`, `Aliases.Coherent.bindValue`: a placeholder that stood for nothing may
  stand for anything.
-/

namespace ItemMapper

namespace AttributeValue

mutual
theorem same_refl : ∀ value : AttributeValue, value.same value = true
  | .text _ | .number _ | .binary _ | .textSet _ | .numberSet _ | .binarySet _ | .bool _
  | .null _ => by simp [same]
  | .list items => by rw [same, sameItems_refl items]
  | .map fields => by rw [same, sameFields_refl fields]

theorem sameItems_refl : ∀ items : List AttributeValue, sameItems items items = true
  | [] => rfl
  | item :: rest => by rw [sameItems, same_refl item, sameItems_refl rest, Bool.and_self]

theorem sameFields_refl :
    ∀ fields : List (String × AttributeValue), sameFields fields fields = true
  | [] => rfl
  | (key, value) :: rest => by
    rw [sameFields, same_refl value, sameFields_refl rest, beq_self_eq_true, Bool.and_self,
      Bool.and_self]
end

end AttributeValue

namespace Fields

theorem mem_keys_of_contains {α : Type} {fields : Fields α} {key : String}
    (h : fields.contains key = true) : key ∈ fields.map Prod.fst := by
  induction fields with
  | nil => simp [contains, get?] at h
  | cons entry rest ih =>
    obtain ⟨k, v⟩ := entry
    simp only [contains, get?_cons] at h
    by_cases hk : key = k
    · simp [hk]
    · rw [if_neg hk] at h
      exact List.mem_cons_of_mem _ (ih h)

end Fields

namespace Aliases

/-- Every placeholder of the first tables stands for the same thing in the second ones. -/
structure Extends (a b : Aliases) : Prop where
  names : ∀ {placeholder name : String}, a.names.get? placeholder = some name →
    b.names.get? placeholder = some name
  values : ∀ {placeholder : String} {value : AttributeValue},
    a.values.get? placeholder = some value → b.values.get? placeholder = some value

/-- The placeholder that a name or a value finds stands for it. -/
structure Coherent (a : Aliases) : Prop where
  names : ∀ {name placeholder : String}, (name, placeholder) ∈ a.nameAliases →
    a.names.get? placeholder = some name
  values : ∀ {value : AttributeValue} {placeholder : String},
    (value, placeholder) ∈ a.valueAliases → a.values.get? placeholder = some value

/-- Whether a text is a mark with letters, digits and underscores behind it. -/
def isPlaceholder (mark : Char) (text : String) : Bool :=
  match text.toList with
  | [] => false
  | c :: rest => c == mark && !rest.isEmpty && rest.all isNameChar

theorem exists_cons_of_isPlaceholder {mark : Char} {placeholder : String}
    (h : isPlaceholder mark placeholder = true) :
    ∃ cs, placeholder.toList = mark :: cs ∧ cs.all isNameChar = true := by
  unfold isPlaceholder at h
  split at h
  · cases h
  · rename_i c cs heq
    rw [Bool.and_eq_true, Bool.and_eq_true, beq_iff_eq] at h
    obtain ⟨⟨rfl, -⟩, hall⟩ := h
    exact ⟨cs, heq, hall⟩

/-- Every placeholder that a name or a value finds has the form of one. -/
structure WellMarked (a : Aliases) : Prop where
  names : ∀ {name placeholder : String}, (name, placeholder) ∈ a.nameAliases →
    isPlaceholder '#' placeholder = true
  values : ∀ {value : AttributeValue} {placeholder : String},
    (value, placeholder) ∈ a.valueAliases → isPlaceholder ':' placeholder = true

theorem Extends.refl (a : Aliases) : a.Extends a := ⟨id, id⟩

theorem Extends.trans {a b c : Aliases} (h : a.Extends b) (h' : b.Extends c) : a.Extends c :=
  ⟨fun hp => h'.names (h.names hp), fun hp => h'.values (h.values hp)⟩

theorem coherent_empty : empty.Coherent :=
  ⟨fun h => absurd h (List.not_mem_nil), fun h => absurd h (List.not_mem_nil)⟩

theorem wellMarked_empty : empty.WellMarked :=
  ⟨fun h => absurd h (List.not_mem_nil), fun h => absurd h (List.not_mem_nil)⟩

/-! ### Generated placeholders -/

theorem toList_nameMark (n : Nat) : (nameMark n).toList = '#' :: 'p' :: Nat.toDigits 10 n := by
  rw [nameMark, String.toList_append, ← Nat.toList_repr]
  rfl

theorem toList_valueMark (n : Nat) : (valueMark n).toList = ':' :: 'v' :: Nat.toDigits 10 n := by
  rw [valueMark, String.toList_append, ← Nat.toList_repr]
  rfl

theorem toDigits_injective : Function.Injective (Nat.toDigits 10) := by
  intro n m h
  rw [← Nat.ofDigitChars_ten_toDigits (n := n), h, Nat.ofDigitChars_ten_toDigits]

theorem nameMark_injective : Function.Injective nameMark := by
  intro n m h
  have hlist := congrArg String.toList h
  rw [toList_nameMark, toList_nameMark] at hlist
  exact toDigits_injective (by simpa using hlist)

theorem valueMark_injective : Function.Injective valueMark := by
  intro n m h
  have hlist := congrArg String.toList h
  rw [toList_valueMark, toList_valueMark] at hlist
  exact toDigits_injective (by simpa using hlist)

/-- The digits of a number may stand in a name. -/
theorem all_isNameChar_toDigits (n : Nat) : (Nat.toDigits 10 n).all isNameChar = true := by
  rw [List.all_eq_true]
  intro c hc
  have hd := Nat.isDigit_of_mem_toDigits (by decide) (by decide) hc
  simp [isNameChar, Char.isAlphanum, hd]

theorem isPlaceholder_nameMark (n : Nat) : isPlaceholder '#' (nameMark n) = true := by
  simp [isPlaceholder, toList_nameMark, all_isNameChar_toDigits, isNameChar]

theorem isPlaceholder_valueMark (n : Nat) : isPlaceholder ':' (valueMark n) = true := by
  simp [isPlaceholder, toList_valueMark, all_isNameChar_toDigits, isNameChar]

/-- The search stops at a free number, or has found all numbers before its end taken. -/
theorem firstFree_spec (taken : Nat → Bool) (start bound : Nat) :
    taken (firstFree taken start bound) = false ∨
      firstFree taken start bound = start + bound ∧
        ∀ i, start ≤ i → i < start + bound → taken i = true := by
  induction bound generalizing start with
  | zero => exact .inr ⟨rfl, fun i h h' => by omega⟩
  | succ bound ih =>
    simp only [firstFree]
    by_cases hs : taken start = true
    · rw [if_pos hs]
      rcases ih (start + 1) with hfree | ⟨heq, hall⟩
      · exact .inl hfree
      · refine .inr ⟨by omega, fun i hi hlt => ?_⟩
        rcases Nat.eq_or_lt_of_le hi with rfl | hi
        · exact hs
        · exact hall i hi (by omega)
    · rw [if_neg hs]
      exact .inl (by simpa using hs)

/-- **A free placeholder is found**: as many tries as there are fields suffice, because the fields
cannot have taken one more. -/
theorem free_firstFree {α : Type} (fields : Fields α) {mark : Nat → String}
    (hmark : Function.Injective mark) (start : Nat) :
    fields.get? (mark (firstFree (fun i => fields.contains (mark i)) start fields.length)) =
      none := by
  rcases firstFree_spec (fun i => fields.contains (mark i)) start fields.length with
    hfree | ⟨heq, hall⟩
  · simpa [Fields.contains] using hfree
  · rw [heq]
    by_contra hne
    have htaken : fields.contains (mark (start + fields.length)) = true := by
      simpa [Fields.contains, Option.isSome_iff_ne_none] using hne
    have hsub : (List.range' start (fields.length + 1)).map mark ⊆ fields.map Prod.fst := by
      intro key hkey
      obtain ⟨i, hi, rfl⟩ := List.mem_map.mp hkey
      rw [List.mem_range'_1] at hi
      refine Fields.mem_keys_of_contains ?_
      rcases Nat.lt_or_ge i (start + fields.length) with hlt | hge
      · exact hall i hi.1 hlt
      · obtain rfl : i = start + fields.length := by omega
        exact htaken
    have hle := ((List.nodup_range' (s := start) (n := fields.length + 1)).map hmark).length_le_of_subset hsub
    simp only [List.length_map, List.length_range'] at hle
    omega

/-! ### Binding placeholders -/

theorem mem_of_aliasOf? {table : List (AttributeValue × String)} {value : AttributeValue}
    {placeholder : String} (h : aliasOf? table value = some placeholder) :
    ∃ present, (present, placeholder) ∈ table ∧ present.same value = true := by
  obtain ⟨⟨present, found⟩, hfind, rfl⟩ := Option.map_eq_some_iff.mp h
  exact ⟨present, List.mem_of_find?_eq_some hfind, by simpa using List.find?_some hfind⟩

theorem mem_bindName {a : Aliases} {placeholder name : String} {entry : String × String}
    (h : entry ∈ (a.bindName placeholder name).nameAliases) :
    entry = (name, placeholder) ∨ entry ∈ a.nameAliases := by
  simp only [bindName] at h
  split at h
  · exact .inr h
  · exact List.mem_cons.mp h

theorem mem_bindValue {a : Aliases} {placeholder : String} {value : AttributeValue}
    {entry : AttributeValue × String} (h : entry ∈ (a.bindValue placeholder value).valueAliases) :
    entry = (value, placeholder) ∨ entry ∈ a.valueAliases := by
  simp only [bindValue] at h
  split at h
  · exact .inr h
  · exact List.mem_cons.mp h

theorem get?_bindName (a : Aliases) (placeholder name key : String) :
    (a.bindName placeholder name).names.get? key =
      if key = placeholder then some name else a.names.get? key :=
  Fields.get?_insert _ _ _ _

theorem get?_bindValue (a : Aliases) (placeholder key : String) (value : AttributeValue) :
    (a.bindValue placeholder value).values.get? key =
      if key = placeholder then some value else a.values.get? key :=
  Fields.get?_insert _ _ _ _

theorem extends_bindName {a : Aliases} {placeholder : String} (name : String)
    (h : a.names.get? placeholder = none) : a.Extends (a.bindName placeholder name) := by
  refine ⟨fun {key other} hk => ?_, id⟩
  rw [get?_bindName, if_neg ?_]
  · exact hk
  · rintro rfl
    rw [h] at hk
    cases hk

theorem extends_bindValue {a : Aliases} {placeholder : String} (value : AttributeValue)
    (h : a.values.get? placeholder = none) : a.Extends (a.bindValue placeholder value) := by
  refine ⟨id, fun {key other} hk => ?_⟩
  rw [get?_bindValue, if_neg ?_]
  · exact hk
  · rintro rfl
    rw [h] at hk
    cases hk

theorem Coherent.bindName {a : Aliases} (h : a.Coherent) {placeholder : String} (name : String)
    (free : a.names.get? placeholder = none) : (a.bindName placeholder name).Coherent := by
  refine ⟨fun hmem => ?_, fun hmem => h.values hmem⟩
  rcases mem_bindName hmem with heq | hmem
  · cases heq
    rw [get?_bindName, if_pos rfl]
  · exact (extends_bindName name free).names (h.names hmem)

theorem Coherent.bindValue {a : Aliases} (h : a.Coherent) {placeholder : String}
    (value : AttributeValue) (free : a.values.get? placeholder = none) :
    (a.bindValue placeholder value).Coherent := by
  refine ⟨fun hmem => h.names hmem, fun hmem => ?_⟩
  rcases mem_bindValue hmem with heq | hmem
  · cases heq
    rw [get?_bindValue, if_pos rfl]
  · exact (extends_bindValue value free).values (h.values hmem)

theorem WellMarked.bindName {a : Aliases} (h : a.WellMarked) {placeholder : String} (name : String)
    (hp : isPlaceholder '#' placeholder = true) : (a.bindName placeholder name).WellMarked := by
  refine ⟨fun hmem => ?_, fun hmem => h.values hmem⟩
  rcases mem_bindName hmem with heq | hmem
  · cases heq
    exact hp
  · exact h.names hmem

theorem WellMarked.bindValue {a : Aliases} (h : a.WellMarked) {placeholder : String}
    (value : AttributeValue) (hp : isPlaceholder ':' placeholder = true) :
    (a.bindValue placeholder value).WellMarked := by
  refine ⟨fun hmem => h.names hmem, fun hmem => ?_⟩
  rcases mem_bindValue hmem with heq | hmem
  · cases heq
    exact hp
  · exact h.values hmem

end Aliases

end ItemMapper
