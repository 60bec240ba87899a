import ItemMapper.Proofs.Aliases.Closure

/-!
# What a failed request leaves behind

Placeholders are added while a text is written, so a request that fails half-way leaves behind those of
the part that was written, and a later expression of the session is sent with them. Nothing else comes
of the failure: nothing is lost or changed, what is left behind are generated placeholders that
something finds, and they are left behind once. Where they are already there, the request fails in the
same way and leaves the tables exactly as they were.

## Main definitions

* `Sigil.generated`: the generated placeholders of a kind.
* `Session.LeftBehind`: what a failed request leaves behind.

## Main statements

* `Aliases.Grows.generated`: what is added without raw text.
* `Session.leftBehind_of_failed`: **what every failed request leaves behind**.
-/

namespace ItemMapper

/-- The generated placeholders of a kind. -/
def Sigil.generated : Sigil → Nat → String
  | .name => Aliases.nameMark
  | .value => Aliases.valueMark

namespace Aliases

/-- A placeholder that is bound is found, or was there before. -/
theorem Adds.generated {a b : Aliases} (h : Adds Generated a b) {sigil : Sigil}
    {placeholder : String} (hmem : placeholder ∈ b.placeholders sigil) :
    placeholder ∈ a.placeholders sigil ∨
      (∃ number, placeholder = sigil.generated number) ∧ b.Finds sigil placeholder := by
  cases h with
  | @name name number unknown free =>
    cases sigil with
    | name =>
      rcases Fields.mem_keys_insert hmem with hmem | rfl
      · exact .inl hmem
      · refine .inr ⟨⟨number, rfl⟩, name, ?_⟩
        change (a.bindName (nameMark number) name).nameAliases.lookup name = _
        rw [lookup_bindName, unknown, if_pos rfl]
        rfl
    | value => exact .inl hmem
  | @value value number unknown free =>
    cases sigil with
    | name => exact .inl hmem
    | value =>
      rcases Fields.mem_keys_insert hmem with hmem | rfl
      · exact .inl hmem
      · refine .inr ⟨⟨number, rfl⟩, value, ?_⟩
        change aliasOf? (a.bindValue (valueMark number) value).valueAliases value = _
        rw [aliasOf?_bindValue, unknown, AttributeValue.same_refl, if_pos rfl]
        rfl
  | rawName _ hown => exact hown.elim
  | rawValue _ hown => exact hown.elim

/-- **Without raw text, only generated placeholders are added**, each for something that finds it. -/
theorem Grows.generated {a b : Aliases} (h : Grows Generated a b) {sigil : Sigil}
    {placeholder : String} (hmem : placeholder ∈ b.placeholders sigil) :
    placeholder ∈ a.placeholders sigil ∨
      (∃ number, placeholder = sigil.generated number) ∧ b.Finds sigil placeholder := by
  induction h with
  | refl => exact .inl hmem
  | tail _ step ih =>
    rcases step.generated hmem with hbefore | hnew
    · refine (ih hbefore).imp_right ?_
      rintro ⟨hnumber, hfinds⟩
      exact ⟨hnumber, step.keeps.finds hfinds⟩
    · exact .inr hnew

end Aliases

namespace Session

/-- What a request that failed with an error leaves behind of a session. -/
structure LeftBehind (request : Request) (e : Error) (s t : Session) : Prop where
  /-- Nothing is lost or changed. -/
  includes : s.aliases.Includes t.aliases
  /-- What finds a placeholder is what the placeholder stands for. -/
  coherent : s.aliases.Coherent → t.aliases.Coherent
  /-- Without raw text, what is added are generated placeholders that something finds. -/
  generated : request.raws = [] → ∀ {sigil placeholder},
    placeholder ∈ t.aliases.placeholders sigil →
      placeholder ∈ s.aliases.placeholders sigil ∨
        (∃ number, placeholder = sigil.generated number) ∧ t.aliases.Finds sigil placeholder
  /-- Where all that is already there, the request fails in the same way and leaves the tables exactly
  as they are. -/
  again : ∀ {u : Session}, u.counter = s.counter → t.aliases.Includes u.aliases →
    request.text u = .error e { t with aliases := u.aliases }

/-- **What every failed request leaves behind.** -/
theorem leftBehind_of_failed {request : Request} {e : Error} {s t : Session}
    (h : request.text s = .error e t) : LeftBehind request e s t := by
  have hafter : after request.text s = t := by rw [after, h]
  have harbitrary : Made Aliases.Arbitrary request.text :=
    Request.text_made fun _ _ => ⟨fun _ _ => trivial, fun _ _ => trivial⟩
  have hgrows : Grows Aliases.Arbitrary s t := hafter ▸ harbitrary.grows s
  refine ⟨Aliases.Grows.includes hgrows, Aliases.Grows.coherent hgrows, ?_, ?_⟩
  · intro hraws sigil placeholder hmem
    have hmade : Made Aliases.Generated request.text := by
      refine Request.text_made fun raw hraw => ?_
      rw [hraws] at hraw
      cases hraw
    have hgenerated : Grows Aliases.Generated s t := hafter ▸ hmade.grows s
    exact Aliases.Grows.generated hgenerated hmem
  · intro u hcounter hincludes
    have hagain := harbitrary.repeats.again (s := s) (b := u.aliases) (hafter.symm ▸ hincludes)
    have hu : ({ s with aliases := u.aliases } : Session) = u := by rw [← hcounter]
    rw [hu, h] at hagain
    exact hagain

/-- A condition whose first part is written before the second one turns out to be none. -/
def halfCondition : Expr :=
  .binary .and (.binary .eq (.member .item "a") (.constant (.int 1)))
    (.unary .negate (.member .item "x"))

theorem leftBehind_of_failed_halfCondition :
    ∃ e t, (Request.condition (.untyped default) halfCondition).text (start 0) = .error e t ∧
      t.aliases.values = [(":v0", .number "1")] ∧
      LeftBehind (.condition (.untyped default) halfCondition) e (start 0) t := by
  have hfailure : (failure? (Request.condition (.untyped default) halfCondition).text
      (start 0)).map (·.2.aliases.values) = some [(":v0", .number "1")] := by decide +kernel
  obtain ⟨⟨e, t⟩, hfailed, hvalues⟩ := Option.map_eq_some_iff.mp hfailure
  have h := failure?_eq_some.mp hfailed
  exact ⟨e, t, h, hvalues, leftBehind_of_failed h⟩

end Session

end ItemMapper
