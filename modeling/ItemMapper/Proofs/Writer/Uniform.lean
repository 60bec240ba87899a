import ItemMapper.Proofs.Codec.Items
import ItemMapper.Proofs.Codec.Placing
import ItemMapper.Proofs.Writer.Grammar

/-!
# Calls that write the same everywhere

What a converter of an application writes is up to the application. It is to put one value into the slot
that it is given; and the value of a scalar is to depend on the scalar and not on where it is written,
apart from what the writer itself makes of containers: the outermost object keeps what the flags say,
and a set that stands in an array stays a list. So does every fixed sequence of calls that is a word of
the grammar and pins no property. What is pinned stays in the outermost object only, so that a sequence
that pins something null may write one value by itself and another one in a document.

## Main definitions

* `Writer.Uniform`: a call that writes the same wherever it succeeds.
* `Writer.Nonterminal.Uniform`: the same of the calls between the ends of a container.
* `Writer.MakesWord`: a call that makes the calls of a word, none of which pins a property.
* `Codec.ConvertersUniform`: each converter of a chain puts one value into its slot, and writes a scalar
  the same everywhere.

## Main statements

* `Writer.Derives.uniform`: a word of the grammar that pins nothing is uniform.
* `Codec.uniform_write`: so is a value of a kind that keys can hold.
* `Writer.Uniform.fill_of_run`: what a uniform call writes under a property and as a part of another
  value is what it writes by itself.
-/

namespace ItemMapper

namespace Writer

/-- A call that puts one value into the slot where it succeeds. The value depends on nothing but what an
object in this slot keeps of its null and empty members, and whether the slot is in an array. -/
def Uniform (call : WriterM Unit) : Prop :=
  ∃ piece : WriteFlags → Bool → AttributeValue, ∀ w w' : Writer, w.checkSlot = .ok () →
    call w = .ok () w' → w' = w.fill (piece w.outerFlags w.isInArray)

variable {call : WriterM Unit}

theorem Uniform.places (h : Uniform call) : Places call fun _ => True := by
  obtain ⟨piece, hpiece⟩ := h
  exact fun w w' hfree hcall => ⟨_, trivial, hpiece w w' hfree hcall⟩

theorem uniform_write (value : AttributeValue) : Uniform (write value) := by
  refine ⟨fun _ _ => value, fun w w' hfree hcall => ?_⟩
  rw [write_of_free hfree] at hcall
  cases hcall
  rfl

theorem uniform_of_refused (h : ∀ w w' : Writer, call w ≠ .ok () w') : Uniform call :=
  ⟨fun _ _ => .null true, fun w w' _ hcall => (h w w' hcall).elim⟩

/-! ### Words of the grammar -/

/-- A call that pins a property. -/
def Event.Pins : Event → Prop
  | property _ pinned => pinned = true
  | leaf _ | beginObject | endObject | beginArray | endArray => False

/-- Calls that fill the slot alike everywhere, or that add the same members to every object, or the same
elements to every array, in which they succeed. -/
def Nonterminal.Uniform : Nonterminal → WriterM Unit → Prop
  | value, call => Writer.Uniform call
  | entries, calls =>
    ∃ more : List (String × AttributeValue), ∀ (w w' : Writer) (outermost : Bool) (members : Item)
      (pinned : List String), calls (w.withObject outermost members pinned) = .ok () w' →
        w' = w.withObject outermost (members.insertAll more) pinned
  | values, calls =>
    ∃ more : List AttributeValue, ∀ (w w' : Writer) (inArray : Bool)
      (elements : List AttributeValue), calls (w.withArray false inArray elements) = .ok () w' →
        w' = w.withArray false inArray (elements ++ more)

theorem runAll_cons_eq_ok {event : Event} {rest : List Event} {w w' : Writer} :
    runAll (event :: rest) w = .ok () w' ↔ ∃ t, event.run w = .ok () t ∧ runAll rest t = .ok () w' := by
  rw [runAll, unit_bind_eq_ok]

theorem runAll_append_eq_ok {events rest : List Event} {w w' : Writer} :
    runAll (events ++ rest) w = .ok () w' ↔
      ∃ t, runAll events w = .ok () t ∧ runAll rest t = .ok () w' := by
  rw [runAll_append, unit_bind_eq_ok]

theorem runAll_singleton_eq_ok {event : Event} {w w' : Writer} :
    runAll [event] w = .ok () w' ↔ event.run w = .ok () w' := by
  rw [runAll_singleton]

/-- An object of the same members becomes the same value, up to what it keeps of them. -/
theorem Nonterminal.Uniform.object {calls : List Event}
    (h : Nonterminal.entries.Uniform (runAll calls)) :
    Writer.Uniform (runAll (.beginObject :: calls ++ [.endObject])) := by
  obtain ⟨more, hmore⟩ := h
  refine ⟨fun flags _ => .map ((Fields.ofList more).filter fun member => flags.keeps member.2),
    fun w w' hfree hcall => ?_⟩
  rw [List.cons_append, runAll_cons_eq_ok] at hcall
  simp only [runAll_append_eq_ok, runAll_singleton_eq_ok, Event.run, beginObject_of_free hfree,
    EStateM.Result.ok.injEq, true_and, exists_eq_left'] at hcall
  obtain ⟨t, hcalls, hend⟩ := hcall
  cases hmore w t _ [] [] hcalls
  rw [endObject_withObject hfree, compactMembers_of_nil_pinned] at hend
  cases hend
  rfl

/-- An array of the same elements becomes the same list. -/
theorem Nonterminal.Uniform.array {calls : List Event}
    (h : Nonterminal.values.Uniform (runAll calls)) :
    Writer.Uniform (runAll (.beginArray :: calls ++ [.endArray])) := by
  obtain ⟨more, hmore⟩ := h
  refine ⟨fun _ _ => .list (AttributeValue.dropVoid more), fun w w' hfree hcall => ?_⟩
  rw [List.cons_append, runAll_cons_eq_ok] at hcall
  simp only [runAll_append_eq_ok, runAll_singleton_eq_ok, Event.run, beginArray_of_free hfree,
    EStateM.Result.ok.injEq, true_and, exists_eq_left'] at hcall
  obtain ⟨t, hcalls, hend⟩ := hcall
  cases hmore w t _ [] hcalls
  obtain ⟨value, hclose, rfl⟩ := (endArray_eq_ok hfree).mp hend
  rw [closeArray_eq] at hclose
  cases hclose
  rfl

/-- A property with the same value adds the same member. -/
theorem Nonterminal.Uniform.entry {value rest : List Event} (hvalue : Writer.Uniform (runAll value))
    (hrest : Nonterminal.entries.Uniform (runAll rest)) (name : String) :
    Nonterminal.entries.Uniform (runAll (.property name false :: value ++ rest)) := by
  obtain ⟨piece, hpiece⟩ := hvalue
  obtain ⟨more, hmore⟩ := hrest
  -- The slot of a property is in an open object, so that no object in it is the outermost one.
  refine ⟨(name, piece .none false) :: more, fun w w' outermost members pinned hcall => ?_⟩
  rw [List.cons_append, runAll_cons_eq_ok] at hcall
  simp only [runAll_append_eq_ok, Event.run, property_withObject, EStateM.Result.ok.injEq, true_and,
    exists_eq_left'] at hcall
  obtain ⟨t, hvalue, hrest⟩ := hcall
  cases hpiece _ t rfl hvalue
  rw [fill_withProperty] at hrest
  exact hmore w w' outermost _ pinned hrest

/-- A value adds the same element. -/
theorem Nonterminal.Uniform.element {value rest : List Event}
    (hvalue : Writer.Uniform (runAll value)) (hrest : Nonterminal.values.Uniform (runAll rest)) :
    Nonterminal.values.Uniform (runAll (value ++ rest)) := by
  obtain ⟨piece, hpiece⟩ := hvalue
  obtain ⟨more, hmore⟩ := hrest
  refine ⟨piece .none true :: more, fun w w' inArray elements hcall => ?_⟩
  obtain ⟨t, hvalue, hrest⟩ := runAll_append_eq_ok.mp hcall
  cases hpiece _ t rfl hvalue
  rw [List.append_cons]
  exact hmore w w' inArray _ hrest

/-- The calls of a word that pins nothing write the same everywhere. -/
theorem Derives.uniform {n : Nonterminal} {events : List Event} (h : Derives n events)
    (hpins : ∀ event ∈ events, ¬ event.Pins) : n.Uniform (runAll events) := by
  induction h with
  | leaf call =>
    obtain ⟨value, hvalue⟩ := call.exists_run_eq
    obtain ⟨piece, hpiece⟩ := uniform_write value
    refine ⟨piece, fun w w' hfree hcall => hpiece w w' hfree ?_⟩
    rwa [runAll_singleton_eq_ok, Event.run, hvalue] at hcall
  | object _ ih =>
    exact .object (ih fun event hevent =>
      hpins event (List.mem_append_left _ (List.mem_cons_of_mem _ hevent)))
  | array _ ih =>
    exact .array (ih fun event hevent =>
      hpins event (List.mem_append_left _ (List.mem_cons_of_mem _ hevent)))
  | noEntries =>
    refine ⟨[], fun w w' outermost members pinned hcall => ?_⟩
    exact (pure_eq_ok.mp hcall).2.symm
  | @entry name pinned value rest _ _ ihvalue ihrest =>
    have hfree : pinned = false :=
      Bool.eq_false_iff.mpr (hpins (.property name pinned) List.mem_cons_self)
    subst hfree
    refine .entry (ihvalue fun event hevent => hpins event ?_)
      (ihrest fun event hevent => hpins event (List.mem_append_right _ hevent)) name
    exact List.mem_append_left _ (List.mem_cons_of_mem _ hevent)
  | noValues =>
    refine ⟨[], fun w w' inArray elements hcall => ?_⟩
    rw [List.append_nil]
    exact (pure_eq_ok.mp hcall).2.symm
  | element _ _ ihvalue ihrest =>
    exact .element (ihvalue fun event hevent => hpins event (List.mem_append_left _ hevent))
      (ihrest fun event hevent => hpins event (List.mem_append_right _ hevent))

/-- A call that makes the calls of one word for a value where it succeeds, none of which pins a
property. -/
def MakesWord (call : WriterM Unit) : Prop :=
  ∃ events, Derives .value events ∧ (∀ event ∈ events, ¬ event.Pins) ∧
    ∀ w w' : Writer, call w = .ok () w' → runAll events w = .ok () w'

theorem MakesWord.uniform (h : MakesWord call) : Uniform call := by
  obtain ⟨events, hword, hpins, hmakes⟩ := h
  obtain ⟨piece, hpiece⟩ : Uniform (runAll events) := hword.uniform hpins
  exact ⟨piece, fun w w' hfree hcall => hpiece w w' hfree (hmakes w w' hcall)⟩

/-- A leaf is a word of one call. -/
theorem makesWord_of_writesLeaf (h : WritesLeaf call) : MakesWord call := by
  cases h with
  | @leaf value =>
    refine ⟨[.leaf (.stored value)], .leaf _, List.forall_mem_singleton.mpr id, fun w w' hcall => ?_⟩
    exact runAll_singleton_eq_ok.mpr hcall
  | refusal e => exact ⟨[.leaf .null], .leaf _, List.forall_mem_singleton.mpr id, fun _ _ => nofun⟩

/-! ### By itself and as a part -/

/-- What a uniform call writes by itself, where nothing null or empty is kept, is what it writes under a
property and as a part of another value. -/
theorem Uniform.fill_of_run (h : Uniform call) {value : AttributeValue}
    (hrun : (new .none).run call = .ok (some value)) :
    (∀ (w w' : Writer) (outermost : Bool) (members : Item) (pinned : List String) (name : String)
        (pin : Bool), call (w.withProperty outermost members pinned name pin) = .ok () w' →
      w' = (w.withProperty outermost members pinned name pin).fill value) ∧
      ∀ value?, forPart.run call = .ok value? → value? = some value := by
  obtain ⟨piece, hpiece⟩ := h
  have hvalue : piece .none false = value := by
    obtain ⟨w', hcall, hfinish⟩ := run_eq_ok.mp hrun
    cases hpiece _ w' rfl hcall
    exact Option.some.inj (Option.filter_eq_some_iff.mp (Except.ok.inj hfinish)).1
  subst hvalue
  refine ⟨fun w w' outermost members pinned name pin hcall => hpiece _ w' rfl hcall,
    fun value? hpart => ?_⟩
  obtain ⟨w', hcall, hfinish⟩ := run_eq_ok.mp hpart
  cases hpiece _ w' rfl hcall
  rw [← Except.ok.inj hfinish]
  exact Option.filter_some_pos (WriteFlags.keeps_all _)

end Writer

namespace Codec

variable {c : Codec}

/-- Each converter puts one value into the slot that it writes into, and a scalar that it handles is
written the same everywhere. -/
structure ConvertersUniform (c : Codec) : Prop where
  places : c.ConvertersPlace
  uniform : ∀ converter ∈ c.converters, ∀ (type : Scalar) (value : Datum),
    converter.handles (.scalar type) = true → Writer.Uniform (converter.write ⟨.scalar type, value⟩)

/-- Converters that make the calls of a word do so. -/
theorem convertersUniform_of_makesWord
    (h : ∀ converter ∈ c.converters, ∀ value, Writer.MakesWord (converter.write value)) :
    c.ConvertersUniform :=
  ⟨fun converter hmem value => (h converter hmem value).uniform.places,
    fun converter hmem _ value _ => (h converter hmem ⟨_, value⟩).uniform⟩

/-- A scalar is written the same everywhere. -/
theorem uniform_writeLeaf (h : c.ConvertersUniform) (type : Scalar) (value : Datum) :
    Writer.Uniform (c.writeLeaf (.scalar type) value) := by
  unfold writeLeaf Converter.writeBy
  cases hfirst : Converter.first? c.converters (.scalar type) with
  | none => exact Writer.uniform_of_refused fun _ _ => nofun
  | some converter =>
    obtain ⟨hhandles, -⟩ := List.find?_eq_some_iff_append.mp hfirst
    exact h.uniform converter (List.mem_of_find?_eq_some hfirst) type value hhandles

theorem uniform_illTyped (type : Ty) : Writer.Uniform (c.illTyped type) :=
  Writer.uniform_of_refused fun _ _ => nofun

/-- A value of a kind that keys can hold is written the same everywhere. -/
theorem uniform_write (h : c.ConvertersUniform) {type : Ty}
    (hkind : (type.kind.scalarType? .name).isSome = true) (value : Datum) :
    Writer.Uniform (c.write type value) := by
  induction type generalizing value with
  | scalar type =>
    rw [write]
    exact uniform_writeLeaf h type value
  | enumeration type =>
    cases value with
    | enumeration number =>
      rw [write, EnumType.write_eq]
      exact Writer.uniform_write _
    | _ => exact uniform_illTyped _
  | option inner ih =>
    cases value with
    | absent => exact Writer.uniform_write _
    | present value =>
      rw [write]
      exact ih hkind value
    | _ => exact uniform_illTyped _
  | boxed inner ih =>
    cases value with
    | boxed value =>
      rw [write]
      exact ih hkind value
    | _ => exact uniform_illTyped _
  | _ => cases hkind

end Codec

end ItemMapper
