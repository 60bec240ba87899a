import ItemMapper.Codec.Converter
import ItemMapper.Proofs.Computation
import ItemMapper.Proofs.Codec.Scalars

/-!
# Sequences of writer calls

The calls that a writer understands, prebuilt values apart, and what a sequence of them makes of it. The
calls are made one after the other, whether the earlier ones have failed or not: a failed call has a
state, too. A converter writes by calls of its own, so that a sequence in which it is used is one in which
its calls are made; the converters that are always there write one leaf each.

## Main definitions

* `Writer.Call`: the calls.
* `Writer.afterCalls`: what a sequence of calls makes of a writer.
* `Writer.Leaf`: the values that leaf calls write.

## Main statements

* `Writer.Call.step`: what each call does, case by case.
-/

namespace ItemMapper.Writer

/-- The calls of a writer, prebuilt values apart. -/
inductive Call where
  | beginObject
  | property (name : String) (pinned : Bool)
  | endObject
  | beginArray (asSet : Bool)
  | endArray
  | null
  | bool (value : Bool)
  | int (value : Int)
  | float (format : Floating.Format) (value : Floating)
  | number (digits : String)
  | text (value : String)
  | binary (bytes : Bytes)
  /-- A value by the converter of its type, one of those that are always there. -/
  | scalar (value : Typed)

/-- What a call does to a writer. -/
def Call.run : Call → WriterM Unit
  | beginObject => Writer.beginObject
  | property name pinned => propertyWith name pinned
  | endObject => Writer.endObject
  | beginArray asSet => Writer.beginArray asSet
  | endArray => Writer.endArray
  | null => writeNull
  | bool value => writeBool value
  | int value => writeInt value
  | float format value => writeFloat format value
  | number digits => writeNumber digits
  | text value => writeText value
  | binary bytes => writeBinary bytes
  | scalar value =>
    Converter.writeBy (Converter.first? Converter.builtins value.type) "value" value

/-- What a sequence of calls makes of a writer. -/
def afterCalls (w : Writer) : List Call → Writer
  | [] => w
  | call :: rest => afterCalls (after call.run w) rest

/-! ### Leaves -/

/-- The values that leaf calls write. -/
inductive Leaf : AttributeValue → Prop
  | null : Leaf (.null true)
  | bool (value : Bool) : Leaf (.bool value)
  | number (digits : String) : Leaf (.number digits)
  | text {value : String} (nonempty : value ≠ "") : Leaf (.text value)
  | binary {bytes : Bytes} (nonempty : bytes ≠ []) : Leaf (.binary bytes)

/-- A call that writes one leaf or refuses to write at all. -/
inductive WritesLeaf : WriterM Unit → Prop
  | leaf {value : AttributeValue} (leaf : Leaf value) : WritesLeaf (write value)
  | refusal (e : Error) : WritesLeaf fun w => .error e w

theorem writesLeaf_text (value : String) : WritesLeaf (writeText value) := by
  rw [writeText]
  split
  · exact .leaf .null
  · rename_i hne
    exact .leaf (.text (mt String.isEmpty_iff.mpr hne))

theorem writesLeaf_binary (bytes : Bytes) : WritesLeaf (writeBinary bytes) := by
  rw [writeBinary]
  split
  · exact .leaf .null
  · rename_i hne
    exact .leaf (.binary (mt List.isEmpty_iff.mpr hne))

theorem writesLeaf_float (format : Floating.Format) (value : Floating) :
    WritesLeaf (writeFloat format value) := by
  unfold writeFloat
  cases value.isFinite with
  | true => exact .leaf (.number (value.print format))
  | false => exact .refusal _

theorem writesLeaf_primitive (value : Typed) : WritesLeaf (Converter.writePrimitive value) := by
  unfold Converter.writePrimitive
  split
  · exact .leaf (.bool _)
  · exact .leaf (.number _)
  · exact writesLeaf_float _ _
  · exact writesLeaf_text _
  · exact writesLeaf_text _
  · exact .refusal _

theorem writesLeaf_bytes (value : Typed) : WritesLeaf (Converter.writeBytes value) := by
  unfold Converter.writeBytes
  split
  · exact writesLeaf_binary _
  · exact .refusal _

theorem writesLeaf_textual (types : List TextType) (value : Typed) :
    WritesLeaf (Converter.writeTextual types value) := by
  unfold Converter.writeTextual
  split
  · split
    · exact writesLeaf_text _
    · exact .refusal _
  · exact .refusal _

/-- The converters that are always there write one leaf each. -/
theorem writesLeaf_of_mem_builtins {converter : Converter} (h : converter ∈ Converter.builtins)
    (value : Typed) : WritesLeaf (converter.write value) := by
  simp only [Converter.builtins, List.mem_cons, List.not_mem_nil, or_false] at h
  rcases h with rfl | rfl | rfl
  · exact writesLeaf_primitive value
  · exact writesLeaf_bytes value
  · exact writesLeaf_textual _ value

theorem writesLeaf_scalar (value : Typed) : WritesLeaf (Call.scalar value).run := by
  change WritesLeaf fun w => Converter.writeBy _ "value" value w
  unfold Converter.writeBy
  cases hfirst : Converter.first? Converter.builtins value.type with
  | none => exact .refusal _
  | some converter => exact writesLeaf_of_mem_builtins (List.mem_of_find?_eq_some hfirst) value

/-! ### Steps -/

/-- What a call can do to a writer. A failed call changes nothing, but for the calls that close a
container: they take the innermost container off the stack even where they fail. -/
inductive Step (w : Writer) : Call → Writer → Prop
  | unchanged {call : Call} : Step w call w
  | dropped {call : Call} : Step w call { w with stack := w.stack.tail }
  | leaf {call : Call} {value : AttributeValue} (free : w.checkSlot = .ok ()) (leaf : Leaf value) :
      Step w call (w.fill value)
  | objectOpened (free : w.checkSlot = .ok ()) :
      Step w .beginObject (w.withObject (w.stack.isEmpty && !w.nested) [] [])
  | named {members : Item} {pinned : List String} {outermost : Bool} {below : List Frame}
      {name : String} {pin : Bool} (innermost : w.stack = .object members pinned none outermost :: below) :
      Step w (.property name pin)
        { w with stack := .object members pinned (some (name, pin)) outermost :: below }
  | objectClosed {members : Item} {pinned : List String} {outermost : Bool} {below : List Frame}
      (innermost : w.stack = .object members pinned none outermost :: below)
      (free : { w with stack := below }.checkSlot = .ok ()) :
      Step w .endObject
        ({ w with stack := below }.fill (.map (compactMembers w.flags pinned outermost members)))
  | arrayOpened {asSet : Bool} (free : w.checkSlot = .ok ()) :
      Step w (.beginArray asSet) (w.withArray asSet w.isInArray [])
  | arrayClosed {elements : List AttributeValue} {asSet inArray : Bool} {below : List Frame}
      {value : AttributeValue} (innermost : w.stack = .array elements asSet inArray :: below)
      (closed : closeArray asSet inArray elements = .ok value)
      (free : { w with stack := below }.checkSlot = .ok ()) :
      Step w .endArray ({ w with stack := below }.fill value)

variable {w : Writer}

theorem after_write (value : AttributeValue) :
    after (write value) w = w ∨ w.checkSlot = .ok () ∧ after (write value) w = w.fill value := by
  unfold after write
  cases w.checkSlot with
  | error e => exact .inl rfl
  | ok free => exact .inr ⟨rfl, rfl⟩

theorem Step.of_writesLeaf {call : Call} (h : WritesLeaf call.run) :
    Step w call (after call.run w) := by
  generalize call.run = written at h
  cases h with
  | leaf hleaf =>
    rcases after_write _ with hsame | ⟨hfree, hfill⟩
    · rw [hsame]
      exact .unchanged
    · rw [hfill]
      exact .leaf hfree hleaf
  | refusal e => exact .unchanged

theorem Step.of_dropped {call : Call} {below : List Frame} (h : w.stack.tail = below) :
    Step w call { w with stack := below } := by
  rw [← h]
  exact .dropped

/-- Closing a container writes what it holds into the slot around it, or drops it. -/
theorem Step.of_closed {call : Call} {below : List Frame} {value : AttributeValue}
    (htail : w.stack.tail = below)
    (hclosed : { w with stack := below }.checkSlot = .ok () →
      Step w call ({ w with stack := below }.fill value)) :
    Step w call (after (write value) { w with stack := below }) := by
  rcases @after_write { w with stack := below } value with hsame | ⟨hfree, hfill⟩
  · rw [hsame]
    exact .of_dropped htail
  · rw [hfill]
    exact hclosed hfree

/-- What each call does. -/
theorem Call.step (call : Call) (w : Writer) : Step w call (after call.run w) := by
  cases call with
  | null => exact .of_writesLeaf (.leaf .null)
  | bool value => exact .of_writesLeaf (.leaf (.bool value))
  | int value => exact .of_writesLeaf (.leaf (.number _))
  | number digits => exact .of_writesLeaf (.leaf (.number digits))
  | float format value => exact .of_writesLeaf (writesLeaf_float format value)
  | text value => exact .of_writesLeaf (writesLeaf_text value)
  | binary bytes => exact .of_writesLeaf (writesLeaf_binary bytes)
  | scalar value => exact .of_writesLeaf (writesLeaf_scalar value)
  | beginObject =>
    change Step w .beginObject (after Writer.beginObject w)
    cases hfree : w.checkSlot with
    | error e =>
      rw [after, Writer.beginObject, hfree]
      exact .unchanged
    | ok free =>
      rw [after, beginObject_of_free hfree]
      exact .objectOpened hfree
  | property name pinned =>
    change Step w (.property name pinned) (after (propertyWith name pinned) w)
    unfold after propertyWith
    cases hstack : w.stack with
    | nil => exact .unchanged
    | cons frame below =>
      rcases frame with ⟨members, pinned, _ | pending, outermost⟩ | _
      · exact .named hstack
      · exact .unchanged
      · exact .unchanged
  | endObject =>
    change Step w .endObject (after Writer.endObject w)
    unfold after Writer.endObject
    cases hstack : w.stack with
    | nil => exact .of_dropped (congrArg List.tail hstack)
    | cons frame below =>
      have htail := congrArg List.tail hstack
      rcases frame with ⟨members, pinned, _ | pending, outermost⟩ | _
      · exact .of_closed htail (.objectClosed hstack)
      · exact .of_dropped htail
      · exact .of_dropped htail
  | beginArray asSet =>
    change Step w (.beginArray asSet) (after (Writer.beginArray asSet) w)
    cases hfree : w.checkSlot with
    | error e =>
      rw [after, Writer.beginArray, hfree]
      exact .unchanged
    | ok free =>
      rw [after, beginArray_of_free hfree]
      exact .arrayOpened hfree
  | endArray =>
    change Step w .endArray (after Writer.endArray w)
    unfold after Writer.endArray
    cases hstack : w.stack with
    | nil => exact .of_dropped (congrArg List.tail hstack)
    | cons frame below =>
      have htail := congrArg List.tail hstack
      rcases frame with _ | ⟨elements, asSet, inArray⟩
      · exact .of_dropped htail
      cases hclose : closeArray asSet inArray elements with
      | error e =>
        simp only [hclose]
        exact .of_dropped htail
      | ok value =>
        simp only [hclose]
        exact .of_closed htail (.arrayClosed hstack hclose)

/-! ### Settings -/

theorem fill_settings (w : Writer) (value : AttributeValue) :
    (w.fill value).flags = w.flags ∧ (w.fill value).nested = w.nested := by
  unfold fill
  split <;> exact ⟨rfl, rfl⟩

/-- No call changes what is asked of a writer. -/
theorem Step.settings {call : Call} {w w' : Writer} (h : Step w call w') :
    w'.flags = w.flags ∧ w'.nested = w.nested := by
  cases h with
  | leaf => exact fill_settings w _
  | objectClosed | arrayClosed => exact fill_settings { w with stack := _ } _
  | _ => exact ⟨rfl, rfl⟩

theorem afterCalls_settings (w : Writer) (calls : List Call) :
    (afterCalls w calls).flags = w.flags ∧ (afterCalls w calls).nested = w.nested := by
  induction calls generalizing w with
  | nil => exact ⟨rfl, rfl⟩
  | cons call rest ih =>
    obtain ⟨hflags, hnested⟩ := ih (after call.run w)
    obtain ⟨hflags', hnested'⟩ := (call.step w).settings
    exact ⟨hflags.trans hflags', hnested.trans hnested'⟩

end ItemMapper.Writer
