import ItemMapper.Proofs.Computation
import ItemMapper.Writer.Basic

/-!
# Slots of a writer

A value that is written inside another one fills one slot and touches nothing else: what it becomes
depends on whether the slot is directly in an array, and not on what has been written around it.

What a call makes of a writer is another writer or an error, and the outcome of several calls follows
from the outcomes of each, as results follow from results in a recursion. This is how the calls that
write a container are seen to put one value into the slot in which the container was opened, whatever
the stack below it holds.

## Main definitions

* `Writer.Within`: a place inside another value where a value may be written.
* `Writer.withArray`, `Writer.withObject`: a writer in which a container has been opened.
* `Writer.Fills`: a call that fills its slot with one value wherever it is made.
* `Writer.Filled`: the writer that another one becomes when a value is put into its slot.
* `Writer.outcome`: what a call makes of a writer.
* `Writer.outerFlags`: what an object keeps that is opened now.

## Main statements

* `Writer.Fills.array`, `Writer.Fills.object`: containers fill their slots when what is written
  between their ends adds to them.
* `Writer.Fills.run`: what a call that fills its slot writes as a part of another value.
* `Writer.filled_fill`: a free slot is filled, and nothing else is touched.
* `Writer.outcome_array`, `Writer.outcome_object`: a container fills the slot in which it was opened.
-/

namespace ItemMapper

theorem WriteFlags.keeps_all (value : AttributeValue) : WriteFlags.all.keeps value = true := by
  rw [keeps]
  split
  · rfl
  · split <;> rfl

namespace Writer

variable {w w' : Writer} {inArray : Bool}

/-- Whether the current slot is directly in an array. -/
def isInArray (w : Writer) : Bool :=
  match w.stack with
  | .array _ _ _ :: _ => true
  | _ => false

/-- A place inside another value where a value may be written. -/
structure Within (w : Writer) (inArray : Bool) : Prop where
  free : w.checkSlot = .ok ()
  nested : w.stack = [] → w.nested = true
  place : w.isInArray = inArray

/-- The writer after an array has been opened and elements have been written into it. -/
def withArray (w : Writer) (asSet inArray : Bool) (elements : List AttributeValue) : Writer :=
  { w with stack := .array elements asSet inArray :: w.stack }

/-- The writer after an object has been opened and members have been written into it. -/
def withObject (w : Writer) (outermost : Bool) (members : Item) (pinned : List String) : Writer :=
  { w with stack := .object members pinned none outermost :: w.stack }

/-- The writer with an open object in which a property waits for its value. -/
def withProperty (w : Writer) (outermost : Bool) (members : Item) (pinned : List String)
    (name : String) (pin : Bool) : Writer :=
  { w with stack := .object members pinned (some (name, pin)) outermost :: w.stack }

theorem Within.forPart : forPart.Within false := ⟨rfl, fun _ => rfl, rfl⟩

theorem withArray_within (asSet : Bool) (elements : List AttributeValue) :
    (w.withArray asSet inArray elements).Within true := by
  refine ⟨rfl, fun h => ?_, rfl⟩
  cases h

theorem withProperty_within (outermost : Bool) (members : Item) (pinned : List String)
    (name : String) (pin : Bool) :
    (w.withProperty outermost members pinned name pin).Within false := by
  refine ⟨rfl, fun h => ?_, rfl⟩
  cases h

/-! ### Calls in a free slot -/

theorem write_of_free (h : w.checkSlot = .ok ()) (value : AttributeValue) :
    write value w = .ok () (w.fill value) := by
  rw [write, h]

theorem inside_eq_ok {segment : PathSegment} {call : WriterM Unit} :
    inside segment call w = .ok () w' ↔ call w = .ok () w' := by
  rw [inside]
  cases call w with
  | ok a t => simp
  | error e t => simp

theorem beginArray_of_free (h : w.checkSlot = .ok ()) (asSet : Bool) :
    beginArray asSet w = .ok () (w.withArray asSet w.isInArray []) := by
  rw [beginArray, h]
  rfl

theorem beginArray_of_within (h : w.Within inArray) (asSet : Bool) :
    beginArray asSet w = .ok () (w.withArray asSet inArray []) := by
  rw [beginArray_of_free h.free, h.place]

theorem endArray_eq_ok (h : w.checkSlot = .ok ()) {asSet : Bool} {elements : List AttributeValue} :
    endArray (w.withArray asSet inArray elements) = .ok () w' ↔
      ∃ value, closeArray asSet inArray elements = .ok value ∧ w' = w.fill value := by
  rw [endArray, withArray]
  dsimp only
  cases closeArray asSet inArray elements with
  | error e => simp
  | ok value =>
    simp only [write_of_free h, EStateM.Result.ok.injEq, true_and, Except.ok.injEq,
      exists_eq_left', eq_comm]

theorem beginObject_of_free (h : w.checkSlot = .ok ()) :
    beginObject w = .ok () (w.withObject (w.stack.isEmpty && !w.nested) [] []) := by
  rw [beginObject, h]
  rfl

theorem Within.isEmpty_and_not_nested (h : w.Within inArray) :
    (w.stack.isEmpty && !w.nested) = false := by
  cases hstack : w.stack with
  | nil => simp [h.nested hstack]
  | cons frame rest => rfl

theorem property_withObject (outermost : Bool) (members : Item) (pinned : List String)
    (name : String) (pin : Bool) :
    propertyWith name pin (w.withObject outermost members pinned) =
      .ok () (w.withProperty outermost members pinned name pin) := rfl

theorem fill_withProperty (outermost : Bool) (members : Item) (pinned : List String)
    (name : String) (pin : Bool) (value : AttributeValue) :
    (w.withProperty outermost members pinned name pin).fill value =
      w.withObject outermost (members.insert name value)
        (if pin then name :: pinned else pinned) := rfl

theorem endObject_withObject (h : w.checkSlot = .ok ()) (outermost : Bool) (members : Item)
    (pinned : List String) :
    endObject (w.withObject outermost members pinned) =
      .ok () (w.fill (.map (compactMembers w.flags pinned outermost members))) :=
  write_of_free h _

/-! ### Filling a slot -/

/-- A call that fills its slot with one value, or fails, whatever has been written around it. -/
def Fills (inArray : Bool) (call : WriterM Unit) (value? : Option AttributeValue) : Prop :=
  ∀ w w' : Writer, w.Within inArray →
    (call w = .ok () w' ↔ ∃ value, value? = some value ∧ w' = w.fill value)

theorem Fills.write (value : AttributeValue) : Fills inArray (Writer.write value) (some value) := by
  intro w w' h
  rw [write_of_free h.free]
  simp only [EStateM.Result.ok.injEq, true_and, Option.some.injEq, exists_eq_left', eq_comm]

/-- What a call that fills its slot writes as a part of another value. -/
theorem Fills.run {call : WriterM Unit} {value : AttributeValue}
    (h : Fills false call (some value)) : forPart.run call = .ok (some value) := by
  have hcall : call forPart = .ok () (forPart.fill value) :=
    (h forPart _ .forPart).mpr ⟨value, rfl, rfl⟩
  rw [Writer.run, hcall]
  exact congrArg Except.ok (Option.filter_some_pos (WriteFlags.keeps_all value))

/-- An array fills its slot when what is written between its ends adds elements to it. -/
theorem Fills.array {asSet : Bool} {calls : WriterM Unit}
    {elements? : Option (List AttributeValue)}
    (h : ∀ w w' : Writer, calls (w.withArray asSet inArray []) = .ok () w' ↔
      ∃ elements, elements? = some elements ∧ w' = w.withArray asSet inArray elements) :
    Fills inArray (do beginArray asSet; calls; endArray)
      (elements?.bind fun elements => (closeArray asSet inArray elements).toOption) := by
  intro w w' hw
  simp only [unit_bind_eq_ok, beginArray_of_within hw, EStateM.Result.ok.injEq, true_and]
  constructor
  · rintro ⟨t, rfl, t', hcalls, hend⟩
    obtain ⟨elements, rfl, rfl⟩ := (h w t').mp hcalls
    obtain ⟨value, hclose, rfl⟩ := (endArray_eq_ok hw.free).mp hend
    exact ⟨value, except_toOption_eq_some.mpr hclose, rfl⟩
  · rintro ⟨value, hvalue, rfl⟩
    obtain ⟨elements, rfl, hclose⟩ := Option.bind_eq_some_iff.mp hvalue
    refine ⟨_, rfl, _, (h w _).mpr ⟨elements, rfl, rfl⟩, ?_⟩
    exact (endArray_eq_ok hw.free).mpr ⟨value, except_toOption_eq_some.mp hclose, rfl⟩

/-- An object fills its slot when what is written between its ends adds members to it. -/
theorem Fills.object {α : Type} {calls : WriterM Unit} {pieces? : Option α} {members : α → Item}
    {pinned : α → List String}
    (h : ∀ w w' : Writer, calls (w.withObject false [] []) = .ok () w' ↔
      ∃ pieces, pieces? = some pieces ∧
        w' = w.withObject false (members pieces) (pinned pieces)) :
    Fills inArray (do beginObject; calls; endObject)
      (pieces?.map fun pieces => .map (compactMembers .none [] false (members pieces))) := by
  intro w w' hw
  simp only [unit_bind_eq_ok, beginObject_of_free hw.free, hw.isEmpty_and_not_nested,
    EStateM.Result.ok.injEq, true_and]
  constructor
  · rintro ⟨t, rfl, t', hcalls, hend⟩
    obtain ⟨pieces, rfl, rfl⟩ := (h w t').mp hcalls
    rw [endObject_withObject hw.free] at hend
    cases hend
    exact ⟨_, rfl, rfl⟩
  · rintro ⟨value, hvalue, rfl⟩
    obtain ⟨pieces, rfl, rfl⟩ := Option.map_eq_some_iff.mp hvalue
    refine ⟨_, rfl, _, (h w _).mpr ⟨pieces, rfl, rfl⟩, ?_⟩
    exact endObject_withObject hw.free _ _ _

/-! ### One slot -/

section
variable {call : WriterM Unit}

/-- The writer that another one becomes when a value is put into its slot: at the root, under the
property that waits for it, or behind the last element. All else stays as it is, the frames below the
slot included. -/
inductive Filled (value : AttributeValue) : Writer → Writer → Prop
  | root {flags : WriteFlags} {nested : Bool} :
      Filled value ⟨flags, nested, [], none⟩ ⟨flags, nested, [], some value⟩
  | property {flags : WriteFlags} {nested : Bool} {members : Item} {pinned : List String}
      {name : String} {pin outermost : Bool} {below : List Frame} {root : Option AttributeValue} :
      Filled value
        ⟨flags, nested, .object members pinned (some (name, pin)) outermost :: below, root⟩
        ⟨flags, nested, .object (members.insert name value) (if pin then name :: pinned else pinned)
          none outermost :: below, root⟩
  | element {flags : WriteFlags} {nested : Bool} {elements : List AttributeValue}
      {asSet inArray : Bool} {below : List Frame} {root : Option AttributeValue} :
      Filled value ⟨flags, nested, .array elements asSet inArray :: below, root⟩
        ⟨flags, nested, .array (elements ++ [value]) asSet inArray :: below, root⟩

/-- A free slot is filled, and nothing else is touched. -/
theorem filled_fill (h : w.checkSlot = .ok ()) (value : AttributeValue) :
    Filled value w (w.fill value) := by
  obtain ⟨flags, nested, stack, root⟩ := w
  match stack, root with
  | [], none => exact .root
  | [], some _ => cases h
  | .object _ _ none _ :: _, _ => cases h
  | .object _ _ (some (_, _)) _ :: _, _ => exact .property
  | .array _ _ _ :: _, _ => exact .element

/-- What an object keeps of its null and empty members that is opened now: what the flags say where it
is the outermost one, and nothing elsewhere. -/
def outerFlags (w : Writer) : WriteFlags :=
  if w.stack.isEmpty && !w.nested then w.flags else .none

/-! ### Outcomes -/

/-- What a call makes of a writer; the state that a failed call leaves behind is forgotten. -/
def outcome (call : WriterM Unit) (w : Writer) : Except Error Writer :=
  match call w with
  | .ok _ w' => .ok w'
  | .error e _ => .error e

theorem outcome_eq_ok : outcome call w = .ok w' ↔ call w = .ok () w' := by
  rw [outcome]
  cases call w with
  | ok a t => simp
  | error e t => simp

theorem outcome_eq_error {e : Error} : outcome call w = .error e ↔ ∃ t, call w = .error e t := by
  rw [outcome]
  cases call w with
  | ok a t => simp
  | error e' t => simp

theorem run_eq_outcome : run w call = outcome call w >>= finish := by
  unfold run outcome
  cases call w <;> rfl

theorem outcome_pure : outcome (pure ()) w = .ok w := rfl

theorem outcome_bind (next : WriterM Unit) :
    outcome (do call; next) w = outcome call w >>= outcome next := by
  change outcome (EStateM.bind call fun _ => next) w = _
  unfold outcome EStateM.bind
  cases call w <;> rfl

theorem outcome_inside (segment : PathSegment) :
    outcome (inside segment call) w = (outcome call w).mapError (·.within segment) := by
  unfold outcome inside
  cases call w <;> rfl

theorem outcome_write (h : w.checkSlot = .ok ()) (value : AttributeValue) :
    outcome (write value) w = .ok (w.fill value) :=
  outcome_eq_ok.mpr (write_of_free h value)

theorem outcome_endArray (h : w.checkSlot = .ok ()) {asSet inArray : Bool}
    {elements : List AttributeValue} :
    outcome endArray (w.withArray asSet inArray elements) =
      (closeArray asSet inArray elements).map w.fill := by
  cases hclose : closeArray asSet inArray elements with
  | error e => exact outcome_eq_error.mpr ⟨w, by simp only [endArray, withArray, hclose]⟩
  | ok value => exact outcome_eq_ok.mpr ((endArray_eq_ok h).mpr ⟨value, hclose, rfl⟩)

/-- An array fills its slot with what becomes of the elements that are written into it. -/
theorem outcome_array (h : w.checkSlot = .ok ()) {asSet : Bool} {calls : WriterM Unit}
    {result : Except Error (List AttributeValue)}
    (hcalls : outcome calls (w.withArray asSet w.isInArray []) =
      result.map (w.withArray asSet w.isInArray)) :
    outcome (do beginArray asSet; calls; endArray) w =
      (result >>= closeArray asSet w.isInArray).map w.fill := by
  have hopen : outcome (beginArray asSet) w = .ok (w.withArray asSet w.isInArray []) :=
    outcome_eq_ok.mpr (beginArray_of_free h asSet)
  rw [outcome_bind, hopen]
  change outcome (do calls; endArray) _ = _
  rw [outcome_bind, hcalls]
  cases result with
  | error e => rfl
  | ok elements => exact outcome_endArray h

/-- What an object keeps in which nothing is pinned. -/
theorem compactMembers_of_nil_pinned (w : Writer) (members : Item) :
    compactMembers w.flags [] (w.stack.isEmpty && !w.nested) members =
      members.filter fun member => w.outerFlags.keeps member.2 := by
  unfold compactMembers outerFlags
  refine List.filter_congr fun member _ => ?_
  simp only [List.contains_nil, Bool.and_false, Bool.false_or]

/-- An object fills its slot with the members that are written into it, none of them pinned, and that
it keeps. -/
theorem outcome_object (h : w.checkSlot = .ok ()) {calls : WriterM Unit}
    {result : Except Error Item}
    (hcalls : outcome calls (w.withObject (w.stack.isEmpty && !w.nested) [] []) =
      result.map fun members => w.withObject (w.stack.isEmpty && !w.nested) members []) :
    outcome (do beginObject; calls; endObject) w =
      result.map fun members =>
        w.fill (.map (members.filter fun member => w.outerFlags.keeps member.2)) := by
  have hopen : outcome beginObject w =
      .ok (w.withObject (w.stack.isEmpty && !w.nested) [] []) :=
    outcome_eq_ok.mpr (beginObject_of_free h)
  rw [outcome_bind, hopen]
  change outcome (do calls; endObject) _ = _
  rw [outcome_bind, hcalls]
  cases result with
  | error e => rfl
  | ok members =>
    have hclose := outcome_eq_ok.mpr
      (endObject_withObject h (w.stack.isEmpty && !w.nested) members [])
    rw [compactMembers_of_nil_pinned] at hclose
    exact hclose

end

end Writer

end ItemMapper
