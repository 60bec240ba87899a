import ItemMapper.Proofs.Codec.Scalars
import ItemMapper.Proofs.Writer.Slots

/-!
# The grammar of writer calls

The calls that a writer accepts are the words of a grammar: a value is a leaf, an object of named values,
or an array of values. Which call may come next depends on where the writer stands, and a place is told
by the slots that lead to it: each open container fills a slot of the one around it. What the containers
hold does not matter.

A writer is followed along its places. A value that is derived from the grammar leads from a free slot to
the place where that slot is filled; and what has been called when a writer stands at a place is told by
the place, up to the values that the open containers hold already. The first shows that the words of the
grammar are accepted, the second that nothing else is, and which fault a refused sequence has.

## Main definitions

* `Writer.Event`: a call, without what is only a detail of it.
* `Writer.Derives`: the grammar.
* `Writer.Malformed`: the faults that a sequence of calls can have.
* `Writer.Slot`, `Writer.Place`: where a writer stands.

## Main statements

* `Writer.Place.tells_runAll`: a writer stands where the calls lead from the place where it stood.
* `Writer.Derives.run_eq`: where a word of the grammar leads.
* `Writer.Place.After.run`: what has been called when a writer stands at a place.
* `Writer.accepted_iff`: the accepted sequences are the words of the grammar and the empty sequence, and
  all others have a fault.
-/

namespace ItemMapper.Writer

/-! ### Calls -/

/-- A leaf, which may be written wherever a value may. -/
inductive LeafCall where
  | null
  | bool (value : Bool)
  | int (value : Int)
  | float (format : Floating.Format) (value : Floating) (finite : value.isFinite = true)
  | number (digits : String)
  | text (value : String)
  | binary (bytes : Bytes)
  /-- A finished attribute value. -/
  | stored (value : AttributeValue)
  /-- A value of a scalar type by the converter of this type, one of those that are always there. -/
  | scalar (type : Scalar) (value : Datum) (fits : (type.piece? value).isSome = true)

/-- Writes a leaf. -/
def LeafCall.run : LeafCall → WriterM Unit
  | null => writeNull
  | bool value => writeBool value
  | int value => writeInt value
  | float format value _ => writeFloat format value
  | number digits => writeNumber digits
  | text value => writeText value
  | binary bytes => writeBinary bytes
  | stored value => write value
  | scalar type value _ =>
    Converter.writeBy (Converter.first? Converter.builtins (.scalar type)) "value"
      ⟨.scalar type, value⟩

/-- A call. Arrays are not marked as sets. -/
inductive Event where
  | leaf (call : LeafCall)
  | beginObject
  | property (name : String) (pinned : Bool)
  | endObject
  | beginArray
  | endArray

/-- Makes a call. -/
def Event.run : Event → WriterM Unit
  | leaf call => call.run
  | beginObject => Writer.beginObject
  | property name pinned => propertyWith name pinned
  | endObject => Writer.endObject
  | beginArray => Writer.beginArray false
  | endArray => Writer.endArray

/-- Makes the calls one after the other, as long as none fails. -/
def runAll : List Event → WriterM Unit
  | [] => pure ()
  | event :: rest => do
    event.run
    runAll rest

theorem runAll_append (events rest : List Event) :
    runAll (events ++ rest) = (do runAll events; runAll rest) := by
  induction events with
  | nil => rfl
  | cons event events ih =>
    change (do event.run; runAll (events ++ rest)) = _
    rw [ih]
    exact (bind_assoc _ _ _).symm

theorem runAll_singleton (event : Event) : runAll [event] = event.run := by
  funext w
  change EStateM.bind event.run (fun _ => pure ()) w = _
  unfold EStateM.bind
  cases event.run w <;> rfl

/-- Whether a value begins with the call. -/
def Event.Starts : Event → Prop
  | leaf _ | beginObject | beginArray => True
  | property _ _ | endObject | endArray => False

/-- Whether a container ends with the call. -/
def Event.Ends : Event → Prop
  | endObject | endArray => True
  | leaf _ | beginObject | property _ _ | beginArray => False

/-! ### The grammar -/

/-- What the grammar has words for. -/
inductive Nonterminal where
  | value
  /-- Any number of properties, each with its value. -/
  | entries
  /-- Any number of values. -/
  | values

/-- The words of the grammar. -/
inductive Derives : Nonterminal → List Event → Prop
  | leaf (call : LeafCall) : Derives .value [.leaf call]
  | object {entries : List Event} :
      Derives .entries entries → Derives .value (.beginObject :: entries ++ [.endObject])
  | array {values : List Event} :
      Derives .values values → Derives .value (.beginArray :: values ++ [.endArray])
  | noEntries : Derives .entries []
  | entry {name : String} {pinned : Bool} {value rest : List Event} :
      Derives .value value → Derives .entries rest →
        Derives .entries (.property name pinned :: value ++ rest)
  | noValues : Derives .values []
  | element {value rest : List Event} :
      Derives .value value → Derives .values rest → Derives .values (value ++ rest)

/-- The faults of a sequence of calls. -/
inductive Malformed : List Event → Prop
  /-- A second value at the root. -/
  | secondRoot {value rest : List Event} {event : Event} :
      Derives .value value → event.Starts → Malformed (value ++ event :: rest)
  /-- A value in an object without the name of its property. -/
  | unnamed {before entries rest : List Event} {event : Event} :
      Derives .entries entries → event.Starts →
        Malformed (before ++ .beginObject :: entries ++ event :: rest)
  /-- A property that is followed by something else than its value. -/
  | unwritten {before rest : List Event} {name : String} {pinned : Bool} {event : Event} :
      ¬ event.Starts → Malformed (before ++ .property name pinned :: event :: rest)
  /-- A property at the very end. -/
  | unwrittenLast {before : List Event} {name : String} {pinned : Bool} :
      Malformed (before ++ [.property name pinned])
  /-- A property outside all containers. -/
  | propertyAtRoot {before rest : List Event} {name : String} {pinned : Bool} :
      before = [] ∨ Derives .value before → Malformed (before ++ .property name pinned :: rest)
  /-- A property in an array. -/
  | propertyInArray {before values rest : List Event} {name : String} {pinned : Bool} :
      Derives .values values →
        Malformed (before ++ .beginArray :: values ++ .property name pinned :: rest)
  /-- The end of a container that was not begun. -/
  | endAtRoot {before rest : List Event} {event : Event} :
      before = [] ∨ Derives .value before → event.Ends → Malformed (before ++ event :: rest)
  /-- An object that ends as an array. -/
  | objectMismatched {before entries rest : List Event} :
      Derives .entries entries → Malformed (before ++ .beginObject :: entries ++ .endArray :: rest)
  /-- An array that ends as an object. -/
  | arrayMismatched {before values rest : List Event} :
      Derives .values values → Malformed (before ++ .beginArray :: values ++ .endObject :: rest)
  /-- An object that does not end. -/
  | objectOpen {before entries : List Event} :
      Derives .entries entries → Malformed (before ++ .beginObject :: entries)
  /-- An array that does not end. -/
  | arrayOpen {before values : List Event} :
      Derives .values values → Malformed (before ++ .beginArray :: values)

/-! ### Places -/

/-- A slot for a value, found from the outside in. -/
inductive Slot where
  | root
  /-- Of a property in an object that fills the slot around it. -/
  | property (around : Slot)
  /-- Of the next element in an array that fills the slot around it. -/
  | element (around : Slot)

/-- Where a writer stands. -/
inductive Place where
  /-- Before a slot that is free; in an array, or at the root, the value may also stay away. -/
  | free (slot : Slot)
  /-- In an object where no property waits for its value. -/
  | object (around : Slot)
  /-- After the root has been written. -/
  | done

/-- Where a writer stands when the slot has been filled. -/
def Slot.filled : Slot → Place
  | root => .done
  | property around => .object around
  | element around => .free (.element around)

/-- Where a call leads. -/
def Place.step : Place → Event → Option Place
  | free slot, .leaf _ => some slot.filled
  | free slot, .beginObject => some (.object slot)
  | free slot, .beginArray => some (.free (.element slot))
  | free (.element around), .endArray => some around.filled
  | object around, .property _ _ => some (.free (.property around))
  | object around, .endObject => some around.filled
  | _, _ => none

/-- Where a sequence of calls leads. -/
def Place.run : Place → List Event → Option Place
  | place, [] => some place
  | place, event :: rest => (place.step event).bind (·.run rest)

/-- Whether no container is open. -/
def Place.Closed : Place → Prop
  | free .root | done => True
  | _ => False

theorem Place.run_append (place : Place) (events rest : List Event) :
    place.run (events ++ rest) = (place.run events).bind (·.run rest) := by
  induction events generalizing place with
  | nil => rfl
  | cons event events ih =>
    rw [List.cons_append, run, run]
    cases place.step event with
    | none => rfl
    | some next => exact ih next

/-! ### Writers at their places -/

/-- The slot is that of the open containers. -/
inductive Slot.Of : Slot → List Frame → Prop
  | root : Of .root []
  | property {around : Slot} {below : List Frame} {members : Item} {pinned : List String}
      {waiting : String × Bool} {outermost : Bool} :
      around.Of below → Of (.property around) (.object members pinned (some waiting) outermost :: below)
  | element {around : Slot} {below : List Frame} {elements : List AttributeValue} {inArray : Bool} :
      around.Of below → Of (.element around) (.array elements false inArray :: below)

/-- The writer stands at the place. -/
inductive Place.Of : Place → Writer → Prop
  | free {slot : Slot} {flags : WriteFlags} {nested : Bool} {stack : List Frame} :
      slot.Of stack → Of (.free slot) ⟨flags, nested, stack, none⟩
  | object {around : Slot} {flags : WriteFlags} {nested : Bool} {members : Item}
      {pinned : List String} {outermost : Bool} {below : List Frame} :
      around.Of below →
        Of (.object around) ⟨flags, nested, .object members pinned none outermost :: below, none⟩
  | done {flags : WriteFlags} {nested : Bool} {value : AttributeValue} :
      Of .done ⟨flags, nested, [], some value⟩

/-- An outcome is what leads to a place, or a failure where nothing does. -/
inductive Place.Tells : Option Place → Except Error Writer → Prop
  | ok {place : Place} {w : Writer} : place.Of w → Tells (some place) (.ok w)
  | error {e : Error} : Tells none (.error e)

section
variable {flags : WriteFlags} {nested : Bool} {slot : Slot} {stack : List Frame} {w : Writer}

theorem Slot.Of.checkSlot (h : slot.Of stack) :
    checkSlot ⟨flags, nested, stack, none⟩ = .ok () := by
  cases h <;> rfl

theorem Slot.Of.fill (h : slot.Of stack) (value : AttributeValue) :
    slot.filled.Of (fill ⟨flags, nested, stack, none⟩ value) := by
  cases h with
  | root => exact .done
  | property h => exact .object h
  | element h => exact .free (.element h)

theorem Slot.Of.write (h : slot.Of stack) (value : AttributeValue) :
    Place.Tells (some slot.filled) (outcome (write value) ⟨flags, nested, stack, none⟩) := by
  rw [outcome_write h.checkSlot]
  exact .ok (h.fill value)

/-- A leaf is a value that is put into the slot. -/
theorem LeafCall.exists_run_eq (call : LeafCall) : ∃ value, call.run = Writer.write value := by
  cases call with
  | text value => exact ⟨_, writeText_eq value⟩
  | binary bytes => exact ⟨_, writeBinary_eq bytes⟩
  | float format value finite =>
    refine ⟨.number (value.print format), funext fun w => ?_⟩
    rw [run, writeFloat, if_pos finite]
    rfl
  | scalar type value fits =>
    obtain ⟨written, hwritten⟩ := Option.isSome_iff_exists.mp fits
    exact ⟨written, Converter.writeBy_builtins hwritten "value"⟩
  | _ => exact ⟨_, rfl⟩

/-- Where no value may be written, no call that begins one is accepted. -/
theorem Event.Starts.outcome_eq {event : Event} (hstarts : event.Starts) {e : Error}
    (h : w.checkSlot = .error e) : outcome event.run w = .error e := by
  cases event with
  | leaf call =>
    obtain ⟨value, hvalue⟩ := call.exists_run_eq
    rw [run, hvalue, outcome, write, h]
  | beginObject =>
    change outcome Writer.beginObject w = _
    rw [outcome, Writer.beginObject, h]
  | beginArray =>
    change outcome (Writer.beginArray false) w = _
    rw [outcome, Writer.beginArray, h]
  | property | endObject | endArray => exact hstarts.elim

/-- Where a slot is free, a call that begins a value fills it or opens a container in it. -/
theorem Slot.Of.tells (h : slot.Of stack) {event : Event} (hstarts : event.Starts) :
    Place.Tells ((Place.free slot).step event) (outcome event.run ⟨flags, nested, stack, none⟩) := by
  cases event with
  | leaf call =>
    obtain ⟨value, hvalue⟩ := call.exists_run_eq
    rw [Event.run, hvalue]
    exact h.write value
  | beginObject =>
    rw [Event.run, outcome, beginObject_of_free h.checkSlot]
    exact .ok (.object h)
  | beginArray =>
    rw [Event.run, outcome, beginArray_of_free h.checkSlot]
    exact .ok (.free (.element h))
  | property | endObject | endArray => exact hstarts.elim

/-- Where no value may be written, no call that begins one leads anywhere. -/
theorem Event.tells_none {event : Event} (hstarts : event.Starts) {e : Error}
    (h : w.checkSlot = .error e) : Place.Tells none (outcome event.run w) := by
  rw [hstarts.outcome_eq h]
  exact .error

/-- A call leads a writer from its place to the next one, and fails where there is none. -/
theorem Place.tells_run {place : Place} (h : place.Of w) (event : Event) :
    Tells (place.step event) (outcome event.run w) := by
  cases h with
  | done =>
    cases event with
    | leaf | beginObject | beginArray => exact Event.tells_none trivial rfl
    | property | endObject | endArray => exact .error
  | object haround =>
    cases event with
    | leaf | beginObject | beginArray => exact Event.tells_none trivial rfl
    | property => exact .ok (.free (.property haround))
    | endObject => exact haround.write _
    | endArray => exact .error
  | free hslot =>
    cases event with
    | leaf | beginObject | beginArray => exact hslot.tells trivial
    | property | endObject =>
      cases hslot <;> exact .error
    | endArray =>
      cases hslot with
      | element haround => exact haround.write _
      | root | property => exact .error

/-- A sequence of calls leads a writer from its place to the last one, and fails where there is none. -/
theorem Place.tells_runAll {place : Place} (h : place.Of w) (events : List Event) :
    Tells (place.run events) (outcome (runAll events) w) := by
  induction events generalizing place w with
  | nil => exact .ok h
  | cons event rest ih =>
    rw [runAll, outcome_bind, run]
    have hstep := tells_run h event
    generalize place.step event = next at hstep ⊢
    generalize outcome event.run w = result at hstep ⊢
    cases hstep with
    | error => exact .error
    | ok hnext => exact ih hnext

/-- What is written is finished where no container is open. -/
theorem Place.Of.finish {place : Place} (h : place.Of w) :
    (∃ value?, w.finish = .ok value?) ↔ place.Closed := by
  cases h with
  | done => exact ⟨fun _ => trivial, fun _ => ⟨_, rfl⟩⟩
  | object haround => exact ⟨nofun, False.elim⟩
  | free hslot =>
    cases hslot with
    | root => exact ⟨fun _ => trivial, fun _ => ⟨_, rfl⟩⟩
    | property | element => exact ⟨nofun, False.elim⟩

end

/-- Whether a new writer accepts all the calls and is finished then. -/
def Accepted (flags : WriteFlags) (nested : Bool) (events : List Event) : Prop :=
  ∃ value?, run ⟨flags, nested, [], none⟩ (runAll events) = .ok value?

/-- Whether one of the calls to a new writer fails, or there is nothing that could be finished then. -/
def Reported (flags : WriteFlags) (nested : Bool) (events : List Event) : Prop :=
  ∃ e, run ⟨flags, nested, [], none⟩ (runAll events) = .error e

/-- Calls are accepted where they lead to a place at which no container is open. -/
theorem accepted_iff_run {flags : WriteFlags} {nested : Bool} {events : List Event} :
    Accepted flags nested events ↔
      ∃ place, (Place.free .root).run events = some place ∧ place.Closed := by
  have hstart : (Place.free .root).Of ⟨flags, nested, [], none⟩ := .free .root
  have htells := Place.tells_runAll hstart events
  rw [Accepted, run_eq_outcome]
  generalize (Place.free .root).run events = place? at htells ⊢
  generalize outcome (runAll events) _ = result at htells ⊢
  cases htells with
  | error => exact ⟨nofun, nofun⟩
  | @ok place w hplace =>
    refine hplace.finish.trans ⟨fun hclosed => ⟨place, rfl, hclosed⟩, ?_⟩
    rintro ⟨place', heq, hclosed⟩
    cases heq
    exact hclosed

theorem reported_iff_not_accepted {flags : WriteFlags} {nested : Bool} {events : List Event} :
    Reported flags nested events ↔ ¬ Accepted flags nested events := by
  rw [Reported, Accepted]
  cases run ⟨flags, nested, [], none⟩ (runAll events) with
  | ok value? => exact ⟨nofun, fun h => (h ⟨value?, rfl⟩).elim⟩
  | error e => exact ⟨fun _ => nofun, fun _ => ⟨e, rfl⟩⟩

/-! ### Words of the grammar are accepted -/

/-- Where the words of a nonterminal are read. -/
def Nonterminal.source : Nonterminal → Slot → Place
  | value, slot => .free slot
  | entries, slot => .object slot
  | values, slot => .free (.element slot)

/-- Where the words of a nonterminal lead. -/
def Nonterminal.target : Nonterminal → Slot → Place
  | value, slot => slot.filled
  | entries, slot => .object slot
  | values, slot => .free (.element slot)

/-- A word of the grammar fills its slot, or adds to the container in which it is read. -/
theorem Derives.run_eq {n : Nonterminal} {events : List Event} (h : Derives n events) (slot : Slot) :
    (n.source slot).run events = some (n.target slot) := by
  induction h generalizing slot with
  | leaf | noEntries | noValues => rfl
  | @object entries _ ih =>
    have hentries : (Place.object slot).run entries = some (.object slot) := ih slot
    simp only [Nonterminal.source, List.cons_append, Place.run, Place.step, Option.bind_some,
      Place.run_append, hentries, Nonterminal.target]
  | @array values _ ih =>
    have hvalues : (Place.free (.element slot)).run values = some (.free (.element slot)) := ih slot
    simp only [Nonterminal.source, List.cons_append, Place.run, Place.step, Option.bind_some,
      Place.run_append, hvalues, Nonterminal.target]
  | @entry name pinned value rest _ _ ihvalue ihrest =>
    have hvalue : (Place.free (.property slot)).run value = some (.object slot) :=
      ihvalue (.property slot)
    simp only [Nonterminal.source, List.cons_append, Place.run, Place.step, Option.bind_some,
      Place.run_append, hvalue]
    exact ihrest slot
  | @element value rest _ _ ihvalue ihrest =>
    have hvalue : (Place.free (.element slot)).run value = some (.free (.element slot)) :=
      ihvalue (.element slot)
    simp only [Nonterminal.source, Place.run_append, hvalue, Option.bind_some]
    exact ihrest slot

theorem Derives.run_value {value : List Event} (h : Derives .value value) (slot : Slot) :
    (Place.free slot).run value = some slot.filled := h.run_eq slot

theorem Derives.run_entries {entries : List Event} (h : Derives .entries entries) (slot : Slot) :
    (Place.object slot).run entries = some (.object slot) := h.run_eq slot

theorem Derives.run_values {values : List Event} (h : Derives .values values) (slot : Slot) :
    (Place.free (.element slot)).run values = some (.free (.element slot)) := h.run_eq slot

theorem Derives.append {n : Nonterminal} {events more : List Event} (h : Derives n events)
    (hmore : Derives n more) (hn : n ≠ .value) : Derives n (events ++ more) := by
  induction h with
  | leaf | object | array => exact (hn rfl).elim
  | noEntries | noValues => exact hmore
  | entry hvalue _ _ ih =>
    rw [List.append_assoc]
    exact .entry hvalue (ih hmore hn)
  | element hvalue _ _ ih =>
    rw [List.append_assoc]
    exact .element hvalue (ih hmore hn)

/-! ### What has been called -/

/-- What has been called when the slot is free. -/
inductive Slot.After : Slot → List Event → Prop
  | root : After .root []
  | property {around : Slot} {before entries : List Event} {name : String} {pinned : Bool} :
      around.After before → Derives .entries entries →
        After (.property around) (before ++ .beginObject :: entries ++ [.property name pinned])
  | element {around : Slot} {before values : List Event} :
      around.After before → Derives .values values →
        After (.element around) (before ++ .beginArray :: values)

/-- What has been called when a writer stands at the place. -/
inductive Place.After : Place → List Event → Prop
  | free {slot : Slot} {events : List Event} : slot.After events → After (.free slot) events
  | object {around : Slot} {before entries : List Event} :
      around.After before → Derives .entries entries →
        After (.object around) (before ++ .beginObject :: entries)
  | done {events : List Event} : Derives .value events → After .done events

theorem Slot.After.filled {slot : Slot} {before value : List Event} (h : slot.After before)
    (hvalue : Derives .value value) : slot.filled.After (before ++ value) := by
  cases h with
  | root => exact .done hvalue
  | @property around before entries name pinned haround hentries =>
    have hall : Derives .entries (entries ++ (.property name pinned :: value ++ [])) :=
      hentries.append (.entry hvalue .noEntries) nofun
    change (Place.object around).After _
    simpa using Place.After.object haround hall
  | @element around before values haround hvalues =>
    have hall : Derives .values (values ++ (value ++ [])) :=
      hvalues.append (.element hvalue .noValues) nofun
    change (Place.free (.element around)).After _
    simpa using Place.After.free (.element haround hall)

/-- A call extends what has been called. -/
theorem Place.After.step {place next : Place} {before : List Event} (h : place.After before)
    {event : Event} (hstep : place.step event = some next) : next.After (before ++ [event]) := by
  cases h with
  | done => cases event <;> cases hstep
  | @object around before entries haround hentries =>
    cases event with
    | leaf | beginObject | beginArray | endArray => cases hstep
    | property name pinned =>
      cases hstep
      exact .free (.property haround hentries)
    | endObject =>
      cases hstep
      simpa using haround.filled (.object hentries)
  | free hslot =>
    cases event with
    | leaf call =>
      cases hstep
      exact hslot.filled (.leaf call)
    | beginObject =>
      cases hstep
      exact .object hslot .noEntries
    | beginArray =>
      cases hstep
      exact .free (.element hslot .noValues)
    | property | endObject => cases hslot <;> cases hstep
    | endArray =>
      cases hslot with
      | root | property => cases hstep
      | element haround hvalues =>
        cases hstep
        simpa using haround.filled (.array hvalues)

/-- So does a sequence of calls. -/
theorem Place.After.run {place last : Place} {before events : List Event} (h : place.After before)
    (hrun : place.run events = some last) : last.After (before ++ events) := by
  induction events generalizing place before with
  | nil =>
    cases hrun
    rwa [List.append_nil]
  | cons event rest ih =>
    obtain ⟨next, hstep, hrest⟩ := Option.bind_eq_some_iff.mp hrun
    rw [← List.singleton_append, ← List.append_assoc]
    exact ih (h.step hstep) hrest

/-! ### Faults -/

/-- A call that leads nowhere is a fault. -/
theorem Place.After.malformed_of_step {place : Place} {before : List Event} (h : place.After before)
    {event : Event} (hstep : place.step event = none) (rest : List Event) :
    Malformed (before ++ event :: rest) := by
  cases h with
  | done hvalue =>
    cases event with
    | leaf | beginObject | beginArray => exact .secondRoot hvalue trivial
    | property => exact .propertyAtRoot (.inr hvalue)
    | endObject | endArray => exact .endAtRoot (.inr hvalue) trivial
  | object haround hentries =>
    cases event with
    | leaf | beginObject | beginArray => exact .unnamed hentries trivial
    | property | endObject => cases hstep
    | endArray => exact .objectMismatched hentries
  | free hslot =>
    cases hslot with
    | root =>
      cases event with
      | leaf | beginObject | beginArray => cases hstep
      | property => exact .propertyAtRoot (.inl rfl)
      | endObject | endArray => exact .endAtRoot (.inl rfl) trivial
    | property haround hentries =>
      rw [List.append_assoc]
      cases event with
      | leaf | beginObject | beginArray => cases hstep
      | property | endObject | endArray => exact .unwritten id
    | element haround hvalues =>
      cases event with
      | leaf | beginObject | beginArray | endArray => cases hstep
      | property => exact .propertyInArray hvalues
      | endObject => exact .arrayMismatched hvalues

/-- So is a container that is left open. -/
theorem Place.After.malformed_of_open {place : Place} {events : List Event} (h : place.After events)
    (hopen : ¬ place.Closed) : Malformed events := by
  cases h with
  | done => exact (hopen trivial).elim
  | object _ hentries => exact .objectOpen hentries
  | free hslot =>
    cases hslot with
    | root => exact (hopen trivial).elim
    | property => exact .unwrittenLast
    | element _ hvalues => exact .arrayOpen hvalues

/-- Calls that lead nowhere have a fault. -/
theorem Place.After.malformed_of_run {place : Place} {before events : List Event}
    (h : place.After before) (hrun : place.run events = none) : Malformed (before ++ events) := by
  induction events generalizing place before with
  | nil => cases hrun
  | cons event rest ih =>
    cases hstep : place.step event with
    | none => exact h.malformed_of_step hstep rest
    | some next =>
      rw [Place.run, hstep] at hrun
      rw [← List.singleton_append, ← List.append_assoc]
      exact ih (h.step hstep) hrun

section
variable {place last : Place} {before rest : List Event}

theorem Place.run_object {entries : List Event} (hentries : Derives .entries entries)
    (h : place.run (before ++ .beginObject :: entries ++ rest) = some last) :
    ∃ slot, (Place.object slot).run rest = some last := by
  rw [List.append_assoc, run_append] at h
  obtain ⟨opened, -, h⟩ := Option.bind_eq_some_iff.mp h
  rw [List.cons_append, run] at h
  cases opened with
  | free slot =>
    simp only [step, Option.bind_some, run_append, hentries.run_entries slot] at h
    exact ⟨slot, h⟩
  | object | done => cases h

theorem Place.run_array {values : List Event} (hvalues : Derives .values values)
    (h : place.run (before ++ .beginArray :: values ++ rest) = some last) :
    ∃ slot, (Place.free (.element slot)).run rest = some last := by
  rw [List.append_assoc, run_append] at h
  obtain ⟨opened, -, h⟩ := Option.bind_eq_some_iff.mp h
  rw [List.cons_append, run] at h
  cases opened with
  | free slot =>
    simp only [step, Option.bind_some, run_append, hvalues.run_values slot] at h
    exact ⟨slot, h⟩
  | object | done => cases h

theorem Place.run_property {name : String} {pinned : Bool}
    (h : place.run (before ++ .property name pinned :: rest) = some last) :
    ∃ slot, (Place.free (.property slot)).run rest = some last := by
  rw [run_append] at h
  obtain ⟨opened, -, h⟩ := Option.bind_eq_some_iff.mp h
  rw [run] at h
  cases opened with
  | object slot => exact ⟨slot, h⟩
  | free slot => cases slot <;> cases h
  | done => cases h

theorem Place.run_root (hbefore : before = [] ∨ Derives .value before)
    (h : (Place.free .root).run (before ++ rest) = some last) :
    (Place.free .root).run rest = some last ∨ Place.done.run rest = some last := by
  rcases hbefore with rfl | hvalue
  · exact .inl h
  · rw [run_append] at h
    rw [hvalue.run_value] at h
    exact .inr h

/-- Calls with a fault lead nowhere, or leave a container open. -/
theorem Malformed.not_closed {events : List Event} (h : Malformed events)
    (hrun : (Place.free .root).run events = some last) : ¬ last.Closed := by
  cases h with
  | @secondRoot value rest event hvalue hstarts =>
    rw [Place.run_append, hvalue.run_value] at hrun
    cases event with
    | leaf | beginObject | beginArray => cases hrun
    | property | endObject | endArray => exact hstarts.elim
  | @unnamed before entries rest event hentries hstarts =>
    obtain ⟨slot, hrun⟩ := Place.run_object hentries hrun
    cases event with
    | leaf | beginObject | beginArray => cases hrun
    | property | endObject | endArray => exact hstarts.elim
  | @unwritten before rest name pinned event hstarts =>
    obtain ⟨slot, hrun⟩ := Place.run_property hrun
    cases event with
    | leaf | beginObject | beginArray => exact (hstarts trivial).elim
    | property | endObject | endArray => cases hrun
  | unwrittenLast =>
    obtain ⟨slot, hrun⟩ := Place.run_property hrun
    cases hrun
    exact id
  | propertyAtRoot hbefore =>
    rcases Place.run_root hbefore hrun with hrun | hrun <;> cases hrun
  | propertyInArray hvalues =>
    obtain ⟨slot, hrun⟩ := Place.run_array hvalues hrun
    cases hrun
  | @endAtRoot before rest event hbefore hends =>
    rcases Place.run_root hbefore hrun with hrun | hrun
    all_goals
      cases event with
      | leaf | beginObject | beginArray | property => exact hends.elim
      | endObject | endArray => cases hrun
  | objectMismatched hentries =>
    obtain ⟨slot, hrun⟩ := Place.run_object hentries hrun
    cases hrun
  | arrayMismatched hvalues =>
    obtain ⟨slot, hrun⟩ := Place.run_array hvalues hrun
    cases hrun
  | objectOpen hentries =>
    rw [← List.append_nil (_ ++ _)] at hrun
    obtain ⟨slot, hrun⟩ := Place.run_object hentries hrun
    cases hrun
    exact id
  | arrayOpen hvalues =>
    rw [← List.append_nil (_ ++ _)] at hrun
    obtain ⟨slot, hrun⟩ := Place.run_array hvalues hrun
    cases hrun
    exact id

end

/-! ### Acceptance -/

/-- A new writer accepts the empty sequence and the words for a value, and a call or the finish fails
exactly where a sequence has a fault. -/
theorem accepted_iff (flags : WriteFlags) (nested : Bool) (events : List Event) :
    (Accepted flags nested events ↔ events = [] ∨ Derives .value events) ∧
      (Reported flags nested events ↔ Malformed events) := by
  have hstart : (Place.free .root).After [] := .free .root
  constructor
  · rw [accepted_iff_run]
    constructor
    · rintro ⟨place, hrun, hclosed⟩
      have hafter := hstart.run hrun
      cases hafter with
      | done hvalue => exact .inr hvalue
      | object => exact hclosed.elim
      | free hslot =>
        cases hslot with
        | root => exact .inl rfl
        | property | element => exact hclosed.elim
    · rintro (rfl | hvalue)
      · exact ⟨_, rfl, trivial⟩
      · exact ⟨_, hvalue.run_value .root, trivial⟩
  · rw [reported_iff_not_accepted, accepted_iff_run]
    constructor
    · intro hrefused
      cases hrun : (Place.free .root).run events with
      | none => exact hstart.malformed_of_run hrun
      | some last =>
        exact (hstart.run hrun).malformed_of_open fun hclosed => hrefused ⟨last, hrun, hclosed⟩
    · rintro hfault ⟨last, hrun, hclosed⟩
      exact hfault.not_closed hrun hclosed

end ItemMapper.Writer
