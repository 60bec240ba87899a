import ItemMapper.Error
import ItemMapper.Number.Order
import ItemMapper.Number.Shortest

/-!
# The writer

A writer builds one attribute value from a sequence of calls. A leaf fills the current slot: the
pending property of the innermost object, the next element of the innermost array, or the root.
Closing a container compacts it: null and empty children are dropped, except from the outermost
object where a flag or the property itself asks for them. Closing an array that is marked as a set
turns it into a set of texts, numbers or byte strings when all its elements are of that kind.

A call that the writer's state does not allow fails. The state that a failed call leaves behind
is part of its meaning: closing a container takes it off the stack before it is examined.

## Main definitions

* `Writer`: the state between calls.
* `WriterM`: a call, which may fail and always leaves a state.
* `Writer.beginObject`, `Writer.propertyWith`, `Writer.endObject`, `Writer.beginArray`,
  `Writer.endArray`, `Writer.write`: the calls.
* `Writer.finish`: the value that has been written.
-/

namespace ItemMapper

/-- What the outermost object and the root keep. -/
structure WriteFlags where
  persistNullValues : Bool
  persistEmptyObjects : Bool
deriving DecidableEq, Repr, Inhabited

/-- Keeps nothing that is null or empty. -/
def WriteFlags.none : WriteFlags := ⟨false, false⟩

/-- Keeps everything. -/
def WriteFlags.all : WriteFlags := ⟨true, true⟩

/-- Whether a value is kept where only the flags protect it. -/
def WriteFlags.keeps (flags : WriteFlags) (value : AttributeValue) : Bool :=
  if value.isNull then flags.persistNullValues
  else if value.isEmptyContainer then flags.persistEmptyObjects
  else true

/-- A container that is being written. -/
inductive Frame where
  /-- An object: its members so far, the names that are kept whatever they hold, the property that
  waits for its value, and whether the object is the outermost one. -/
  | object (members : Item) (pinned : List String) (pending : Option (String × Bool))
      (outermost : Bool)
  /-- An array: its elements so far, whether it is marked as a set, and whether it stands directly
  in another array. -/
  | array (elements : List AttributeValue) (asSet : Bool) (inArray : Bool)
deriving DecidableEq, Repr, Inhabited

/-- The state of a writer. -/
structure Writer where
  flags : WriteFlags
  /-- Whether the value becomes a part of another one, so that no object in it is outermost. -/
  nested : Bool
  /-- The open containers, innermost first. -/
  stack : List Frame
  root : Option AttributeValue
deriving DecidableEq, Repr, Inhabited

/-- A call of a writer: it may fail, and it leaves a state either way. -/
abbrev WriterM := EStateM Error Writer

namespace Writer

/-- A writer for a value of its own. -/
def new (flags : WriteFlags) : Writer := ⟨flags, false, [], none⟩

/-- A writer for a part of another value; it keeps nulls and empty containers at its root. -/
def forPart : Writer := ⟨.all, true, [], none⟩

/-- Whether a value may be written now, and otherwise why not. -/
def checkSlot (w : Writer) : Except Error Unit :=
  match w.stack with
  | [] => if w.root.isSome then .error (.writer "root value already written") else .ok ()
  | .object _ _ none _ :: _ => .error (.writer "value written without a property name")
  | _ => .ok ()

/-- The writer with the current slot filled, where there is one. -/
def fill (w : Writer) (value : AttributeValue) : Writer :=
  match w.stack with
  | [] => { w with root := some value }
  | .object members pinned (some (name, pin)) outermost :: rest =>
    let pinned := if pin then name :: pinned else pinned
    { w with stack := .object (members.insert name value) pinned none outermost :: rest }
  | .object _ _ none _ :: _ => w
  | .array elements asSet inArray :: rest =>
    { w with stack := .array (elements ++ [value]) asSet inArray :: rest }

/-- Fills the current slot. -/
def write (value : AttributeValue) : WriterM Unit := fun w =>
  match w.checkSlot with
  | .error e => .error e w
  | .ok () => .ok () (w.fill value)

/-- Opens an object in the current slot. -/
def beginObject : WriterM Unit := fun w =>
  match w.checkSlot with
  | .error e => .error e w
  | .ok () =>
    .ok () { w with stack := .object [] [] none (w.stack.isEmpty && !w.nested) :: w.stack }

/-- Names the property that the next value belongs to, and whether it is kept whatever it holds. -/
def propertyWith (name : String) (pinned : Bool) : WriterM Unit := fun w =>
  match w.stack with
  | .object members pins none outermost :: rest =>
    .ok () { w with stack := .object members pins (some (name, pinned)) outermost :: rest }
  | .object _ _ (some (previous, _)) _ :: _ =>
    .error (.writer s!"property '{previous}' was never written") w
  | _ => .error (.writer s!"property '{name}' written outside an object") w

/-- Names the property that the next value belongs to. -/
def property (name : String) : WriterM Unit := propertyWith name false

/-- The members that an object keeps when it is closed. -/
def compactMembers (flags : WriteFlags) (pinned : List String) (outermost : Bool) (members : Item) :
    Item :=
  let flags := if outermost then flags else .none
  members.filter fun (name, value) => (outermost && pinned.contains name) || flags.keeps value

/-- Closes the innermost object and fills the slot around it. -/
def endObject : WriterM Unit := fun w =>
  match w.stack with
  | .object members pinned pending outermost :: rest =>
    let w := { w with stack := rest }
    match pending with
    | some (name, _) => .error (.writer s!"property '{name}' was never written") w
    | none => write (.map (compactMembers w.flags pinned outermost members)) w
  | stack => .error (.writer "end_object without matching begin_object") { w with stack := stack.tail }

/-- Opens an array in the current slot, perhaps marked as a set. -/
def beginArray (asSet : Bool) : WriterM Unit := fun w =>
  match w.checkSlot with
  | .error e => .error e w
  | .ok () =>
    let inArray := match w.stack with
      | .array _ _ _ :: _ => true
      | _ => false
    .ok () { w with stack := .array [] asSet inArray :: w.stack }

/-- The kinds of element that sets are made of. -/
inductive Family where
  | text
  | number
  | binary
  | other
deriving DecidableEq, Repr

/-- The kind of an element. -/
def family : AttributeValue → Family
  | .text _ => .text
  | .number _ => .number
  | .binary _ => .binary
  | _ => .other

/-- The set of the elements, each once and in ascending order; elements that no set can hold stay a
list. All the elements have to be of one kind. -/
def inferSet (elements : List AttributeValue) : Except Error AttributeValue :=
  match elements with
  | [] => .ok (.list [])
  | first :: _ =>
    if elements.any fun e => family e ≠ family first then
      .error (Cause.invalidSetContents "cannot persist mixed-type set")
    else
      .ok <| match family first with
        | .text => .textSet (sortBy compareText (dedupEq (elements.filterMap (·.asText?))))
        | .number => .numberSet (sortBy compareNumberText (dedupEq (elements.filterMap (·.asNumber?))))
        | .binary => .binarySet (sortBy compareBytes (dedupEq (elements.filterMap (·.asBinary?))))
        | .other => .list elements

/-- What an array becomes when it is closed. -/
def closeArray (asSet inArray : Bool) (elements : List AttributeValue) :
    Except Error AttributeValue :=
  let infer := asSet && !inArray
  let kept := elements.filter fun e => !e.isNull && !e.isEmptyContainer
  if infer then
    if elements.any (·.isNull) then .error (Cause.invalidSetContents "cannot persist null in set")
    else inferSet kept
  else .ok (.list kept)

/-- Closes the innermost array and fills the slot around it. -/
def endArray : WriterM Unit := fun w =>
  match w.stack with
  | .array elements asSet inArray :: rest =>
    let w := { w with stack := rest }
    match closeArray asSet inArray elements with
    | .error e => .error e w
    | .ok value => write value w
  | stack => .error (.writer "end_array without matching begin_array") { w with stack := stack.tail }

/-- Writes null. -/
def writeNull : WriterM Unit := write (.null true)

/-- Writes a text; an empty one is written as null. -/
def writeText (value : String) : WriterM Unit :=
  if value.isEmpty then writeNull else write (.text value)

/-- Writes a number by its decimal text. -/
def writeNumber (digits : String) : WriterM Unit := write (.number digits)

/-- Writes an integer. -/
def writeInt (value : Int) : WriterM Unit := writeNumber (toString value)

/-- Writes a floating-point number of a format, which has to be finite. -/
def writeFloat (format : Floating.Format) (value : Floating) : WriterM Unit := fun w =>
  let digits := value.print format
  if value.isFinite then writeNumber digits w else .error (Cause.invalidNumber digits "N") w

/-- Writes a truth value. -/
def writeBool (value : Bool) : WriterM Unit := write (.bool value)

/-- Writes a byte string; an empty one is written as null. -/
def writeBinary (value : Bytes) : WriterM Unit :=
  if value.isEmpty then writeNull else write (.binary value)

/-- The written value, if there is one and the flags keep it. Containers that are still open are an
error. -/
def finish (w : Writer) : Except Error (Option AttributeValue) :=
  if w.stack.isEmpty then .ok (w.root.filter w.flags.keeps)
  else .error (.writer s!"{w.stack.length} container(s) left open")

/-- The value that a call writes into a writer. -/
def run (w : Writer) (call : WriterM Unit) : Except Error (Option AttributeValue) :=
  match call w with
  | .ok _ w => w.finish
  | .error e _ => .error e

/-- The call, its failure seen from outside a step. -/
def inside (segment : PathSegment) (call : WriterM Unit) : WriterM Unit := fun w =>
  match call w with
  | .ok _ w => .ok () w
  | .error e w => .error (e.within segment) w

end Writer

end ItemMapper
