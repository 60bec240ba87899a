import Mathlib.Data.List.Induction
import ItemMapper.Proofs.Writer.Calls

/-!
# Failed calls of a writer

A call that opens a container, names a property or writes a value looks at the writer first, so that it
has changed nothing where it fails. A call that closes a container takes the innermost one off the stack
before it looks at it. Where it fails, this container is lost, with all that it holds and the property
that waits in it, and even if it is of the other kind; everything around it is as it was before the
container was opened.

## Main definitions

* `Writer.AnyCall`: all the calls of a writer.
* `Writer.afterAll`: what a sequence of them makes of a writer.
* `Writer.Opened`: where the open containers of a writer were opened.

## Main statements

* `Writer.AnyCall.unchanged_of_failed`, `Writer.AnyCall.lost_of_failed`: what a failed call leaves.
* `Writer.opened_afterAll`: each open container was opened by a call before which the writer was as it is
  now around this container.
* `Writer.exists_endObject_iff`, `Writer.exists_endArray_iff`: when a container is closed.
* `Writer.failed_rewinds`: a failed call leaves the writer as it was, or takes back all that was done
  since the innermost container was opened.
-/

namespace ItemMapper.Writer

/-- All the calls of a writer. -/
inductive AnyCall where
  | plain (call : Call)
  /-- A value that has been built before. -/
  | built (value : AttributeValue)

/-- What a call does to a writer. -/
def AnyCall.run : AnyCall → WriterM Unit
  | plain call => call.run
  | built value => write value

/-- The calls that close a container. -/
def AnyCall.Closes : AnyCall → Prop
  | plain .endObject | plain .endArray => True
  | _ => False

/-- What a sequence of calls makes of a writer. The calls are made one after the other, whether the
earlier ones have failed or not. -/
def afterAll (w : Writer) (calls : List AnyCall) : Writer :=
  calls.foldl (fun w call => after call.run w) w

/-- A writer that has not been used. -/
inductive Unused : Writer → Prop
  | own (flags : WriteFlags) : Unused (new flags)
  | part : Unused forPart

variable {start w w' : Writer} {e : Error} {frame frame' : Frame} {below : List Frame}
  {calls : List AnyCall}

theorem Unused.stack_eq_nil (h : Unused w) : w.stack = [] := by
  cases h with
  | own | part => rfl

theorem afterAll_append_singleton (w : Writer) (calls : List AnyCall) (call : AnyCall) :
    afterAll w (calls ++ [call]) = after call.run (afterAll w calls) :=
  List.foldl_concat ..

/-! ### One call -/

theorem write_eq_error {value : AttributeValue} (h : write value w = .error e w') : w' = w := by
  unfold write at h
  split at h
  · cases h
    rfl
  · cases h

theorem WritesLeaf.unchanged_of_failed {call : WriterM Unit} (hcall : WritesLeaf call)
    (h : call w = .error e w') : w' = w := by
  cases hcall with
  | leaf => exact write_eq_error h
  | refusal => cases h; rfl

theorem beginObject_eq_error (h : beginObject w = .error e w') : w' = w := by
  unfold beginObject at h
  split at h
  · cases h
    rfl
  · cases h

theorem beginArray_eq_error {asSet : Bool} (h : beginArray asSet w = .error e w') : w' = w := by
  unfold beginArray at h
  split at h
  · cases h
    rfl
  · cases h

theorem propertyWith_eq_error {name : String} {pinned : Bool}
    (h : propertyWith name pinned w = .error e w') : w' = w := by
  unfold propertyWith at h
  split at h
  · cases h
  · cases h
    rfl
  · cases h
    rfl

theorem endObject_eq_error (h : endObject w = .error e w') :
    w' = { w with stack := w.stack.tail } := by
  unfold endObject at h
  cases hstack : w.stack with
  | nil =>
    rw [hstack] at h
    cases h
    rfl
  | cons frame below =>
    rw [hstack] at h
    rcases frame with ⟨members, pinned, _ | pending, outermost⟩ | _
    · exact write_eq_error h
    · cases h
      rfl
    · cases h
      rfl

theorem endArray_eq_error (h : endArray w = .error e w') :
    w' = { w with stack := w.stack.tail } := by
  unfold endArray at h
  cases hstack : w.stack with
  | nil =>
    rw [hstack] at h
    cases h
    rfl
  | cons frame below =>
    rw [hstack] at h
    rcases frame with _ | ⟨elements, asSet, inArray⟩
    · cases h
      rfl
    · dsimp only at h
      split at h
      · cases h
        rfl
      · exact write_eq_error h

/-- A call that closes no container has changed nothing where it fails. -/
theorem AnyCall.unchanged_of_failed {call : AnyCall} (hcall : ¬ call.Closes)
    (h : call.run w = .error e w') : w' = w := by
  match call with
  | built value => exact write_eq_error h
  | plain .endObject | plain .endArray => exact (hcall trivial).elim
  | plain .beginObject => exact beginObject_eq_error h
  | plain (.beginArray asSet) => exact beginArray_eq_error h
  | plain (.property name pinned) => exact propertyWith_eq_error h
  | plain .null => exact write_eq_error h
  | plain (.bool value) => exact write_eq_error h
  | plain (.int value) => exact write_eq_error h
  | plain (.number digits) => exact write_eq_error h
  | plain (.float format value) => exact (writesLeaf_float format value).unchanged_of_failed h
  | plain (.text value) => exact (writesLeaf_text value).unchanged_of_failed h
  | plain (.binary bytes) => exact (writesLeaf_binary bytes).unchanged_of_failed h
  | plain (.scalar value) => exact (writesLeaf_scalar value).unchanged_of_failed h

/-- A call that closes a container has taken the innermost one off the stack where it fails. -/
theorem AnyCall.lost_of_failed {call : AnyCall} (hcall : call.Closes)
    (h : call.run w = .error e w') : w' = { w with stack := w.stack.tail } := by
  match call with
  | plain .endObject => exact endObject_eq_error h
  | plain .endArray => exact endArray_eq_error h

/-! ### Where containers were opened -/

/-- The call that opens a container. -/
inductive Opens : AnyCall → Frame → Prop
  | object {members : Item} {pinned : List String} {pending : Option (String × Bool)}
      {outermost : Bool} : Opens (.plain .beginObject) (.object members pinned pending outermost)
  | array {elements : List AttributeValue} {asSet inArray : Bool} :
      Opens (.plain (.beginArray asSet)) (.array elements asSet inArray)

/-- Each container that is open in a writer was opened by a call of the sequence. Before this call a value
could be written, and the writer was as it is now around the container. -/
inductive Opened (start : Writer) (calls : List AnyCall) : Writer → Prop
  | bottom {w : Writer} (empty : w.stack = []) : Opened start calls w
  | within {w : Writer} {frame : Frame} {below : List Frame} {before between : List AnyCall}
      {opening : AnyCall} (innermost : w.stack = frame :: below)
      (cut : calls = before ++ opening :: between) (opens : Opens opening frame)
      (state : afterAll start before = { w with stack := below })
      (free : { w with stack := below }.checkSlot = .ok ())
      (around : Opened start calls { w with stack := below }) : Opened start calls w

namespace Opened

theorem later (h : Opened start calls w) (call : AnyCall) : Opened start (calls ++ [call]) w := by
  induction h with
  | bottom empty => exact .bottom empty
  | @within w frame below before between opening innermost cut opens state free around ih =>
    have hcut : calls ++ [call] = before ++ opening :: (between ++ [call]) := by
      rw [cut, List.append_assoc, List.cons_append]
    exact .within innermost hcut opens state free ih

theorem around (h : Opened start calls w) (hstack : w.stack = frame :: below) :
    Opened start calls { w with stack := below } ∧ { w with stack := below }.checkSlot = .ok () := by
  cases h with
  | bottom empty => cases empty.symm.trans hstack
  | within innermost cut opens state free around =>
    cases innermost.symm.trans hstack
    exact ⟨around, free⟩

theorem tail (h : Opened start calls w) : Opened start calls { w with stack := w.stack.tail } := by
  cases hstack : w.stack with
  | nil => exact .bottom rfl
  | cons frame below => exact (h.around hstack).1

/-- What a container holds does not matter. -/
theorem replace (h : Opened start calls w) (hstack : w.stack = frame :: below)
    (hframe : ∀ call, Opens call frame → Opens call frame') :
    Opened start calls { w with stack := frame' :: below } := by
  cases h with
  | bottom empty => cases empty.symm.trans hstack
  | within innermost cut opens state free around =>
    cases innermost.symm.trans hstack
    exact .within rfl cut (hframe _ opens) state free around

theorem fill (h : Opened start calls w) (value : AttributeValue) :
    Opened start calls (w.fill value) := by
  obtain ⟨flags, nested, stack, root⟩ := w
  match stack with
  | [] => exact .bottom rfl
  | .object _ _ none _ :: _ => exact h
  | .object _ _ (some (_, _)) _ :: _ =>
    refine h.replace rfl fun call hopens => ?_
    cases hopens
    exact .object
  | .array _ _ _ :: _ =>
    refine h.replace rfl fun call hopens => ?_
    cases hopens
    exact .array

/-- A call opens a container in the writer as it was before the call, and does nothing to the containers
around the current slot. -/
theorem step {call : Call} (h : Opened start calls w) (hw : afterAll start calls = w)
    (hstep : Step w call w') : Opened start (calls ++ [.plain call]) w' := by
  cases hstep with
  | unchanged => exact h.later _
  | dropped => exact h.tail.later _
  | leaf => exact (h.fill _).later _
  | objectOpened free => exact .within rfl rfl .object hw free (h.later _)
  | arrayOpened free => exact .within rfl rfl .array hw free (h.later _)
  | named innermost =>
    refine (h.replace innermost fun opening hopens => ?_).later _
    cases hopens
    exact .object
  | objectClosed innermost => exact ((h.around innermost).1.fill _).later _
  | arrayClosed innermost => exact ((h.around innermost).1.fill _).later _

end Opened

/-- The containers that are open after a sequence of calls were opened by these. -/
theorem opened_afterAll (hstart : Unused start) (calls : List AnyCall) :
    Opened start calls (afterAll start calls) := by
  induction calls using List.reverseRecOn with
  | nil => exact .bottom hstart.stack_eq_nil
  | append_singleton calls call ih =>
    rw [afterAll_append_singleton]
    cases call with
    | plain call => exact ih.step rfl (call.step _)
    | built value =>
      change Opened start _ (after (write value) (afterAll start calls))
      rcases after_write (w := afterAll start calls) value with hsame | ⟨-, hfill⟩
      · rw [hsame]
        exact ih.later _
      · rw [hfill]
        exact (ih.fill value).later _

/-! ### Closing a container -/

/-- An object is closed exactly where it is the innermost container and no property of it waits. The slot
around it is always free. -/
theorem exists_endObject_iff (hopened : Opened start calls w) :
    (∃ w', endObject w = .ok () w') ↔
      ∃ members pinned outermost below, w.stack = .object members pinned none outermost :: below := by
  constructor
  · rintro ⟨w', h⟩
    unfold endObject at h
    split at h
    · rename_i members pinned pending outermost below hstack
      cases pending with
      | none => exact ⟨members, pinned, outermost, below, hstack⟩
      | some pending => cases h
    · cases h
  · rintro ⟨members, pinned, outermost, below, hstack⟩
    unfold endObject
    rw [hstack]
    exact ⟨_, write_of_free (hopened.around hstack).2 _⟩

/-- An array is closed exactly where it is the innermost container and its elements may stand in it. The
slot around it is always free. -/
theorem exists_endArray_iff (hopened : Opened start calls w) :
    (∃ w', endArray w = .ok () w') ↔
      ∃ elements asSet inArray below value, w.stack = .array elements asSet inArray :: below ∧
        closeArray asSet inArray elements = .ok value := by
  constructor
  · rintro ⟨w', h⟩
    unfold endArray at h
    split at h
    · rename_i elements asSet inArray below hstack
      dsimp only at h
      split at h
      · cases h
      · rename_i value hclose
        exact ⟨elements, asSet, inArray, below, value, hstack, hclose⟩
    · cases h
  · rintro ⟨elements, asSet, inArray, below, value, hstack, hclose⟩
    unfold endArray
    simp only [hstack, hclose]
    exact ⟨_, write_of_free (hopened.around hstack).2 _⟩

/-! ### Any failed call -/

/-- **Failed calls.** Wherever calls have led an unused writer: a call that fails leaves the writer
exactly as it was, open containers, what they hold, the waiting property and the root, unless it was to
close a container and one is open. Then the innermost container is lost and all else is as it was. So the
writer is in the state again that it was in before the call that opened this container, and waits for a
value in its place. -/
theorem failed_rewinds (hstart : Unused start) {calls : List AnyCall} {call : AnyCall}
    (h : call.run (afterAll start calls) = .error e w') :
    (w' = afterAll start calls ↔ (call.Closes → (afterAll start calls).stack = [])) ∧
      ∀ frame below, call.Closes → (afterAll start calls).stack = frame :: below →
        w' = { afterAll start calls with stack := below } ∧ w'.checkSlot = .ok () ∧
          ∃ before opening between, calls = before ++ opening :: between ∧ Opens opening frame ∧
            w' = afterAll start before := by
  have hopened := opened_afterAll hstart calls
  generalize afterAll start calls = w at h hopened ⊢
  refine ⟨⟨fun hsame hcall => ?_, fun hempty => ?_⟩, fun frame below hcall hstack => ?_⟩
  · have htail : w.stack = w.stack.tail := congrArg stack (hsame.symm.trans (call.lost_of_failed hcall h))
    cases hstack : w.stack with
    | nil => rfl
    | cons frame below =>
      rw [hstack] at htail
      exact (List.cons_ne_self frame below htail).elim
  · by_cases hcall : call.Closes
    · have hlost := call.lost_of_failed hcall h
      have hstack := hempty hcall
      rw [hstack] at hlost
      rw [hlost, List.tail_nil, ← hstack]
    · exact call.unchanged_of_failed hcall h
  · have hlost := call.lost_of_failed hcall h
    rw [hstack, List.tail_cons] at hlost
    cases hopened with
    | bottom empty => cases empty.symm.trans hstack
    | @within _ _ _ before between opening innermost cut opens state free =>
      cases innermost.symm.trans hstack
      exact ⟨hlost, hlost ▸ free, before, opening, between, cut, opens, hlost.trans state.symm⟩

/-- A set in a member that holds a text and a null. -/
def unfitCalls : List AnyCall :=
  [.plain .beginObject, .plain (.property "tags" true), .plain (.beginArray true),
    .plain (.text "b"), .plain .null]

theorem failed_rewinds_unfitCalls :
    ∃ w', endArray (afterAll (new .none) unfitCalls) =
        .error (Cause.invalidSetContents "cannot persist null in set") w' ∧
      w' ≠ afterAll (new .none) unfitCalls ∧
        w' = afterAll (new .none) [.plain .beginObject, .plain (.property "tags" true)] := by
  have hstack : (afterAll (new .none) unfitCalls).stack =
      [.array [.text "b", .null true] true false, .object [] [] (some ("tags", true)) true] := by
    decide
  have h : (AnyCall.plain .endArray).run (afterAll (new .none) unfitCalls) =
      .error (Cause.invalidSetContents "cannot persist null in set")
        (afterAll (new .none) [.plain .beginObject, .plain (.property "tags" true)]) := rfl
  obtain ⟨hsame, -⟩ := failed_rewinds (.own .none) h
  refine ⟨_, h, fun heq => ?_, rfl⟩
  cases hstack.symm.trans (hsame.mp heq trivial)

end ItemMapper.Writer
