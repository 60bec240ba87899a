import Mathlib
import ItemMapper.Proofs.Number.Order
import ItemMapper.Proofs.Values.Recursion
import ItemMapper.Proofs.Writer.Calls

/-!
# What a writer can make

Whatever calls are made in whatever order, and whichever of them fail, what a writer has finished is in
a canonical form: no text or byte string is empty, sets ascend, and nothing null or empty is left in a
list or a map, but for the fields of the outermost object that are pinned or that the flags protect.
This is seen on the open containers: each holds canonical values, only the lowest one can be the
outermost object, and an array that stands in an array knows it.

## Main definitions

* `AttributeValue.Canonical`: the canonical form of a part of a value.
* `AttributeValue.CanonicalRoot`: the canonical form of a whole value.
* `Writer.pinnedAlong`: the names that are pinned in the outermost object.
* `Writer.Sound`: the invariant.

## Main statements

* `Writer.Sound.after`: each call keeps the invariant.
* `Writer.canonical_of_finish`: what has been finished is in canonical form.
-/

namespace ItemMapper

open AttributeValue (setFrom dropVoid)

/-! ### The canonical form -/

/-- The canonical form of a part of a value. Sets of numbers ascend where all their texts denote
numbers: a text that denotes none compares with nothing. -/
inductive AttributeValue.Canonical : AttributeValue → Prop
  | null : Canonical (.null true)
  | bool (value : Bool) : Canonical (.bool value)
  | number (digits : String) : Canonical (.number digits)
  | text {value : String} (nonempty : value ≠ "") : Canonical (.text value)
  | binary {bytes : Bytes} (nonempty : bytes ≠ []) : Canonical (.binary bytes)
  | textSet {members : List String} (nonempty : members ≠ []) (distinct : members.Nodup)
      (ascending : members.Pairwise fun a b => compareText a b = .lt) : Canonical (.textSet members)
  | numberSet {members : List String} (nonempty : members ≠ []) (distinct : members.Nodup)
      (ascending : (∀ member ∈ members, IsNumber member) →
        members.Pairwise fun a b => compareNumberText a b = .lt) : Canonical (.numberSet members)
  | binarySet {members : List Bytes} (nonempty : members ≠ []) (distinct : members.Nodup)
      (ascending : members.Pairwise fun a b => compareBytes a b = .lt) : Canonical (.binarySet members)
  | list {items : List AttributeValue} (canonical : ∀ item ∈ items, Canonical item)
      (kept : ∀ item ∈ items, item.isVoid = false) (flat : ∀ item ∈ items, item.isSet = false) :
      Canonical (.list items)
  | map {fields : List (String × AttributeValue)} (canonical : ∀ field ∈ fields, Canonical field.2)
      (kept : ∀ field ∈ fields, field.2.isVoid = false) : Canonical (.map fields)

/-- The canonical form of a whole value. Where it is not made as a part of another one, its fields may
be null or empty if they are pinned or protected. -/
inductive AttributeValue.CanonicalRoot (flags : WriteFlags) (nested : Bool) (pins : List String) :
    AttributeValue → Prop
  | part {value : AttributeValue} (canonical : value.Canonical) : CanonicalRoot flags nested pins value
  | outermost {fields : List (String × AttributeValue)} (alone : nested = false)
      (canonical : ∀ field ∈ fields, field.2.Canonical)
      (nulls : ∀ field ∈ fields, field.2.isNull = true →
        field.1 ∈ pins ∨ flags.persistNullValues = true)
      (containers : ∀ field ∈ fields, field.2.isEmptyContainer = true →
        field.1 ∈ pins ∨ flags.persistEmptyObjects = true) :
      CanonicalRoot flags nested pins (.map fields)

namespace Writer

/-! ### Closed containers -/

theorem Leaf.canonical {value : AttributeValue} (h : Leaf value) : value.Canonical := by
  cases h with
  | null => exact .null
  | bool value => exact .bool value
  | number digits => exact .number digits
  | text nonempty => exact .text nonempty
  | binary nonempty => exact .binary nonempty

theorem Leaf.isSet {value : AttributeValue} (h : Leaf value) : value.isSet = false := by
  cases h <;> rfl

theorem asText?_of_family {value : AttributeValue} (h : family value = .text) :
    value.asText?.isSome = true := by
  cases value <;> first | rfl | cases h

theorem asNumber?_of_family {value : AttributeValue} (h : family value = .number) :
    value.asNumber?.isSome = true := by
  cases value <;> first | rfl | cases h

theorem asBinary?_of_family {value : AttributeValue} (h : family value = .binary) :
    value.asBinary?.isSome = true := by
  cases value <;> first | rfl | cases h

/-- What elements hold, each once and sorted, is not nothing and nothing twice. -/
theorem distinct_of_held {α : Type} [DecidableEq α] (cmp : α → α → Ordering)
    (held? : AttributeValue → Option α) {elements : List AttributeValue} (hnonempty : elements ≠ [])
    (hheld : ∀ e ∈ elements, (held? e).isSome = true) :
    sortBy cmp (dedupEq (elements.filterMap held?)) ≠ [] ∧
      (sortBy cmp (dedupEq (elements.filterMap held?))).Nodup := by
  constructor
  · obtain ⟨e, he⟩ := List.exists_mem_of_ne_nil elements hnonempty
    obtain ⟨a, ha⟩ := Option.isSome_iff_exists.mp (hheld e he)
    have hmem : a ∈ elements.filterMap held? := List.mem_filterMap.mpr ⟨e, he, ha⟩
    exact List.ne_nil_of_mem ((sortBy_perm cmp _).mem_iff.mpr (mem_dedupEq.mpr hmem))
  · exact (sortBy_perm cmp _).nodup_iff.mpr (nodup_dedupEq _)

/-- The set of canonical values is canonical. -/
theorem canonical_of_setFrom {elements : List AttributeValue} {value : AttributeValue}
    (hlist : (AttributeValue.list elements).Canonical) (h : setFrom elements = .ok value) :
    value.Canonical := by
  unfold setFrom at h
  split at h
  · cases h
    exact .list nofun nofun nofun
  · rename_i hnonempty
    split at h
    · rename_i htexts
      cases h
      obtain ⟨hne, hdistinct⟩ := distinct_of_held compareText AttributeValue.asText? hnonempty
        fun e he => asText?_of_family (htexts e he)
      exact .textSet hne hdistinct (sortBy_ascending compareText (nodup_dedupEq _))
    · split at h
      · rename_i hnumbers
        cases h
        obtain ⟨hne, hdistinct⟩ := distinct_of_held compareNumberText AttributeValue.asNumber?
          hnonempty fun e he => asNumber?_of_family (hnumbers e he)
        refine .numberSet hne hdistinct fun hall => ?_
        refine sortBy_compareNumberText_ascending (fun member hmember => hall member ?_)
          (nodup_dedupEq _)
        exact (sortBy_perm compareNumberText _).mem_iff.mpr hmember
      · split at h
        · rename_i hbytes
          cases h
          obtain ⟨hne, hdistinct⟩ := distinct_of_held compareBytes AttributeValue.asBinary? hnonempty
            fun e he => asBinary?_of_family (hbytes e he)
          exact .binarySet hne hdistinct (sortBy_ascending compareBytes (nodup_dedupEq _))
        · split at h
          · cases h
            exact hlist
          · cases h

theorem isNull_of_isEmptyContainer {value : AttributeValue} (h : value.isEmptyContainer = true) :
    value.isNull = false := by
  cases value <;> first | rfl | cases h

theorem mem_dropVoid {elements : List AttributeValue} {e : AttributeValue} :
    e ∈ dropVoid elements ↔ e ∈ elements ∧ e.isVoid = false := by
  rw [dropVoid, List.mem_filter, Bool.not_eq_true']

/-- A list keeps its elements but for those that are null or empty. -/
theorem canonical_dropVoid {elements : List AttributeValue}
    (hcanonical : ∀ e ∈ elements, e.Canonical) (hflat : ∀ e ∈ elements, e.isSet = false) :
    (AttributeValue.list (dropVoid elements)).Canonical :=
  .list (fun e he => hcanonical e (mem_dropVoid.mp he).1) (fun _ he => (mem_dropVoid.mp he).2)
    fun e he => hflat e (mem_dropVoid.mp he).1

/-- What an array becomes is canonical, and no set where it stands in another array. -/
theorem canonical_of_closeArray {asSet inArray : Bool} {elements : List AttributeValue}
    {value : AttributeValue} (hcanonical : ∀ e ∈ elements, e.Canonical)
    (hflat : ∀ e ∈ elements, e.isSet = false) (h : closeArray asSet inArray elements = .ok value) :
    value.Canonical ∧ (inArray = true → value.isSet = false) := by
  have hlist := canonical_dropVoid hcanonical hflat
  rw [closeArray_eq] at h
  split at h
  · rename_i hinfer
    rw [Bool.and_eq_true, Bool.not_eq_true'] at hinfer
    refine ⟨?_, fun harray => ?_⟩
    swap
    · rw [hinfer.2] at harray
      cases harray
    split at h
    · cases h
    · exact canonical_of_setFrom hlist h
  · cases h
    exact ⟨hlist, fun _ => rfl⟩

theorem mem_compactMembers {flags : WriteFlags} {pinned : List String} {outermost : Bool}
    {members : Item} {member : String × AttributeValue} :
    member ∈ compactMembers flags pinned outermost members ↔
      member ∈ members ∧ (outermost = true ∧ member.1 ∈ pinned ∨
        (if outermost then flags else WriteFlags.none).keeps member.2 = true) := by
  obtain ⟨name, value⟩ := member
  rw [compactMembers, List.mem_filter, Bool.or_eq_true, Bool.and_eq_true, List.contains_iff_mem]

/-- What an object becomes in another container keeps nothing null or empty. -/
theorem canonical_compactMembers {members : Item} (h : ∀ member ∈ members, member.2.Canonical)
    (flags : WriteFlags) (pinned : List String) :
    (AttributeValue.map (compactMembers flags pinned false members)).Canonical := by
  refine .map (fun member hmember => h member (mem_compactMembers.mp hmember).1)
    fun member hmember => ?_
  rcases (mem_compactMembers.mp hmember).2 with ⟨⟨⟩, -⟩ | hkept
  rwa [if_neg Bool.false_ne_true, WriteFlags.keeps_none, Bool.not_eq_true'] at hkept

/-- What the outermost object becomes keeps what is pinned, and what is null or empty where the flags
protect it. -/
theorem canonicalRoot_compactMembers {members : Item} (h : ∀ member ∈ members, member.2.Canonical)
    (flags : WriteFlags) {pinned pins : List String} (hpins : ∀ name ∈ pinned, name ∈ pins) :
    (AttributeValue.map (compactMembers flags pinned true members)).CanonicalRoot flags false pins := by
  have hkept : ∀ member ∈ compactMembers flags pinned true members,
      member.1 ∈ pins ∨ flags.keeps member.2 = true := by
    intro member hmember
    have hkept := (mem_compactMembers.mp hmember).2
    rw [if_pos rfl] at hkept
    exact hkept.imp_left fun hpinned => hpins member.1 hpinned.2
  refine .outermost rfl (fun member hmember => h member (mem_compactMembers.mp hmember).1)
    (fun member hmember hnull => ?_) fun member hmember hempty => ?_
  · refine (hkept member hmember).imp_right fun hkeeps => ?_
    rwa [WriteFlags.keeps, if_pos hnull] at hkeeps
  · refine (hkept member hmember).imp_right fun hkeeps => ?_
    have hnull := isNull_of_isEmptyContainer hempty
    rwa [WriteFlags.keeps, hnull, if_neg Bool.false_ne_true, if_pos hempty] at hkeeps

/-! ### The invariant -/

/-- The names that are pinned in the outermost object after a call: none when it is opened, and one
more when a property of it is pinned. -/
def pinnedAfter (w : Writer) (call : Call) (pins : List String) : List String :=
  match call, w.stack with
  | .beginObject, [] => if w.root.isSome then pins else []
  | .property name true, [.object _ _ none _] => name :: pins
  | _, _ => pins

/-- The names that are pinned in the outermost object along a sequence of calls. -/
def pinnedAlong (w : Writer) (pins : List String) : List Call → List String
  | [] => pins
  | call :: rest => pinnedAlong (after call.run w) (pinnedAfter w call pins) rest

/-- A name that is pinned along calls is pinned by one of them, or was before. -/
theorem property_mem_of_mem_pinnedAlong {calls : List Call} {w : Writer} {pins : List String}
    {name : String} (h : name ∈ pinnedAlong w pins calls) :
    .property name true ∈ calls ∨ name ∈ pins := by
  induction calls generalizing w pins with
  | nil => exact .inr h
  | cons call rest ih =>
    rcases ih h with hrest | hafter
    · exact .inl (List.mem_cons_of_mem call hrest)
    · unfold pinnedAfter at hafter
      split at hafter
      · split at hafter
        · exact .inr hafter
        · cases hafter
      · rcases List.mem_cons.mp hafter with rfl | hpins
        · exact .inl List.mem_cons_self
        · exact .inr hpins
      · exact .inr hafter

end Writer

/-- What holds of an open container above those below it: it holds canonical values; an object is the
outermost one only at the bottom, and what it pins is known to be pinned; an array holds no sets, and
knows whether it stands in an array. -/
inductive Frame.Sound (nested : Bool) (pins : List String) (below : List Frame) : Frame → Prop
  | object {members : Item} {pinned : List String} {pending : Option (String × Bool)}
      {outermost : Bool} (canonical : ∀ member ∈ members, member.2.Canonical)
      (bottom : outermost = true → below = [] ∧ nested = false)
      (known : outermost = true → ∀ name ∈ pinned, name ∈ pins)
      (waiting : outermost = true → ∀ name, pending = some (name, true) → name ∈ pins) :
      Sound nested pins below (.object members pinned pending outermost)
  | array {elements : List AttributeValue} {asSet inArray : Bool}
      (canonical : ∀ e ∈ elements, e.Canonical) (flat : ∀ e ∈ elements, e.isSet = false)
      (place : ∀ outer s i rest, below = .array outer s i :: rest → inArray = true) :
      Sound nested pins below (.array elements asSet inArray)

namespace Writer

/-- What holds of all open containers. -/
def StackSound (nested : Bool) (pins : List String) : List Frame → Prop
  | [] => True
  | frame :: below => frame.Sound nested pins below ∧ StackSound nested pins below

/-- The invariant: the open containers and the root are sound. -/
structure Sound (pins : List String) (w : Writer) : Prop where
  stack : StackSound w.nested pins w.stack
  root : ∀ value, w.root = some value → value.CanonicalRoot w.flags w.nested pins

/-! ### More names are pinned -/

section
variable {flags : WriteFlags} {nested : Bool} {pins more : List String} {w w' : Writer}

theorem StackSound.mono (hsub : pins ⊆ more) {stack : List Frame} (h : StackSound nested pins stack) :
    StackSound nested more stack := by
  induction stack with
  | nil => trivial
  | cons frame below ih =>
    refine ⟨?_, ih h.2⟩
    cases h.1 with
    | object canonical bottom known waiting =>
      exact .object canonical bottom (fun hout name hname => hsub (known hout name hname))
        fun hout name hname => hsub (waiting hout name hname)
    | array canonical flat place => exact .array canonical flat place

theorem canonicalRoot_mono (hsub : pins ⊆ more) {value : AttributeValue}
    (h : value.CanonicalRoot flags nested pins) : value.CanonicalRoot flags nested more := by
  cases h with
  | part canonical => exact .part canonical
  | outermost alone canonical nulls containers =>
    exact .outermost alone canonical
      (fun field hfield hnull => (nulls field hfield hnull).imp_left fun hpin => hsub hpin)
      fun field hfield hempty => (containers field hfield hempty).imp_left fun hpin => hsub hpin

theorem Sound.mono (hsub : pins ⊆ more) (h : Sound pins w) : Sound more w :=
  ⟨h.stack.mono hsub, fun value hvalue => canonicalRoot_mono hsub (h.root value hvalue)⟩

/-- The names are forgotten only where no container is open and nothing has been written. -/
theorem Sound.pinnedAfter (h : Sound pins w) (call : Call) : Sound (pinnedAfter w call pins) w := by
  unfold Writer.pinnedAfter
  split
  · rename_i hstack
    split
    · exact h
    · rename_i hroot
      refine ⟨?_, fun value hvalue => ?_⟩
      · rw [hstack]
        trivial
      · rw [hvalue] at hroot
        exact absurd rfl hroot
  · exact h.mono (List.subset_cons_self _ _)
  · exact h

/-! ### Calls keep the invariant -/

theorem Sound.tail (h : Sound pins w) : Sound pins { w with stack := w.stack.tail } := by
  refine ⟨?_, h.root⟩
  have hstack := h.stack
  cases hframes : w.stack with
  | nil => trivial
  | cons frame below =>
    rw [hframes] at hstack
    exact hstack.2

/-- A canonical value may be put into a free slot, no set into an array. -/
theorem Sound.filled {value : AttributeValue} (h : Sound pins w) (hfilled : Filled value w w')
    (hcanonical : value.Canonical) (hflat : w.isInArray = true → value.isSet = false) :
    Sound pins w' := by
  obtain ⟨hstack, hroot⟩ := h
  cases hfilled with
  | root =>
    refine ⟨trivial, fun written hwritten => ?_⟩
    cases hwritten
    exact .part hcanonical
  | @property flags nested members pinned name pin outermost below root =>
    obtain ⟨hframe, hbelow⟩ := hstack
    cases hframe with
    | object canonical bottom known waiting =>
      refine ⟨⟨.object (fun member hmember => ?_) bottom (fun hout other hother => ?_) nofun, hbelow⟩,
        hroot⟩
      · rcases Fields.mem_insert_key hmember with rfl | hmember
        · exact hcanonical
        · exact canonical member hmember
      · cases pin with
        | false => exact known hout other hother
        | true =>
          rcases List.mem_cons.mp hother with rfl | hother
          · exact waiting hout _ rfl
          · exact known hout other hother
  | element =>
    obtain ⟨hframe, hbelow⟩ := hstack
    cases hframe with
    | array canonical flat place =>
      refine ⟨⟨.array (fun e he => ?_) (fun e he => ?_) place, hbelow⟩, hroot⟩
      · rcases List.mem_append.mp he with he | he
        · exact canonical e he
        · exact List.mem_singleton.mp he ▸ hcanonical
      · rcases List.mem_append.mp he with he | he
        · exact flat e he
        · exact List.mem_singleton.mp he ▸ hflat rfl

/-- An object is closed: the outermost one becomes the root, and every other one is put into the
container around it. -/
theorem Sound.objectClosed {members : Item} {pinned : List String} {outermost : Bool}
    {below : List Frame} (h : Sound pins w)
    (hstack : w.stack = .object members pinned none outermost :: below)
    (hfree : { w with stack := below }.checkSlot = .ok ()) :
    Sound pins ({ w with stack := below }.fill
      (.map (compactMembers w.flags pinned outermost members))) := by
  have htail : below = w.stack.tail := by rw [hstack, List.tail_cons]
  have hbelow : Sound pins { w with stack := below } := htail ▸ h.tail
  have hframe : (Frame.object members pinned none outermost).Sound w.nested pins below :=
    (hstack ▸ h.stack).1
  cases hframe with
  | object canonical bottom known waiting =>
    cases outermost with
    | false =>
      exact hbelow.filled (filled_fill hfree _) (canonical_compactMembers canonical w.flags pinned)
        fun _ => rfl
    | true =>
      obtain ⟨rfl, hnested⟩ := bottom rfl
      refine ⟨trivial, fun value hvalue => ?_⟩
      cases hvalue
      exact hnested ▸ canonicalRoot_compactMembers canonical w.flags (known rfl)

/-- An array is closed and put into the slot around it. -/
theorem Sound.arrayClosed {elements : List AttributeValue} {asSet inArray : Bool}
    {below : List Frame} {value : AttributeValue} (h : Sound pins w)
    (hstack : w.stack = .array elements asSet inArray :: below)
    (hclosed : closeArray asSet inArray elements = .ok value)
    (hfree : { w with stack := below }.checkSlot = .ok ()) :
    Sound pins ({ w with stack := below }.fill value) := by
  have htail : below = w.stack.tail := by rw [hstack, List.tail_cons]
  have hbelow : Sound pins { w with stack := below } := htail ▸ h.tail
  have hframe : (Frame.array elements asSet inArray).Sound w.nested pins below :=
    (hstack ▸ h.stack).1
  cases hframe with
  | array canonical flat place =>
    obtain ⟨hcanonical, hset⟩ := canonical_of_closeArray canonical flat hclosed
    refine hbelow.filled (filled_fill hfree value) hcanonical fun harray => hset ?_
    change isInArray { w with stack := below } = true at harray
    unfold isInArray at harray
    split at harray
    · rename_i hstack'
      exact place _ _ _ _ hstack'
    · cases harray

/-- Each call keeps the invariant, whether it succeeds or fails. -/
theorem Sound.after (h : Sound pins w) (call : Call) :
    Sound (Writer.pinnedAfter w call pins) (ItemMapper.after call.run w) := by
  have hknown := h.pinnedAfter call
  have hstep := call.step w
  generalize ItemMapper.after call.run w = w' at hstep ⊢
  cases hstep with
  | unchanged => exact hknown
  | dropped => exact hknown.tail
  | leaf free hleaf => exact hknown.filled (filled_fill free _) hleaf.canonical fun _ => hleaf.isSet
  | objectOpened free =>
    refine ⟨⟨.object nofun (fun hout => ?_) nofun nofun, hknown.stack⟩, hknown.root⟩
    rw [Bool.and_eq_true, List.isEmpty_iff, Bool.not_eq_true'] at hout
    exact hout
  | @named members pinned outermost below name pin hstack =>
    obtain ⟨hframes, hroot⟩ := hknown
    rw [hstack] at hframes
    obtain ⟨hframe, hbelow⟩ := hframes
    cases hframe with
    | object canonical bottom known waiting =>
      refine ⟨⟨.object canonical bottom known fun hout waits hwaits => ?_, hbelow⟩, hroot⟩
      cases hwaits
      obtain ⟨rfl, -⟩ := bottom hout
      have hpins : Writer.pinnedAfter w (.property name true) pins = name :: pins := by
        simp only [Writer.pinnedAfter, hstack]
      exact hpins ▸ List.mem_cons_self
  | objectClosed hstack hfree => exact hknown.objectClosed hstack hfree
  | arrayOpened free =>
    refine ⟨⟨.array nofun nofun fun outer s i rest hstack => ?_, hknown.stack⟩, hknown.root⟩
    unfold isInArray
    rw [hstack]
  | arrayClosed hstack hclosed hfree => exact hknown.arrayClosed hstack hclosed hfree

/-- So does every sequence of calls. -/
theorem Sound.afterCalls (h : Sound pins w) (calls : List Call) :
    Sound (pinnedAlong w pins calls) (Writer.afterCalls w calls) := by
  induction calls generalizing w pins with
  | nil => exact h
  | cons call rest ih => exact ih (h.after call)

end

/-- What has been finished after any sequence of calls is in canonical form. -/
theorem canonical_of_finish (flags : WriteFlags) (nested : Bool) (calls : List Call)
    (value : AttributeValue)
    (h : (afterCalls ⟨flags, nested, [], none⟩ calls).finish = .ok (some value)) :
    value.CanonicalRoot flags nested (pinnedAlong ⟨flags, nested, [], none⟩ [] calls) := by
  have hstart : Sound [] (⟨flags, nested, [], none⟩ : Writer) := ⟨trivial, nofun⟩
  have hend := hstart.afterCalls calls
  obtain ⟨hflags, hnested⟩ := afterCalls_settings ⟨flags, nested, [], none⟩ calls
  generalize afterCalls ⟨flags, nested, [], none⟩ calls = w at h hend hflags hnested
  have hroot : w.root = some value := by
    rw [finish] at h
    split at h
    · exact (Option.filter_eq_some_iff.mp (Except.ok.inj h)).1
    · cases h
  cases hflags
  cases hnested
  exact hend.root value hroot

/-- Calls that give an object up and write another one, of which one property is pinned; the third and
fourth calls fail, and so does the number without a property. -/
def sampleCalls : List Call :=
  [.beginObject, .property "lost" true, .endArray, .endObject, .beginObject, .property "none" true,
    .text "", .number "1", .property "tags" false, .beginArray true, .text "b", .text "a",
    .text "b", .beginArray true, .text "", .endArray, .endArray, .property "gone" false, .null,
    .endObject]

theorem canonical_of_finish_sampleCalls :
    (afterCalls ⟨.none, false, [], none⟩ sampleCalls).finish =
        .ok (some (.map [("none", .null true), ("tags", .textSet ["a", "b"])])) ∧
      (AttributeValue.map [("none", .null true), ("tags", .textSet ["a", "b"])]).CanonicalRoot
        .none false ["none"] := by
  have hfinish : (afterCalls ⟨.none, false, [], none⟩ sampleCalls).finish =
      .ok (some (.map [("none", .null true), ("tags", .textSet ["a", "b"])])) := by cbv
  have hpins : pinnedAlong ⟨.none, false, [], none⟩ [] sampleCalls = ["none"] := by cbv
  have hcanonical := canonical_of_finish .none false sampleCalls _ hfinish
  rw [hpins] at hcanonical
  exact ⟨hfinish, hcanonical⟩

end Writer

end ItemMapper
