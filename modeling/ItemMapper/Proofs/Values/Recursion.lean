import Mathlib
import ItemMapper.Proofs.Codec.Vanishing
import ItemMapper.Proofs.Writer.Slots
import ItemMapper.Value.Encoding

/-!
# Writing dynamic values is a recursion

The writer builds a value frame by frame. What it builds is also given by a recursion on the dynamic
value, in which no frames occur: the pieces of the items of a list without those that are null or
empty, the set of the pieces of a set's members, the pieces of a map's fields that the map keeps.
Writing fills one slot with the piece and touches nothing else, or fails where the piece has an error,
and with the same one.

## Main definitions

* `AttributeValue.setFrom`: the set of some scalars.
* `Value.piece`: what a dynamic value is stored as.

## Main statements

* `Value.outcome_write`: a dynamic value fills a free slot with its piece.
* `Value.write_and_encode`: this for every state of a writer, and what it means at the root.
-/

namespace ItemMapper

open Writer (family)

/-! ### Sets -/

/-- The set of values, each once and in ascending order: of texts, of numbers or of byte strings.
Values none of which is one of these stay a list, as no values do; others have no set. -/
def AttributeValue.setFrom (elements : List AttributeValue) : Except Error AttributeValue :=
  if elements = [] then .ok (.list [])
  else if ∀ e ∈ elements, family e = .text then
    .ok (.textSet (sortBy compareText (dedupEq (elements.filterMap asText?))))
  else if ∀ e ∈ elements, family e = .number then
    .ok (.numberSet (sortBy compareNumberText (dedupEq (elements.filterMap asNumber?))))
  else if ∀ e ∈ elements, family e = .binary then
    .ok (.binarySet (sortBy compareBytes (dedupEq (elements.filterMap asBinary?))))
  else if ∀ e ∈ elements, family e = .other then .ok (.list elements)
  else .error (Cause.invalidSetContents "cannot persist mixed-type set")

/-- The values that a list or a set keeps. -/
def AttributeValue.dropVoid (elements : List AttributeValue) : List AttributeValue :=
  elements.filter fun e => !e.isVoid

namespace Writer

theorem inferSet_eq_setFrom (elements : List AttributeValue) :
    inferSet elements = AttributeValue.setFrom elements := by
  cases elements with
  | nil => rfl
  | cons first rest =>
    rw [inferSet, AttributeValue.setFrom, if_neg (List.cons_ne_nil first rest)]
    by_cases hsame : ∀ e ∈ first :: rest, family e = family first
    · have hnone : ¬ ((first :: rest).any fun e => decide (family e ≠ family first)) = true := by
        rw [List.any_eq_true]
        rintro ⟨e, he, hne⟩
        exact of_decide_eq_true hne (hsame e he)
      have hother : ∀ kind : Family, family first ≠ kind →
          ¬ ∀ e ∈ first :: rest, family e = kind := fun kind hne hall =>
        hne (hall first List.mem_cons_self)
      rw [if_neg hnone]
      cases hkind : family first with
      | text =>
        rw [hkind] at hsame
        rw [if_pos hsame]
      | number =>
        rw [hkind] at hsame hother
        rw [if_neg (hother .text (by decide)), if_pos hsame]
      | binary =>
        rw [hkind] at hsame hother
        rw [if_neg (hother .text (by decide)), if_neg (hother .number (by decide)), if_pos hsame]
      | other =>
        rw [hkind] at hsame hother
        rw [if_neg (hother .text (by decide)), if_neg (hother .number (by decide)),
          if_neg (hother .binary (by decide)), if_pos hsame]
    · have hmixed : ((first :: rest).any fun e => decide (family e ≠ family first)) = true := by
        rw [List.any_eq_true]
        obtain ⟨e, he, hne⟩ := not_forall₂.mp hsame
        exact ⟨e, he, decide_eq_true hne⟩
      have hother : ∀ kind : Family, ¬ ∀ e ∈ first :: rest, family e = kind := fun kind hall =>
        hsame fun e he => (hall e he).trans (hall first List.mem_cons_self).symm
      rw [if_pos hmixed, if_neg (hother .text), if_neg (hother .number), if_neg (hother .binary),
        if_neg (hother .other)]

/-- What an array becomes: a list, or a set where it is marked as one and stands in no other array. -/
theorem closeArray_eq (asSet inArray : Bool) (elements : List AttributeValue) :
    closeArray asSet inArray elements =
      if asSet && !inArray then
        if elements.any (·.isNull) then
          .error (Cause.invalidSetContents "cannot persist null in set")
        else AttributeValue.setFrom (AttributeValue.dropVoid elements)
      else .ok (.list (AttributeValue.dropVoid elements)) := by
  unfold closeArray AttributeValue.dropVoid
  simp only [filter_keeps, inferSet_eq_setFrom]

end Writer

/-! ### The recursion -/

namespace Value

open AttributeValue (setFrom dropVoid)

mutual
/-- What a dynamic value is stored as, directly in a list or set or elsewhere. The flags say which
null and empty fields are kept where it is a map; maps within it keep none. -/
def piece (options : CodecOptions) (flags : WriteFlags) (inArray : Bool) :
    Value → Except Error AttributeValue
  | .null => .ok (.null true)
  | .bool value => .ok (.bool value)
  | .int value => .ok (.number (toString value))
  | .float value =>
    let digits := value.print Floating.double
    if value.isFinite then .ok (.number digits) else .error (Cause.invalidNumber digits "N")
  | .number digits => .ok (.number digits)
  | .text value => .ok (if value = "" then .null true else .text value)
  | .binary bytes => .ok (if bytes = [] then .null true else .binary bytes)
  | .list items => do
    let pieces ← itemPieces options 0 items
    .ok (.list (dropVoid pieces))
  | .set members => do
    let pieces ← itemPieces options 0 members
    if inArray then .ok (.list (dropVoid pieces))
    else if pieces.any (·.isNull) then
      .error (Cause.invalidSetContents "cannot persist null in set")
    else setFrom (dropVoid pieces)
  | .map fields => do
    let pieces ← fieldPieces options fields
    .ok (.map ((Fields.ofList pieces).filter fun field => flags.keeps field.2))
  | .enumeration value =>
    match value.type.stored options value.number with
    | .name name => .ok (if name = "" then .null true else .text name)
    | .number ordinal => .ok (.number (toString ordinal))
  | .stored value => .ok value

/-- What the items of a list are stored as, the first of which has the given position. -/
def itemPieces (options : CodecOptions) (position : Nat) :
    List Value → Except Error (List AttributeValue)
  | [] => .ok []
  | item :: rest => do
    let first ← (piece options .none true item).mapError (·.within (.index position))
    let others ← itemPieces options (position + 1) rest
    .ok (first :: others)

/-- What the fields of a map are stored as. -/
def fieldPieces (options : CodecOptions) :
    List (String × Value) → Except Error (List (String × AttributeValue))
  | [] => .ok []
  | (key, value) :: rest => do
    let first ← (piece options .none false value).mapError (·.within (.field key))
    let others ← fieldPieces options rest
    .ok ((key, first) :: others)
end

/-! ### Writing -/

theorem outcome_writeText {w : Writer} (h : w.checkSlot = .ok ()) (value : String) :
    Writer.outcome (Writer.writeText value) w =
      .ok (w.fill (if value = "" then .null true else .text value)) := by
  rw [Writer.writeText_eq, Writer.outcome_write h, textPiece]
  simp only [String.isEmpty_iff]

mutual
/-- A dynamic value fills a free slot with its piece, whatever the stack below holds. -/
theorem outcome_write (options : CodecOptions) (value : Value) {w : Writer}
    (h : w.checkSlot = .ok ()) :
    Writer.outcome (value.write options) w =
      (value.piece options w.outerFlags w.isInArray).map w.fill := by
  match value with
  | .null | .bool _ | .int _ | .number _ | .stored _ => exact Writer.outcome_write h _
  | .float x =>
    rw [write, piece]
    cases hfinite : x.isFinite with
    | true =>
      have hwrite : Writer.writeFloat Floating.double x w =
          Writer.write (.number (x.print Floating.double)) w := by
        rw [Writer.writeFloat, hfinite]
        rfl
      rw [Writer.outcome, hwrite]
      exact Writer.outcome_write h _
    | false =>
      refine Writer.outcome_eq_error.mpr ⟨w, ?_⟩
      rw [Writer.writeFloat, hfinite]
      rfl
  | .text s => exact outcome_writeText h s
  | .binary bytes =>
    rw [write, Writer.writeBinary_eq, Writer.outcome_write h, bytesPiece, piece]
    simp only [List.isEmpty_iff, Except.map]
  | .list items =>
    have hitems := outcome_writeItems options 0 items w false w.isInArray []
    rw [write, piece, Writer.outcome_array h hitems]
    refine congrArg (Except.map w.fill) (bind_congr fun pieces => ?_)
    rw [Writer.closeArray_eq, Bool.false_and, if_neg Bool.false_ne_true]
  | .set members =>
    have hmembers := outcome_writeItems options 0 members w true w.isInArray []
    rw [write, piece, Writer.outcome_array h hmembers]
    refine congrArg (Except.map w.fill) (bind_congr fun pieces => ?_)
    rw [Writer.closeArray_eq, Bool.true_and]
    cases w.isInArray with
    | true => rfl
    | false => rfl
  | .map fields =>
    have hfields := outcome_writeFields options fields w (w.stack.isEmpty && !w.nested) []
    rw [write, piece]
    have hmembers : Writer.outcome (writeFields options fields)
        (w.withObject (w.stack.isEmpty && !w.nested) [] []) =
          ((fieldPieces options fields).map Fields.ofList).map fun members =>
            w.withObject (w.stack.isEmpty && !w.nested) members [] := by
      rw [hfields]
      cases fieldPieces options fields with
      | error e => rfl
      | ok pieces => rfl
    rw [Writer.outcome_object h hmembers]
    cases fieldPieces options fields with
    | error e => rfl
    | ok pieces => rfl
  | .enumeration value =>
    rw [write, EnumValue.write, EnumType.write, piece]
    cases value.type.stored options value.number with
    | name text => exact outcome_writeText h text
    | number number => exact Writer.outcome_write h _

/-- The items of a list add their pieces to the open array. -/
theorem outcome_writeItems (options : CodecOptions) (position : Nat) (items : List Value)
    (w : Writer) (asSet inArray : Bool) (elements : List AttributeValue) :
    Writer.outcome (writeItems options position items) (w.withArray asSet inArray elements) =
      (itemPieces options position items).map fun pieces =>
        w.withArray asSet inArray (elements ++ pieces) := by
  match items with
  | [] =>
    rw [writeItems, itemPieces, Writer.outcome_pure, Except.map, List.append_nil]
  | item :: rest =>
    have hfree : (w.withArray asSet inArray elements).checkSlot = .ok () := rfl
    have hitem := outcome_write options item hfree
    have hrest := outcome_writeItems options (position + 1) rest w asSet inArray
    rw [writeItems, itemPieces, Writer.outcome_bind, Writer.outcome_inside, hitem]
    change Except.mapError _ (Except.map _ (piece options .none true item)) >>= _ = _
    cases piece options .none true item with
    | error e => rfl
    | ok first =>
      change Writer.outcome (writeItems options (position + 1) rest)
        (w.withArray asSet inArray (elements ++ [first])) = _
      rw [hrest]
      cases itemPieces options (position + 1) rest with
      | error e => rfl
      | ok others =>
        rw [Except.map, List.append_assoc]
        rfl

/-- The fields of a map add their pieces to the open object. -/
theorem outcome_writeFields (options : CodecOptions) (fields : List (String × Value))
    (w : Writer) (outermost : Bool) (members : Item) :
    Writer.outcome (writeFields options fields) (w.withObject outermost members []) =
      (fieldPieces options fields).map fun pieces =>
        w.withObject outermost (members.insertAll pieces) [] := by
  match fields with
  | [] => rfl
  | (key, value) :: rest =>
    have hfree : (w.withProperty outermost members [] key false).checkSlot = .ok () := rfl
    have hvalue := outcome_write options value hfree
    have hrest := outcome_writeFields options rest w outermost
    rw [writeFields, fieldPieces, Writer.outcome_bind]
    change Writer.outcome (do
        Writer.inside (.field key) (write options value)
        writeFields options rest) (w.withProperty outermost members [] key false) = _
    rw [Writer.outcome_bind, Writer.outcome_inside, hvalue]
    change Except.mapError _ (Except.map _ (piece options .none false value)) >>= _ = _
    cases piece options .none false value with
    | error e => rfl
    | ok first =>
      change Writer.outcome (writeFields options rest)
        (w.withObject outermost (members.insert key first) []) = _
      rw [hrest]
      cases fieldPieces options rest with
      | error e => rfl
      | ok others => rfl
end

/-- Alone, a dynamic value becomes its piece, if the flags keep it. -/
theorem encode_eq_piece (options : CodecOptions) (flags : WriteFlags) (value : Value) :
    value.encode options flags =
      (value.piece options flags false).map fun piece =>
        if flags.keeps piece then some piece else none := by
  have hwrite : Writer.outcome (value.write options) (Writer.new flags) =
      (value.piece options flags false).map (Writer.new flags).fill := outcome_write options value rfl
  rw [encode, Writer.run_eq_outcome, hwrite]
  cases value.piece options flags false with
  | error e => rfl
  | ok piece => exact congrArg Except.ok (Option.filter_some ..)

/-- Writing a dynamic value in any state with a free slot is the recursion: the slot is filled once,
with the piece, and nothing else is touched, or writing fails as the recursion does. Alone, a value
becomes its piece, if the flags keep it. -/
theorem write_and_encode (options : CodecOptions) (value : Value) :
    (∀ w : Writer, w.checkSlot = .ok () →
      (∀ piece, value.piece options w.outerFlags w.isInArray = .ok piece →
        ∃ w', value.write options w = .ok () w' ∧ Writer.Filled piece w w') ∧
      ∀ e, value.piece options w.outerFlags w.isInArray = .error e →
        ∃ w', value.write options w = .error e w') ∧
      ∀ flags, value.encode options flags =
        (value.piece options flags false).map fun piece =>
          if flags.keeps piece then some piece else none := by
  refine ⟨fun w h => ⟨fun piece hpiece => ?_, fun e herror => ?_⟩, fun flags => ?_⟩
  · have hwrite := outcome_write options value h
    rw [hpiece] at hwrite
    exact ⟨w.fill piece, Writer.outcome_eq_ok.mp hwrite, Writer.filled_fill h piece⟩
  · have hwrite := outcome_write options value h
    rw [herror] at hwrite
    exact Writer.outcome_eq_error.mp hwrite
  · exact encode_eq_piece options flags value

/-- A map with a set, an empty list, and a list of which half is dropped. -/
def sampleTree : Value :=
  .map [("tags", .set [.text "b", .text "a", .text "b"]), ("none", .list []),
    ("items", .list [.set [.int 1, .text ""], .map [("gone", .null)], .text "x"])]

/-- What it is stored as inside another value. -/
def sampleTreePiece : AttributeValue :=
  .map [("items", .list [.list [.number "1"], .text "x"]), ("tags", .textSet ["a", "b"])]

/-- A writer inside a list inside the outermost object, in which a property waits. -/
def sampleWriter : Writer :=
  ⟨.all, false,
    [.object [("a", .bool true)] ["a"] (some ("slot", true)) false,
      .array [.null true] true false, .object [] [] (some ("outer", false)) true], none⟩

theorem write_and_encode_sampleTree :
    sampleWriter.checkSlot = .ok () ∧
      (∃ w', sampleTree.write CodecOptions.initial sampleWriter = .ok () w' ∧
        Writer.Filled sampleTreePiece sampleWriter w') ∧
      sampleTree.encode CodecOptions.initial ⟨true, false⟩ = .ok (some sampleTreePiece) := by
  have hpiece : sampleTree.piece CodecOptions.initial sampleWriter.outerFlags
      sampleWriter.isInArray = .ok sampleTreePiece := by cbv
  obtain ⟨hslot, hroot⟩ := write_and_encode CodecOptions.initial sampleTree
  refine ⟨rfl, (hslot sampleWriter rfl).1 _ hpiece, ?_⟩
  rw [hroot]
  cbv

end Value

end ItemMapper
