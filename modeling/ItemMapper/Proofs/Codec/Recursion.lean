import ItemMapper.Proofs.Codec.Pieces
import ItemMapper.Proofs.Values.Recursion
import ItemMapper.Proofs.Writer.Calls

/-!
# Writing values of types is a recursion

What the writer builds of a value of a declared type, frame by frame, is also given by a recursion on the
value: the pieces of items make a list or a set, those of entries and members an object. The piece depends
on where it goes only in two ways. A set that stands in an array stays a list, and an object that is the
outermost one keeps what the flags and its pinned members ask for. Writing fills one slot with the piece,
or fails where the piece has an error and with the same one. What converters and hooks do is up to the
application; each call of a converter is to put one value into its slot that depends on no more than this.

## Main definitions

* `Writer.outermost?`: what the outermost object keeps, where the slot is that of the outermost object.
* `Writer.Yields`: a call that puts a result into its slot which depends on the kind of slot only.
* `Writer.capture`: the result of a call in a slot of a kind.
* `Codec.ConvertersYield`: converters of which each call yields a result.
* `Codec.piece`: what a value of a type is stored as.

## Main statements

* `Writer.Yields.of_capture`: the result of a call is what it puts into a slot of the kind.
* `Codec.yields_write`: a value of any type fills a free slot with its piece.
* `Codec.encodeWith_eq_piece`: alone, a value becomes its piece.
-/

namespace ItemMapper

namespace Writer

variable {w : Writer} {call : WriterM Unit} {outer : Option WriteFlags} {inArray : Bool}
  {result : Option WriteFlags → Bool → Except Error AttributeValue}

/-! ### Kinds of slots -/

/-- What an object keeps that is opened now, if it is the outermost one. -/
def outermost? (w : Writer) : Option WriteFlags :=
  if w.stack.isEmpty && !w.nested then some w.flags else none

theorem outerFlags_eq (w : Writer) : w.outerFlags = w.outermost?.getD .none := by
  unfold outerFlags outermost?
  split <;> rfl

/-- What an object keeps of its members when it is closed. -/
def keptMembers (outer : Option WriteFlags) (pinned : List String) (members : Item) : Item :=
  compactMembers (outer.getD .none) pinned outer.isSome members

theorem compactMembers_eq (w : Writer) (pinned : List String) (members : Item) :
    compactMembers w.flags pinned (w.stack.isEmpty && !w.nested) members =
      keptMembers w.outermost? pinned members := by
  unfold keptMembers outermost?
  cases w.stack.isEmpty && !w.nested <;> rfl

/-- A call that puts a result into its slot, or fails with it. The result depends on nothing but whether
the slot is that of the outermost object and whether it is in an array. -/
def Yields (call : WriterM Unit)
    (result : Option WriteFlags → Bool → Except Error AttributeValue) : Prop :=
  ∀ w : Writer, w.checkSlot = .ok () →
    outcome call w = (result w.outermost? w.isInArray).map w.fill

theorem yields_write (value : AttributeValue) : Yields (write value) fun _ _ => .ok value :=
  fun _ h => outcome_write h value

theorem yields_refusal (e : Error) : Yields (fun w => .error e w) fun _ _ => .error e :=
  fun _ _ => rfl

theorem yields_of_writesLeaf (h : WritesLeaf call) : ∃ result, Yields call result := by
  cases h with
  | leaf _ => exact ⟨_, yields_write _⟩
  | refusal e => exact ⟨_, yields_refusal e⟩

/-- A writer with a free slot of a kind. -/
def probe (outer : Option WriteFlags) (inArray : Bool) : Writer :=
  if inArray then forPart.withArray false false []
  else
    match outer with
    | some flags => new flags
    | none => forPart

/-- What has been put into the slot of such a writer. -/
def probed? (w : Writer) : Option AttributeValue :=
  match w.stack with
  | .array elements _ _ :: _ => elements.getLast?
  | _ => w.root

/-- What a call puts into a slot of a kind. -/
def capture (call : WriterM Unit) (outer : Option WriteFlags) (inArray : Bool) :
    Except Error AttributeValue :=
  (outcome call (probe outer inArray)).map fun w => w.probed?.getD (.null true)

theorem checkSlot_probe : (probe outer inArray).checkSlot = .ok () := by
  unfold probe
  cases inArray <;> cases outer <;> rfl

theorem probed?_fill (value : AttributeValue) :
    ((probe outer inArray).fill value).probed? = some value := by
  unfold probe
  cases inArray <;> cases outer <;> rfl

/-- In an array no slot is that of the outermost object. -/
theorem outermost?_of_isInArray (h : w.isInArray = true) : w.outermost? = none := by
  obtain ⟨flags, nested, stack, root⟩ := w
  cases stack with
  | nil => cases h
  | cons frame rest => rfl

theorem probe_kind (w : Writer) :
    (probe w.outermost? w.isInArray).outermost? = w.outermost? ∧
      (probe w.outermost? w.isInArray).isInArray = w.isInArray := by
  cases harray : w.isInArray with
  | true =>
    rw [outermost?_of_isInArray harray]
    exact ⟨rfl, rfl⟩
  | false => cases w.outermost? <;> exact ⟨rfl, rfl⟩

/-- The result of a call is what it puts into a slot of the kind. -/
theorem Yields.of_capture (h : Yields call result) : Yields call (capture call) := by
  intro w hfree
  have hprobe : capture call w.outermost? w.isInArray = result w.outermost? w.isInArray := by
    obtain ⟨houter, harray⟩ := probe_kind w
    rw [capture, h _ checkSlot_probe, houter, harray]
    cases result w.outermost? w.isInArray with
    | error e => rfl
    | ok value => exact congrArg (Except.ok ∘ (Option.getD · _)) (probed?_fill value)
  rw [hprobe]
  exact h w hfree

/-! ### Results of calls -/

/-- What a call that yields a result writes as a part of another value. -/
theorem Yields.run_forPart (h : Yields call result) :
    forPart.run call = (result none false).map some := by
  have hcall : outcome call forPart = (result none false).map forPart.fill := h forPart rfl
  rw [run_eq_outcome, hcall]
  cases result none false with
  | error e => rfl
  | ok value => exact congrArg Except.ok (Option.filter_some_pos (WriteFlags.keeps_all value))

/-- What a call that yields a result writes alone. -/
theorem Yields.run_new (h : Yields call result) (flags : WriteFlags) :
    (new flags).run call =
      (result (some flags) false).map fun value => if flags.keeps value then some value else none := by
  have hcall : outcome call (new flags) = (result (some flags) false).map (new flags).fill :=
    h (new flags) rfl
  rw [run_eq_outcome, hcall]
  cases result (some flags) false with
  | error e => rfl
  | ok value => exact congrArg Except.ok (Option.filter_some ..)

/-- An array fills its slot with what becomes of the elements that are written into it. -/
theorem Yields.array {asSet : Bool} {calls : WriterM Unit}
    {elements : Except Error (List AttributeValue)}
    (h : ∀ w : Writer, ∀ inArray, outcome calls (w.withArray asSet inArray []) =
      elements.map (w.withArray asSet inArray)) :
    Yields (do beginArray asSet; calls; endArray) fun _ inArray =>
      elements >>= closeArray asSet inArray :=
  fun w hfree => outcome_array hfree (h w w.isInArray)

/-- An object fills its slot with what it keeps of the members that are written into it. -/
theorem Yields.object {α : Type} {calls : WriterM Unit} {members : Except Error α}
    {item : α → Item} {pinned : α → List String}
    (h : ∀ w : Writer, ∀ outermost, outcome calls (w.withObject outermost [] []) =
      members.map fun members => w.withObject outermost (item members) (pinned members)) :
    Yields (do beginObject; calls; endObject) fun outer _ =>
      members.map fun members => .map (keptMembers outer (pinned members) (item members)) := by
  intro w hfree
  have hopen : outcome beginObject w =
      .ok (w.withObject (w.stack.isEmpty && !w.nested) [] []) :=
    outcome_eq_ok.mpr (beginObject_of_free hfree)
  rw [outcome_bind, hopen]
  change outcome (do calls; endObject) _ = _
  rw [outcome_bind, h]
  cases members with
  | error e => rfl
  | ok members =>
    have hclose := outcome_eq_ok.mpr (endObject_withObject hfree
      (w.stack.isEmpty && !w.nested) (item members) (pinned members))
    rw [compactMembers_eq] at hclose
    exact hclose

end Writer

namespace Codec

open Writer (keptMembers closeArray)

variable {c : Codec}

/-! ### The recursion -/

/-- What a document becomes: its discriminator, if it has one, and the pieces of its members. -/
def documentPiece (c : Codec) (outer : Option WriteFlags) (discriminator : Option String)
    (pieces : List (Field × AttributeValue)) : AttributeValue :=
  .map <| keptMembers outer
    (c.pinnedBy (discriminator.toList.map fun _ => c.options.typeDiscriminator) pieces)
    (Fields.ofList (c.tag discriminator ++ c.named pieces))

mutual
/-- What a value of a type is stored as, in the slot of the outermost object or elsewhere, directly in an
array or elsewhere. -/
def piece (c : Codec) (outer : Option WriteFlags) (inArray : Bool) :
    Ty → Datum → Except Error AttributeValue
  | .option _, .absent => .ok (.null true)
  | .option inner, .present value => piece c outer inArray inner value
  | .boxed inner, .boxed value => piece c outer inArray inner value
  | .enumeration type, .enumeration number => .ok (type.piece c.options number)
  | .list inner, .list items => itemPieces c inner 0 items >>= closeArray false inArray
  | .set _ inner, .list items => itemPieces c inner 0 items >>= closeArray true inArray
  | .map _ inner, .map entries =>
    (entryPieces c inner entries).map fun pieces => .map (keptMembers outer [] (Fields.ofList pieces))
  | .document id, .document members => do
    (c.documents id).check
    (memberPieces c (c.documents id).fields members).map (c.documentPiece outer none)
  | .oneOf name variants, .variant variant members =>
    match variants.lookup variant with
    | some id => do
      (c.documents id).check
      (memberPieces c (c.documents id).fields members).map
        (c.documentPiece outer (c.discriminatorFor (c.info (.document id))))
    | none =>
      .error (Cause.unsupportedType (c.typeName (.oneOf name variants)) "not a value of this type")
  | .dynamic, .dynamic value => value.piece c.options (outer.getD .none) inArray
  | .stored, .stored value => .ok value
  | .scalar type, value => Writer.capture (c.writeLeaf (.scalar type) value) outer inArray
  | .foreign name, value => Writer.capture (c.writeLeaf (.foreign name) value) outer inArray
  | type, _ => .error (Cause.unsupportedType (c.typeName type) "not a value of this type")

/-- What the items of a list are stored as, the first of which has the given position. -/
def itemPieces (c : Codec) (inner : Ty) (position : Nat) :
    List Datum → Except Error (List AttributeValue)
  | [] => .ok []
  | item :: rest => do
    let first ← (piece c none true inner item).mapError (·.within (.index position))
    let others ← itemPieces c inner (position + 1) rest
    .ok (first :: others)

/-- What the entries of a map are stored as. -/
def entryPieces (c : Codec) (inner : Ty) :
    List (String × Datum) → Except Error (List (String × AttributeValue))
  | [] => .ok []
  | (key, value) :: rest => do
    let first ← (piece c none false inner value).mapError (·.within (.field key))
    let others ← entryPieces c inner rest
    .ok ((key, first) :: others)

/-- What the members of a document are stored as that are written, after their hooks. -/
def memberPieces (c : Codec) : List Field → List Datum → Except Error (List (Field × AttributeValue))
  | f :: fields, value :: values =>
    if c.keepsMember f value then do
      let first ← (piece c none false f.type value >>= runWriteHooks f.onWrite).mapError
        (·.within (.field (c.storedName f)))
      let others ← memberPieces c fields values
      .ok ((f, first) :: others)
    else memberPieces c fields values
  | _, _ => .ok []
end

/-! ### Writing -/

/-- Every call of a converter yields a result. -/
def ConvertersYield (c : Codec) : Prop :=
  ∀ converter ∈ c.converters, ∀ value, ∃ result, Writer.Yields (converter.write value) result

/-- The calls of the converters that are always there do. -/
theorem convertersYield_of_builtins (h : c.converters = Converter.builtins) : c.ConvertersYield := by
  intro converter hmem value
  rw [h] at hmem
  exact Writer.yields_of_writesLeaf (Writer.writesLeaf_of_mem_builtins hmem value)

theorem yields_writeLeaf (h : c.ConvertersYield) (type : Ty) (value : Datum) :
    Writer.Yields (c.writeLeaf type value) (Writer.capture (c.writeLeaf type value)) := by
  have hresult : ∃ result, Writer.Yields (c.writeLeaf type value) result := by
    unfold writeLeaf Converter.writeBy
    cases hfirst : Converter.first? c.converters type with
    | none => exact ⟨_, Writer.yields_refusal _⟩
    | some converter => exact h converter (List.mem_of_find?_eq_some hfirst) _
  obtain ⟨result, hresult⟩ := hresult
  exact hresult.of_capture

theorem yields_illTyped (type : Ty) : Writer.Yields (c.illTyped type) fun _ _ =>
    .error (Cause.unsupportedType (c.typeName type) "not a value of this type") :=
  fun _ _ => rfl

theorem hooked_eq {call : WriterM Unit}
    {result : Option WriteFlags → Bool → Except Error AttributeValue}
    (h : Writer.Yields call result) (hooks : List WriteHook) :
    hooked hooks call = result none false >>= runWriteHooks hooks := by
  rw [hooked, h.run_forPart]
  cases result none false <;> rfl

theorem outcome_writeHooked_of_cons {f : Field} {hook : WriteHook} {rest : List WriteHook}
    (hhooks : f.onWrite = hook :: rest) (call : WriterM Unit) {w : Writer}
    (hfree : w.checkSlot = .ok ()) :
    Writer.outcome (writeHooked f call) w = (hooked f.onWrite call).map w.fill := by
  unfold Writer.outcome writeHooked
  rw [hhooks]
  cases hooked (hook :: rest) call with
  | error e => rfl
  | ok value => exact Writer.outcome_write hfree value

/-- A member is written through its hooks. -/
theorem outcome_writeHooked (f : Field) {call : WriterM Unit}
    {result : Option WriteFlags → Bool → Except Error AttributeValue}
    (h : Writer.Yields call result) (w : Writer) (outermost : Bool) (members : Item)
    (pinned : List String) (name : String) (pin : Bool) :
    Writer.outcome (writeHooked f call) (w.withProperty outermost members pinned name pin) =
      (result none false >>= runWriteHooks f.onWrite).map fun value =>
        w.withObject outermost (members.insert name value)
          (if pin then name :: pinned else pinned) := by
  have hfree : (w.withProperty outermost members pinned name pin).checkSlot = .ok () := rfl
  cases hhooks : f.onWrite with
  | nil =>
    unfold writeHooked
    rw [hhooks]
    refine (h _ hfree).trans ?_
    change Except.map _ (result none false) = _
    cases result none false <;> rfl
  | cons hook rest =>
    rw [outcome_writeHooked_of_cons hhooks call hfree, hooked_eq h, hhooks]
    rfl

theorem outcome_writeItems (inner : Ty) {items : List Datum} (position : Nat)
    (h : ∀ item ∈ items, Writer.Yields (c.write inner item) fun outer inArray =>
      c.piece outer inArray inner item) (w : Writer) (asSet inArray : Bool)
    (elements : List AttributeValue) :
    Writer.outcome (c.writeItems inner position items) (w.withArray asSet inArray elements) =
      (c.itemPieces inner position items).map fun pieces =>
        w.withArray asSet inArray (elements ++ pieces) := by
  induction items generalizing position elements with
  | nil =>
    rw [writeItems, itemPieces, Writer.outcome_pure, Except.map, List.append_nil]
  | cons item rest ih =>
    have hitem := h item List.mem_cons_self (w.withArray asSet inArray elements) rfl
    rw [writeItems, itemPieces, Writer.outcome_bind, Writer.outcome_inside, hitem]
    change Except.mapError _ (Except.map _ (c.piece none true inner item)) >>= _ = _
    cases c.piece none true inner item with
    | error e => rfl
    | ok first =>
      change Writer.outcome (c.writeItems inner (position + 1) rest)
        (w.withArray asSet inArray (elements ++ [first])) = _
      rw [ih (position + 1) fun x hx => h x (List.mem_cons_of_mem item hx)]
      cases c.itemPieces inner (position + 1) rest with
      | error e => rfl
      | ok others =>
        rw [Except.map, List.append_assoc]
        rfl

theorem outcome_writeEntries (inner : Ty) {entries : List (String × Datum)}
    (h : ∀ entry ∈ entries, Writer.Yields (c.write inner entry.2) fun outer inArray =>
      c.piece outer inArray inner entry.2) (w : Writer) (outermost : Bool) (members : Item) :
    Writer.outcome (c.writeEntries inner entries) (w.withObject outermost members []) =
      (c.entryPieces inner entries).map fun pieces =>
        w.withObject outermost (members.insertAll pieces) [] := by
  induction entries generalizing members with
  | nil => rfl
  | cons entry rest ih =>
    obtain ⟨key, value⟩ := entry
    have hvalue := h (key, value) List.mem_cons_self
      (w.withProperty outermost members [] key false) rfl
    rw [writeEntries, entryPieces, Writer.outcome_bind]
    change Writer.outcome (do
        Writer.inside (.field key) (c.write inner value)
        c.writeEntries inner rest) (w.withProperty outermost members [] key false) = _
    rw [Writer.outcome_bind, Writer.outcome_inside, hvalue]
    change Except.mapError _ (Except.map _ (c.piece none false inner value)) >>= _ = _
    cases c.piece none false inner value with
    | error e => rfl
    | ok first =>
      change Writer.outcome (c.writeEntries inner rest)
        (w.withObject outermost (members.insert key first) []) = _
      rw [ih fun x hx => h x (List.mem_cons_of_mem _ hx)]
      cases c.entryPieces inner rest <;> rfl

theorem outcome_writeMembers {fields : List Field} {members : List Datum}
    (h : ∀ member ∈ fields.zip members,
      Writer.Yields (c.write member.1.type member.2) fun outer inArray =>
        c.piece outer inArray member.1.type member.2) (w : Writer) (outermost : Bool)
    (written : Item) (pinned : List String) :
    Writer.outcome (c.writeMembers fields members) (w.withObject outermost written pinned) =
      (c.memberPieces fields members).map fun pieces =>
        w.withObject outermost (written.insertAll (c.named pieces)) (c.pinnedBy pinned pieces) := by
  induction fields generalizing members written pinned with
  | nil => cases members <;> rfl
  | cons f fields ih =>
    cases members with
    | nil => rfl
    | cons value values =>
      have hrest := fun written pinned => @ih values
        (fun x hx => h x (List.mem_cons_of_mem _ hx)) written pinned
      rw [writeMembers, memberPieces, Writer.outcome_bind, Writer.outcome_inside]
      by_cases hkeeps : c.keepsMember f value = true
      · rw [if_pos hkeeps, if_pos hkeeps, Writer.outcome_bind]
        change Except.mapError _ (Writer.outcome (writeHooked f (c.write f.type value))
          (w.withProperty outermost written pinned (c.storedName f) (isPinned f))) >>= _ = _
        rw [outcome_writeHooked f (h (f, value) List.mem_cons_self)]
        cases c.piece none false f.type value >>= runWriteHooks f.onWrite with
        | error e => rfl
        | ok first =>
          refine (hrest _ _).trans ?_
          cases c.memberPieces fields values <;> rfl
      · rw [if_neg hkeeps, if_neg hkeeps]
        exact hrest written pinned

/-- A document fills its slot with what it becomes, unless its declaration has faults. -/
theorem yields_document {d : Document} {members : List Datum}
    (h : ∀ member ∈ d.fields.zip members,
      Writer.Yields (c.write member.1.type member.2) fun outer inArray =>
        c.piece outer inArray member.1.type member.2) (discriminator : Option String) :
    Writer.Yields
      (do c.beginDocument d discriminator; c.writeMembers d.fields members; Writer.endObject)
      fun outer _ => d.check >>= fun _ =>
        (c.memberPieces d.fields members).map (c.documentPiece outer discriminator) := by
  cases hcheck : d.check with
  | error e =>
    intro w _
    have hbegin : Writer.outcome (c.beginDocument d discriminator) w = .error e := by
      unfold Writer.outcome beginDocument
      rw [hcheck]
    rw [Writer.outcome_bind, hbegin]
    rfl
  | ok u =>
    have hmembers : ∀ (w : Writer) (outermost : Bool),
        Writer.outcome (do c.writeTag discriminator; c.writeMembers d.fields members)
          (w.withObject outermost [] []) =
            (c.memberPieces d.fields members).map fun pieces =>
              w.withObject outermost (Fields.ofList (c.tag discriminator ++ c.named pieces))
                (c.pinnedBy (discriminator.toList.map fun _ => c.options.typeDiscriminator)
                  pieces) := by
      intro w outermost
      rw [Writer.outcome_bind, Writer.outcome_eq_ok.mpr (writeTag_withObject ..)]
      simp only [← Fields.insertAll_ofList]
      exact outcome_writeMembers h w outermost _ _
    have hobject := Writer.Yields.object hmembers
    rw [beginDocument_of_check hcheck, bind_assoc]
    simp only [bind_assoc] at hobject
    exact hobject

mutual
/-- A value of any type fills a free slot with its piece, or fails as the piece does. -/
theorem yields_write (h : c.ConvertersYield) (type : Ty) (value : Datum) :
    Writer.Yields (c.write type value) fun outer inArray => c.piece outer inArray type value := by
  cases type with
  | scalar type =>
    simp only [write, piece]
    exact yields_writeLeaf h _ value
  | enumeration type =>
    cases value with
    | enumeration number =>
      simp only [write, piece, EnumType.write_eq]
      exact Writer.yields_write _
    | _ => exact yields_illTyped _
  | option inner =>
    cases value with
    | absent =>
      simp only [write, piece]
      exact Writer.yields_write _
    | present value =>
      simp only [write, piece]
      exact yields_write h inner value
    | _ => exact yields_illTyped _
  | boxed inner =>
    cases value with
    | boxed value =>
      simp only [write, piece]
      exact yields_write h inner value
    | _ => exact yields_illTyped _
  | list inner =>
    cases value with
    | list items =>
      simp only [write, piece]
      exact .array fun w inArray =>
        outcome_writeItems inner 0 (yields_writeItem h inner items) w false inArray []
    | _ => exact yields_illTyped _
  | set hashed inner =>
    cases value with
    | list items =>
      simp only [write, piece]
      exact .array fun w inArray =>
        outcome_writeItems inner 0 (yields_writeItem h inner items) w true inArray []
    | _ => exact yields_illTyped _
  | map hashed inner =>
    cases value with
    | map entries =>
      simp only [write, piece]
      exact .object fun w outermost =>
        outcome_writeEntries inner (yields_writeEntry h inner entries) w outermost []
    | _ => exact yields_illTyped _
  | document id =>
    cases value with
    | document members =>
      simp only [write, piece]
      exact yields_document (yields_writeMember h (c.documents id).fields members) none
    | _ => exact yields_illTyped _
  | oneOf name variants =>
    cases value with
    | variant variant members =>
      simp only [write, piece]
      cases variants.lookup variant with
      | none => exact yields_illTyped _
      | some id =>
        exact yields_document (yields_writeMember h (c.documents id).fields members) _
    | _ => exact yields_illTyped _
  | dynamic =>
    cases value with
    | dynamic value =>
      intro w hfree
      simp only [write, piece]
      rw [Value.outcome_write c.options value hfree, Writer.outerFlags_eq]
    | _ => exact yields_illTyped _
  | stored =>
    cases value with
    | stored value =>
      simp only [write, piece]
      exact Writer.yields_write _
    | _ => exact yields_illTyped _
  | «foreign» name =>
    simp only [write, piece]
    exact yields_writeLeaf h _ value

theorem yields_writeItem (h : c.ConvertersYield) (inner : Ty) (items : List Datum) :
    ∀ item ∈ items, Writer.Yields (c.write inner item) fun outer inArray =>
      c.piece outer inArray inner item := by
  cases items with
  | nil => nofun
  | cons item rest =>
    intro x hx
    rcases List.mem_cons.mp hx with heq | hx
    · rw [heq]
      exact yields_write h inner item
    · exact yields_writeItem h inner rest x hx

theorem yields_writeEntry (h : c.ConvertersYield) (inner : Ty) (entries : List (String × Datum)) :
    ∀ entry ∈ entries, Writer.Yields (c.write inner entry.2) fun outer inArray =>
      c.piece outer inArray inner entry.2 := by
  cases entries with
  | nil => nofun
  | cons entry rest =>
    obtain ⟨key, value⟩ := entry
    intro x hx
    rcases List.mem_cons.mp hx with heq | hx
    · rw [heq]
      exact yields_write h inner value
    · exact yields_writeEntry h inner rest x hx

theorem yields_writeMember (h : c.ConvertersYield) (fields : List Field) (members : List Datum) :
    ∀ member ∈ fields.zip members,
      Writer.Yields (c.write member.1.type member.2) fun outer inArray =>
        c.piece outer inArray member.1.type member.2 := by
  cases members with
  | nil =>
    rw [List.zip_nil_right]
    nofun
  | cons value values =>
    cases fields with
    | nil => nofun
    | cons f fields =>
      intro x hx
      rcases List.mem_cons.mp hx with heq | hx
      · rw [heq]
        exact yields_write h f.type value
      · exact yields_writeMember h fields values x hx
end

/-- Alone, a value becomes its piece, if the flags keep it. -/
theorem encodeWith_eq_piece (h : c.ConvertersYield) (flags : WriteFlags) (type : Ty) (value : Datum) :
    c.encodeWith flags type value =
      (c.piece (some flags) false type value).map fun piece =>
        if flags.keeps piece then some piece else none :=
  (yields_write h type value).run_new flags

end Codec

end ItemMapper
