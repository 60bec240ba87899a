import Mathlib.Data.List.Forall2
import Mathlib.Logic.Function.Basic
import ItemMapper.Mapper
import ItemMapper.Proofs.Codec.Recursion
import ItemMapper.Proofs.Values.Literals
import ItemMapper.Proofs.Writer.Grammar

/-!
# Interceptors that do nothing

A member with a write hook is written as a part of another value first, and what its hooks make of this is
put into the slot of the member. Without hooks it is written there at once. Both ways lead to the same,
values and errors, since neither slot is that of the outermost object or in an array. So the hooks of a
declaration matter only by what they do: declarations whose hooks do the same write the same, wherever
their documents stand, and a hook that returns what it gets is invisible.

This is so for converters that put one value into their slot, such as those that make the calls of a word
of the grammar. A converter that wrote nothing would fail in the slot of a member, where the next property
finds this one still waiting, and would store null as a part of another value.

## Main definitions

* `Writer.Nonterminal.Yields`: calls that write the same in all slots of a kind.
* `Writer.WritesWord`: a call that makes the calls of a word, or refuses to write.
* `Document.WritesAlike`: documents that differ in nothing but the hooks of their members, which do the
  same on writing.
* `Codec.withDocuments`: the same codec for other documents.
* `Document.intercept`, `Codec.intercept`: one more hook on one member of a document.

## Main statements

* `Writer.Derives.yields`, `Codec.convertersYield_of_words`: converters that make the calls of words put
  one value into their slots.
* `Codec.piece_withDocuments`: documents that write alike make the same pieces.
* `Codec.writesAlike_intercept`: a hook that returns what it gets leaves its document writing alike.
* `Codec.outcome_writeHooked_identity`: writing a member apart and putting the value into its slot is
  writing it there.
* `Codec.encode_intercept`: a hook that returns what it gets is invisible.
-/

namespace ItemMapper

namespace Writer

/-! ### Words of the grammar -/

/-- Calls that put a value into their slot which depends on the kind of slot only, or that add the same
members to every object, or the same elements to every array. -/
def Nonterminal.Yields : Nonterminal → WriterM Unit → Prop
  | value, call =>
    ∃ piece : Option WriteFlags → Bool → AttributeValue,
      Writer.Yields call fun outer inArray => .ok (piece outer inArray)
  | entries, calls =>
    ∃ (more : List (String × AttributeValue)) (pins : List String), ∀ (w : Writer) (outermost : Bool)
      (members : Item) (pinned : List String),
        outcome calls (w.withObject outermost members pinned) =
          .ok (w.withObject outermost (members.insertAll more) (pins ++ pinned))
  | values, calls =>
    ∃ more : List AttributeValue, ∀ (w : Writer) (inArray : Bool) (elements : List AttributeValue),
      outcome calls (w.withArray false inArray elements) =
        .ok (w.withArray false inArray (elements ++ more))

theorem runAll_container (opening closing : Event) (events : List Event) :
    runAll (opening :: events ++ [closing]) = (do opening.run; runAll events; closing.run) := by
  change (do opening.run; runAll (events ++ [closing])) = _
  rw [runAll_append, runAll_singleton]

theorem Nonterminal.Yields.object {calls : List Event}
    (h : Nonterminal.entries.Yields (runAll calls)) :
    Nonterminal.value.Yields (runAll (.beginObject :: calls ++ [.endObject])) := by
  obtain ⟨more, pins, hmore⟩ := h
  rw [runAll_container]
  have hobject : ∀ (w : Writer) (outermost : Bool),
      outcome (runAll calls) (w.withObject outermost [] []) =
        (Except.ok () : Except Error Unit).map fun _ =>
          w.withObject outermost (Fields.insertAll [] more) (pins ++ []) :=
    fun w outermost => hmore w outermost [] []
  exact ⟨fun outer _ => .map (keptMembers outer (pins ++ []) (Fields.insertAll [] more)),
    Writer.Yields.object hobject⟩

theorem Nonterminal.Yields.array {calls : List Event}
    (h : Nonterminal.values.Yields (runAll calls)) :
    Nonterminal.value.Yields (runAll (.beginArray :: calls ++ [.endArray])) := by
  obtain ⟨more, hmore⟩ := h
  rw [runAll_container]
  refine ⟨fun _ _ => .list (AttributeValue.dropVoid more), ?_⟩
  have harray : ∀ (w : Writer) inArray, outcome (runAll calls) (w.withArray false inArray []) =
      (Except.ok more).map (w.withArray false inArray) := fun w inArray => hmore w inArray []
  intro w hfree
  exact (Writer.Yields.array harray w hfree).trans (congrArg _ (closeArray_eq false w.isInArray more))

/-- The slot of a property is not that of the outermost object, and not in an array. -/
theorem Nonterminal.Yields.entry {value rest : List Event}
    (hvalue : Nonterminal.value.Yields (runAll value))
    (hrest : Nonterminal.entries.Yields (runAll rest)) (name : String) (pin : Bool) :
    Nonterminal.entries.Yields (runAll (.property name pin :: value ++ rest)) := by
  obtain ⟨piece, hpiece⟩ := hvalue
  obtain ⟨more, pins, hmore⟩ := hrest
  refine ⟨(name, piece none false) :: more, pins ++ if pin then [name] else [],
    fun w outermost members pinned => ?_⟩
  change outcome (do propertyWith name pin; runAll (value ++ rest)) _ = _
  rw [runAll_append, outcome_bind]
  change outcome (do runAll value; runAll rest) (w.withProperty outermost members pinned name pin) = _
  rw [outcome_bind, hpiece _ rfl]
  refine (hmore w outermost (members.insert name (piece none false)) _).trans ?_
  cases pin with
  | false => rw [if_neg nofun, if_neg nofun, List.append_nil]; rfl
  | true => rw [if_pos rfl, if_pos rfl, List.append_assoc]; rfl

theorem Nonterminal.Yields.element {value rest : List Event}
    (hvalue : Nonterminal.value.Yields (runAll value))
    (hrest : Nonterminal.values.Yields (runAll rest)) :
    Nonterminal.values.Yields (runAll (value ++ rest)) := by
  obtain ⟨piece, hpiece⟩ := hvalue
  obtain ⟨more, hmore⟩ := hrest
  refine ⟨piece none true :: more, fun w inArray elements => ?_⟩
  rw [runAll_append, outcome_bind, hpiece _ rfl, List.append_cons]
  exact hmore w inArray (elements ++ [piece none true])

/-- The calls of every word write the same in all slots of a kind, pins or not. -/
theorem Derives.yields {n : Nonterminal} {events : List Event} (h : Derives n events) :
    n.Yields (runAll events) := by
  induction h with
  | leaf call =>
    obtain ⟨value, hvalue⟩ := call.exists_run_eq
    rw [runAll_singleton, Event.run, hvalue]
    exact ⟨fun _ _ => value, yields_write value⟩
  | object _ ih => exact ih.object
  | array _ ih => exact ih.array
  | noEntries => exact ⟨[], [], fun _ _ _ _ => rfl⟩
  | entry _ _ ihvalue ihrest => exact ihvalue.entry ihrest _ _
  | noValues => exact ⟨[], fun w inArray elements => by rw [List.append_nil]; rfl⟩
  | element _ _ ihvalue ihrest => exact ihvalue.element ihrest

/-- A call that makes the calls of one word for a value, or refuses to write at all. -/
inductive WritesWord : WriterM Unit → Prop
  | word {events : List Event} (derives : Derives .value events) : WritesWord (runAll events)
  | refusal (e : Error) : WritesWord fun w => .error e w

theorem WritesWord.exists_yields {call : WriterM Unit} (h : WritesWord call) :
    ∃ result, Yields call result := by
  cases h with
  | word derives =>
    obtain ⟨piece, hpiece⟩ := derives.yields
    exact ⟨_, hpiece⟩
  | refusal e => exact ⟨_, yields_refusal e⟩

end Writer

/-- Converters of an application that make the calls of one word for each value yield results, and so do
those that are always there behind them. -/
theorem Codec.convertersYield_of_words {c : Codec} {converters : List Converter}
    (hchain : c.converters = converters ++ Converter.builtins)
    (h : ∀ converter ∈ converters, ∀ value, Writer.WritesWord (converter.write value)) :
    c.ConvertersYield := by
  intro converter hmem value
  rw [hchain, List.mem_append] at hmem
  rcases hmem with hmem | hmem
  · exact (h converter hmem value).exists_yields
  · exact Writer.yields_of_writesLeaf (Writer.writesLeaf_of_mem_builtins hmem value)

/-! ### Hooks -/

theorem runWriteHooks_append_identity {hook : WriteHook} (h : ∀ value, hook value = .ok value)
    (hooks : List WriteHook) (value : AttributeValue) :
    runWriteHooks (hooks ++ [hook]) value = runWriteHooks hooks value := by
  induction hooks generalizing value with
  | nil =>
    change hook value >>= runWriteHooks [] = _
    rw [h]
    rfl
  | cons first rest ih =>
    change first value >>= runWriteHooks (rest ++ [hook]) = first value >>= runWriteHooks rest
    rw [funext ih]

/-! ### Documents that write alike -/

/-- Another member that differs in nothing but its hooks, which do the same on writing. -/
inductive Field.WritesAlike (f : Field) : Field → Prop
  | mk {hooks : List WriteHook} (same : runWriteHooks hooks = runWriteHooks f.onWrite) :
      WritesAlike f { f with onWrite := hooks }

instance : Std.Refl Field.WritesAlike := ⟨fun _ => .mk rfl⟩

theorem Field.WritesAlike.map_name {fields fields' : List Field}
    (h : List.Forall₂ Field.WritesAlike fields fields') :
    fields'.map (·.name) = fields.map (·.name) := by
  induction h with
  | nil => rfl
  | cons hf _ ih =>
    cases hf
    exact congrArg (List.cons _) ih

theorem Field.WritesAlike.getD {fields fields' : List Field}
    (h : List.Forall₂ Field.WritesAlike fields fields') (i : Nat) :
    (fields.getD i default).WritesAlike (fields'.getD i default) := by
  induction h generalizing i with
  | nil => exact .mk rfl
  | cons hf _ ih =>
    cases i with
    | zero => exact hf
    | succ i => exact ih i

/-- Another document that differs in nothing but the hooks of its members, which do the same on
writing. -/
structure Document.WritesAlike (d d' : Document) : Prop where
  typeName : d'.typeName = d.typeName
  faults : d'.faults = d.faults
  fields : List.Forall₂ Field.WritesAlike d.fields d'.fields

namespace Document

theorem WritesAlike.refl (d : Document) : d.WritesAlike d :=
  ⟨rfl, rfl, List.forall₂_refl _⟩

/-- Both have the same faults. -/
theorem WritesAlike.check {d d' : Document} (h : d.WritesAlike d') : d'.check = d.check := by
  unfold Document.check allFaults
  rw [Field.WritesAlike.map_name h.fields, h.faults, h.typeName]

/-- The document with one more hook on the member in a position, which runs after all others. -/
def intercept (d : Document) (position : Nat) (hook : WriteHook) : Document :=
  { d with fields := d.fields.modify position fun f => { f with onWrite := f.onWrite ++ [hook] } }

/-- Such a hook is declared by one more modifier. -/
theorem declare_intercept (typeName : String) (declarations : List Declaration) (position : Nat)
    (hook : WriteHook) :
    (declare typeName declarations).intercept position hook =
      declare typeName (declarations.modify position fun declaration =>
        { declaration with modifiers := declaration.modifiers ++ [.onWrite hook] }) := by
  have hfield : ∀ declaration : Declaration,
      ({ declaration with modifiers := declaration.modifiers ++ [.onWrite hook] } : Declaration).field =
        ({ declaration.field.1 with onWrite := declaration.field.1.onWrite ++ [hook] },
          declaration.field.2) := by
    intro declaration
    simp only [Declaration.field, List.foldl_append, List.foldl_cons, List.foldl_nil]
    rfl
  simp only [intercept, declare, Document.mk.injEq, true_and]
  induction declarations generalizing position with
  | nil => cases position <;> exact ⟨rfl, rfl⟩
  | cons declaration rest ih =>
    cases position with
    | zero =>
      simp only [List.map_cons, List.modify_zero_cons, List.flatMap_cons, hfield]
      exact ⟨trivial, trivial⟩
    | succ position =>
      obtain ⟨hfields, hfaults⟩ := ih position
      simp only [List.map_cons, List.modify_succ_cons, List.flatMap_cons, hfields, ← hfaults]
      exact ⟨trivial, trivial⟩

/-- A hook that returns what it gets changes nothing about what the hooks do. -/
theorem writesAlike_intercept {hook : WriteHook} (h : ∀ value, hook value = .ok value)
    (d : Document) (position : Nat) : d.WritesAlike (d.intercept position hook) := by
  refine ⟨rfl, rfl, ?_⟩
  change List.Forall₂ _ d.fields (d.fields.modify position _)
  induction d.fields generalizing position with
  | nil => cases position <;> exact .nil
  | cons f fields ih =>
    cases position with
    | zero =>
      exact .cons (.mk (funext (runWriteHooks_append_identity h f.onWrite))) (List.forall₂_refl _)
    | succ position => exact .cons (.mk rfl) (ih position)

end Document

namespace Codec

variable {c : Codec} {documents : DocumentId → Document}

/-- The same codec for other documents. -/
def withDocuments (c : Codec) (documents : DocumentId → Document) : Codec :=
  { c with documents := documents }

/-! ### Pieces -/

/-- The pieces of members, whatever their hooks are. -/
def unhooked (pieces : List (Field × AttributeValue)) : List (Field × AttributeValue) :=
  pieces.map fun (f, piece) => ({ f with onWrite := [] }, piece)

/-- What a document becomes does not depend on the hooks any more once its members have been written. -/
theorem documentPiece_unhooked (outer : Option WriteFlags) (discriminator : Option String)
    (pieces : List (Field × AttributeValue)) :
    c.documentPiece outer discriminator (unhooked pieces) =
      c.documentPiece outer discriminator pieces := by
  have hnamed : c.named (unhooked pieces) = c.named pieces := by
    unfold named unhooked
    rw [List.map_map]
    rfl
  have hpinned : ∀ pinned, c.pinnedBy pinned (unhooked pieces) = c.pinnedBy pinned pieces := by
    intro pinned
    unfold pinnedBy unhooked
    rw [List.foldl_map]
    rfl
  unfold documentPiece
  rw [hnamed, hpinned]

/-- A document with the same pieces, whatever the hooks, becomes the same. -/
theorem map_documentPiece_of_unhooked {result result' : Except Error (List (Field × AttributeValue))}
    (h : result'.map unhooked = result.map unhooked) (outer : Option WriteFlags)
    (discriminator : Option String) :
    result'.map ((c.withDocuments documents).documentPiece outer discriminator) =
      result.map (c.documentPiece outer discriminator) := by
  have hmap : ∀ result : Except Error (List (Field × AttributeValue)),
      result.map (c.documentPiece outer discriminator) =
        (result.map unhooked).map (c.documentPiece outer discriminator) := by
    intro result
    cases result with
    | error e => rfl
    | ok pieces => exact congrArg Except.ok (documentPiece_unhooked outer discriminator pieces).symm
  rw [hmap result, ← h]
  exact hmap result'

mutual
/-- Documents that write alike make the same pieces, or fail in the same way, of values of all types. -/
theorem piece_withDocuments (h : ∀ id, (c.documents id).WritesAlike (documents id))
    (outer : Option WriteFlags) (inArray : Bool) (type : Ty) (value : Datum) :
    (c.withDocuments documents).piece outer inArray type value = c.piece outer inArray type value := by
  cases type with
  | option inner =>
    cases value with
    | present value =>
      simp only [piece]
      exact piece_withDocuments h outer inArray inner value
    | _ => rfl
  | boxed inner =>
    cases value with
    | boxed value =>
      simp only [piece]
      exact piece_withDocuments h outer inArray inner value
    | _ => rfl
  | list inner =>
    cases value with
    | list items =>
      simp only [piece]
      rw [itemPieces_withDocuments h inner 0 items]
    | _ => rfl
  | set hashed inner =>
    cases value with
    | list items =>
      simp only [piece]
      rw [itemPieces_withDocuments h inner 0 items]
    | _ => rfl
  | map hashed inner =>
    cases value with
    | map entries =>
      simp only [piece]
      rw [entryPieces_withDocuments h inner entries]
    | _ => rfl
  | document id =>
    cases value with
    | document members =>
      simp only [piece]
      change (documents id).check >>= _ = _
      rw [(h id).check]
      refine congrArg _ (funext fun _ => ?_)
      exact map_documentPiece_of_unhooked (memberPieces_withDocuments h (h id).fields members) outer none
    | _ => rfl
  | oneOf name variants =>
    cases value with
    | variant variant members =>
      simp only [piece]
      cases variants.lookup variant with
      | none => rfl
      | some id =>
        change (documents id).check >>= _ = _
        rw [(h id).check]
        refine congrArg _ (funext fun _ => ?_)
        exact map_documentPiece_of_unhooked (memberPieces_withDocuments h (h id).fields members) outer _
    | _ => rfl
  | _ => cases value <;> rfl

theorem itemPieces_withDocuments (h : ∀ id, (c.documents id).WritesAlike (documents id)) (inner : Ty)
    (position : Nat) (items : List Datum) :
    (c.withDocuments documents).itemPieces inner position items =
      c.itemPieces inner position items := by
  cases items with
  | nil => rfl
  | cons item rest =>
    simp only [itemPieces]
    rw [piece_withDocuments h none true inner item,
      itemPieces_withDocuments h inner (position + 1) rest]

theorem entryPieces_withDocuments (h : ∀ id, (c.documents id).WritesAlike (documents id)) (inner : Ty)
    (entries : List (String × Datum)) :
    (c.withDocuments documents).entryPieces inner entries = c.entryPieces inner entries := by
  cases entries with
  | nil => rfl
  | cons entry rest =>
    obtain ⟨key, value⟩ := entry
    simp only [entryPieces]
    rw [piece_withDocuments h none false inner value, entryPieces_withDocuments h inner rest]

theorem memberPieces_withDocuments (h : ∀ id, (c.documents id).WritesAlike (documents id))
    {fields fields' : List Field} (hfields : List.Forall₂ Field.WritesAlike fields fields')
    (members : List Datum) :
    ((c.withDocuments documents).memberPieces fields' members).map unhooked =
      (c.memberPieces fields members).map unhooked := by
  cases members with
  | nil => cases hfields <;> rfl
  | cons value values =>
    cases hfields with
    | nil => rfl
    | @cons f _ fields fields' hf hfields =>
      obtain ⟨hsame⟩ := hf
      have hrest := memberPieces_withDocuments h hfields values
      simp only [memberPieces]
      change Except.map unhooked (if c.keepsMember f value = true then _ else _) = _
      split
      · rw [piece_withDocuments h none false f.type value, hsame]
        cases c.piece none false f.type value >>= runWriteHooks f.onWrite with
        | error e => rfl
        | ok first =>
          have hcons : ∀ (hooks : List WriteHook) (result : Except Error (List (Field × AttributeValue))),
              (result.map fun others => ({ f with onWrite := hooks }, first) :: others).map unhooked =
                (result.map unhooked).map (({ f with onWrite := [] }, first) :: ·) := by
            intro hooks result
            cases result <;> rfl
          exact (hcons _ _).trans ((congrArg _ hrest).trans (hcons f.onWrite _).symm)
      · exact hrest
end

/-! ### Writing -/

section
variable (h : c.ConvertersYield) (hdocuments : ∀ id, (c.documents id).WritesAlike (documents id))
include h hdocuments

theorem encodeWith_withDocuments (flags : WriteFlags) (type : Ty) (value : Datum) :
    (c.withDocuments documents).encodeWith flags type value = c.encodeWith flags type value := by
  have hafter : (c.withDocuments documents).ConvertersYield := h
  rw [encodeWith_eq_piece hafter, encodeWith_eq_piece h, piece_withDocuments hdocuments]

theorem toItem_withDocuments (type : Ty) (value : Datum) :
    (c.withDocuments documents).toItem type value = c.toItem type value := by
  unfold toItem encode
  change (c.withDocuments documents).encodeWith c.writeFlags type value >>= _ = _
  rw [encodeWith_withDocuments h hdocuments]

theorem outcome_write_withDocuments (type : Ty) (value : Datum) {w : Writer}
    (hfree : w.checkSlot = .ok ()) :
    Writer.outcome ((c.withDocuments documents).write type value) w =
      Writer.outcome (c.write type value) w := by
  have hafter : (c.withDocuments documents).ConvertersYield := h
  rw [yields_write hafter type value w hfree, yields_write h type value w hfree]
  dsimp only
  rw [piece_withDocuments hdocuments]

theorem encodeMember_withDocuments {f f' : Field} (hf : f.WritesAlike f') (value : Datum) :
    (c.withDocuments documents).encodeMember f' value = c.encodeMember f value := by
  obtain ⟨hsame⟩ := hf
  unfold encodeMember
  rw [encodeWith_withDocuments h hdocuments]
  dsimp only
  rw [hsame]

end

/-- Writing a member apart and putting the value into the slot of its property is writing it there. -/
theorem outcome_writeHooked_identity (h : c.ConvertersYield) {hook : WriteHook}
    (hhook : ∀ value, hook value = .ok value) (f : Field) (value : Datum) (w : Writer)
    (outermost : Bool) (members : Item) (pinned : List String) (name : String) (pin : Bool) :
    Writer.outcome (writeHooked { f with onWrite := [hook] } (c.write f.type value))
        (w.withProperty outermost members pinned name pin) =
      Writer.outcome (c.write f.type value) (w.withProperty outermost members pinned name pin) := by
  have hrun : runWriteHooks [hook] = Except.ok :=
    funext (runWriteHooks_append_identity hhook [])
  have hyield := yields_write h f.type value
  rw [outcome_writeHooked { f with onWrite := [hook] } hyield, hrun]
  refine Eq.trans ?_ (hyield _ rfl).symm
  change Except.map _ (c.piece none false f.type value >>= Except.ok) =
    (c.piece none false f.type value).map _
  cases c.piece none false f.type value <;> rfl

/-! ### Interception -/

/-- The codec with one more hook on one member of a document. -/
def intercept (c : Codec) (id : DocumentId) (position : Nat) (hook : WriteHook) : Codec :=
  c.withDocuments (Function.update c.documents id ((c.documents id).intercept position hook))

theorem writesAlike_intercept {hook : WriteHook} (h : ∀ value, hook value = .ok value)
    (c : Codec) (id : DocumentId) (position : Nat) (other : DocumentId) :
    (c.documents other).WritesAlike ((c.intercept id position hook).documents other) := by
  change Document.WritesAlike _ (Function.update c.documents id _ other)
  rcases eq_or_ne other id with rfl | hne
  · rw [Function.update_self]
    exact Document.writesAlike_intercept h _ position
  · rw [Function.update_of_ne hne]
    exact .refl _

/-- **An interceptor that returns what it gets is invisible.** Put behind all other hooks of any member, it
changes neither what a value of any type becomes nor its error: of a value alone, under any flags, of an
item, of a member by itself, and of a value in a free slot of any writer. What the hook does to a member is
that it is written as a part of another value and put into its slot then; this is the same as writing it
into the slot. -/
theorem encode_intercept (h : c.ConvertersYield) {hook : WriteHook}
    (hhook : ∀ value, hook value = .ok value) (id : DocumentId) (position : Nat) :
    (∀ flags type value,
      (c.intercept id position hook).encodeWith flags type value = c.encodeWith flags type value) ∧
    (∀ type value, (c.intercept id position hook).toItem type value = c.toItem type value) ∧
    (∀ other i value,
      (c.intercept id position hook).encodeMember
          (((c.intercept id position hook).documents other).fields.getD i default) value =
        c.encodeMember ((c.documents other).fields.getD i default) value) ∧
    (∀ type value w, w.checkSlot = .ok () →
      Writer.outcome ((c.intercept id position hook).write type value) w =
        Writer.outcome (c.write type value) w) ∧
    ∀ (f : Field) (value : Datum) (w : Writer) (outermost : Bool) (members : Item)
      (pinned : List String) (name : String) (pin : Bool),
      Writer.outcome (writeHooked { f with onWrite := [hook] } (c.write f.type value))
          (w.withProperty outermost members pinned name pin) =
        Writer.outcome (c.write f.type value) (w.withProperty outermost members pinned name pin) := by
  have hdocuments := c.writesAlike_intercept hhook id position
  refine ⟨encodeWith_withDocuments h hdocuments, toItem_withDocuments h hdocuments,
    fun other i value => ?_, fun type value w => outcome_write_withDocuments h hdocuments type value,
    outcome_writeHooked_identity h hhook⟩
  exact encodeMember_withDocuments h hdocuments (.getD (hdocuments other).fields i) value

/-- The calls for a seal: an object of its mark and of an owner that nobody knows, which the outermost
object keeps. -/
def sealCalls (mark : String) : List Writer.Event :=
  [.beginObject, .property "mark" false, .leaf (.text mark), .property "owner" true, .leaf .null,
    .endObject]

theorem derives_sealCalls (mark : String) : Writer.Derives .value (sealCalls mark) := by
  have howner : Writer.Derives .entries [.property "owner" true, .leaf .null] :=
    .entry (.leaf .null) .noEntries
  have hmark : Writer.Derives .entries
      [.property "mark" false, .leaf (.text mark), .property "owner" true, .leaf .null] :=
    .entry (.leaf (.text mark)) howner
  exact .object hmark

/-- A converter that makes them. -/
def sealing : Converter where
  name := "seal"
  handles := (· == .foreign "Seal")
  write
    | ⟨_, .foreign mark⟩ => Writer.runAll (sealCalls mark)
    | _ => Converter.cannotWrite "seal"
  read := fun target value => .error (target.mismatch value)

/-- Letters with a seal and lists of tags, and with a reply that is stored even where there is none. -/
def letters : Codec where
  options := .initial
  typeName := fun _ => ""
  defaultValuesFor := none
  discriminatorFor := fun _ => none
  converters := [sealing] ++ Converter.builtins
  documents := fun _ => .declare "Letter"
    [⟨"seal", .foreign "Seal", .foreign "", []⟩,
      ⟨"tags", .list (.set false (.scalar .text)), .list [], [.persistDefault true]⟩,
      ⟨"reply", .option (.boxed (.document 0)), .absent, [.persistNull true]⟩]

/-- A letter with tags but without a seal, which was answered by one with a seal but without tags. -/
def sampleLetter : Datum :=
  .document [.foreign "", .list [.list [.text "b", .text "a"]],
    .present (.boxed (.document [.foreign "lion", .list [], .absent]))]

theorem encode_intercept_letters :
    letters.ConvertersYield ∧
      (letters.intercept 0 0 .ok).encode (.document 0) sampleLetter =
        .ok (some (.map [("reply", .map [("seal", .map [("mark", .text "lion")])]),
          ("tags", .list [.list [.text "b", .text "a"]])])) ∧
      (letters.intercept 0 2 .ok).encode (.document 0) sampleLetter =
        (letters.intercept 0 0 .ok).encode (.document 0) sampleLetter := by
  have hyield : letters.ConvertersYield := by
    refine convertersYield_of_words rfl (List.forall_mem_singleton.mpr fun value => ?_)
    unfold sealing
    dsimp only
    split
    · exact .word (derives_sealCalls _)
    · exact .refusal _
  have hencode : letters.encode (.document 0) sampleLetter =
      .ok (some (.map [("reply", .map [("seal", .map [("mark", .text "lion")])]),
        ("tags", .list [.list [.text "b", .text "a"]])])) :=
    except_toOption_eq_some.mp (by decide +kernel)
  have hhook : ∀ value, (Except.ok : WriteHook) value = .ok value := fun _ => rfl
  obtain ⟨hseal, -⟩ := encode_intercept hyield hhook 0 0
  obtain ⟨hreply, -⟩ := encode_intercept hyield hhook 0 2
  exact ⟨hyield, (hseal ..).trans hencode, (hreply ..).trans (hseal ..).symm⟩

end Codec

end ItemMapper
