import ItemMapper.Proofs.Values.Recursion
import ItemMapper.Proofs.Writer.Calls

/-!
# Values that fill one slot

Whatever the converters and the hooks of an application do, a value of a type fills the slot that it is
written into and touches nothing else, provided that each converter does so with the values that it
handles. So what is written of a member of a document stands under the name of this member, and under
every other name an open object holds what it has held before.

## Main definitions

* `Writer.Places`: a call that puts a value with a property into a free slot.
* `Codec.ConvertersPlace`: the converters of a chain put one value into a slot each.
* `Codec.WritesMember`: what is written for a member of a document.
* `Codec.WritesLast`: what is written last under a name.

## Main statements

* `Codec.places_write`: a value of any type fills its slot.
* `Codec.exists_writesLast`: what is written last under a name is found there.
* `Codec.get?_of_writeMembers`: what is written for a member is found under its name.
* `Codec.mem_pinned_of_writeMembers`: the names that are to stay.
* `Codec.places_document`: the text of a document stays where no member is written over it.
* `Codec.exists_written_of_write`: a document fills its slot with what its members are written into.
-/

namespace ItemMapper

namespace Writer

variable {P Q : AttributeValue → Prop} {call : WriterM Unit}

/-- A call that puts a value for which `P` holds into the slot, wherever a value may be written, or
fails. -/
def Places (call : WriterM Unit) (P : AttributeValue → Prop) : Prop :=
  ∀ w w' : Writer, w.checkSlot = .ok () → call w = .ok () w' →
    ∃ value, P value ∧ w' = w.fill value

theorem Places.imp (h : Places call P) (himp : ∀ value, P value → Q value) : Places call Q := by
  intro w w' hfree hcall
  obtain ⟨value, hvalue, hfill⟩ := h w w' hfree hcall
  exact ⟨value, himp value hvalue, hfill⟩

theorem Places.write {value : AttributeValue} (h : P value) : Places (write value) P := by
  intro w w' hfree hwrite
  rw [write_of_free hfree] at hwrite
  cases hwrite
  exact ⟨value, h, rfl⟩

theorem places_of_writesLeaf (h : WritesLeaf call) : Places call fun _ => True := by
  cases h with
  | leaf hleaf => exact .write trivial
  | refusal e => exact fun _ _ _ hcall => nomatch hcall

/-- Different values fill a slot differently. -/
theorem fill_injective {w : Writer} (hfree : w.checkSlot = .ok ()) {value value' : AttributeValue}
    (h : w.fill value = w.fill value') : value = value' := by
  obtain ⟨flags, nested, stack, root⟩ := w
  match stack with
  | [] => exact Option.some.inj (congrArg Writer.root h)
  | .object _ _ none _ :: _ => cases hfree
  | .object members _ (some (name, _)) _ :: _ =>
    have hmembers := congrArg Writer.stack h
    simp only [fill, List.cons.injEq, Frame.object.injEq] at hmembers
    have hfound := congrArg (Fields.get? · name) hmembers.1.1
    simp only [Fields.get?_insert, if_true] at hfound
    exact Option.some.inj hfound
  | .array _ _ _ :: _ =>
    have helements := congrArg Writer.stack h
    simp only [fill, List.cons.injEq, Frame.array.injEq] at helements
    exact List.singleton_inj.mp (List.append_cancel_left helements.1.1)

/-- Different members or pins make different open objects. -/
theorem withObject_injective {w : Writer} {outermost : Bool} {members members' : Item}
    {pinned pinned' : List String}
    (h : w.withObject outermost members pinned = w.withObject outermost members' pinned') :
    members = members' ∧ pinned = pinned' := by
  have hstack := congrArg Writer.stack h
  simp only [withObject, List.cons.injEq, Frame.object.injEq] at hstack
  exact ⟨hstack.1.1, hstack.1.2.1⟩

/-- What is true of the value that a call puts into a slot in one way or another is true of it
together. -/
theorem Places.and (hP : Places call P) (hQ : Places call Q) :
    Places call fun value => P value ∧ Q value := by
  intro w w' hfree hcall
  obtain ⟨value, hvalue, hfill⟩ := hP w w' hfree hcall
  obtain ⟨value', hvalue', hfill'⟩ := hQ w w' hfree hcall
  cases fill_injective hfree (hfill.symm.trans hfill')
  exact ⟨value, ⟨hvalue, hvalue'⟩, hfill⟩

/-- An array is put into the slot when what is written between its ends adds elements to it. -/
theorem Places.array {asSet : Bool} {calls : WriterM Unit} {R : List AttributeValue → Prop}
    (hcalls : ∀ (w w' : Writer) (inArray : Bool), calls (w.withArray asSet inArray []) = .ok () w' →
      ∃ elements, R elements ∧ w' = w.withArray asSet inArray elements)
    (hclose : ∀ inArray elements value, R elements →
      closeArray asSet inArray elements = .ok value → P value) :
    Places (do beginArray asSet; calls; endArray) P := by
  intro w w' hfree hcall
  simp only [unit_bind_eq_ok, beginArray_of_free hfree, EStateM.Result.ok.injEq, true_and,
    exists_eq_left'] at hcall
  obtain ⟨t, hwrite, hend⟩ := hcall
  obtain ⟨elements, helements, rfl⟩ := hcalls w t _ hwrite
  obtain ⟨value, hvalue, rfl⟩ := (endArray_eq_ok hfree).mp hend
  exact ⟨value, hclose _ elements value helements hvalue, rfl⟩

/-- An object is put into the slot when what is written between its ends adds members to it. -/
theorem Places.object {calls : WriterM Unit} {R : Item → Prop}
    (hcalls : ∀ (w w' : Writer) (outermost : Bool), calls (w.withObject outermost [] []) = .ok () w' →
      ∃ members pinned, R members ∧ w' = w.withObject outermost members pinned)
    (hclose : ∀ flags pinned outermost members, R members →
      P (.map (compactMembers flags pinned outermost members))) :
    Places (do beginObject; calls; endObject) P := by
  intro w w' hfree hcall
  simp only [unit_bind_eq_ok, beginObject_of_free hfree, EStateM.Result.ok.injEq, true_and,
    exists_eq_left'] at hcall
  obtain ⟨t, hwrite, hend⟩ := hcall
  obtain ⟨members, pinned, hmembers, rfl⟩ := hcalls w t _ hwrite
  rw [endObject_withObject hfree] at hend
  cases hend
  exact ⟨_, hclose _ pinned _ members hmembers, rfl⟩

end Writer

namespace Codec

variable {c : Codec}

/-! ### Converters and hooks -/

/-- Every converter puts one value into the slot that it writes into, or fails. -/
def ConvertersPlace (c : Codec) : Prop :=
  ∀ converter ∈ c.converters, ∀ value, Writer.Places (converter.write value) fun _ => True

/-- The converters that are always there write one leaf each. -/
theorem convertersPlace_of_builtins (h : c.converters = Converter.builtins) : c.ConvertersPlace := by
  intro converter hmem value
  rw [h] at hmem
  exact Writer.places_of_writesLeaf (Writer.writesLeaf_of_mem_builtins hmem value)

theorem places_illTyped (type : Ty) (P : AttributeValue → Prop) :
    Writer.Places (c.illTyped type) P := fun _ _ _ hcall => nomatch hcall

theorem places_writeLeaf (h : c.ConvertersPlace) (type : Ty) (value : Datum) :
    Writer.Places (c.writeLeaf type value) fun _ => True := by
  intro w w' hfree hcall
  unfold writeLeaf Converter.writeBy at hcall
  cases hfirst : Converter.first? c.converters type with
  | none =>
    rw [hfirst] at hcall
    cases hcall
  | some converter =>
    rw [hfirst] at hcall
    exact h converter (List.mem_of_find?_eq_some hfirst) _ w w' hfree hcall

theorem places_dynamic (value : Value) :
    Writer.Places (value.write c.options) fun _ => True := by
  intro w w' hfree hcall
  have houtcome := Writer.outcome_eq_ok.mpr hcall
  rw [Value.outcome_write c.options value hfree, except_map_eq_ok] at houtcome
  obtain ⟨piece, -, hfill⟩ := houtcome
  exact ⟨piece, trivial, hfill.symm⟩

theorem writeHooked_of_nil {f : Field} (h : f.onWrite = []) (call : WriterM Unit) :
    writeHooked f call = call := by
  unfold writeHooked
  rw [h]
  rfl

/-- What hooks make of a member is one value, too. -/
theorem places_writeHooked (f : Field) {call : WriterM Unit}
    (h : Writer.Places call fun _ => True) : Writer.Places (writeHooked f call) fun _ => True := by
  unfold writeHooked
  cases f.onWrite.isEmpty with
  | true => exact h
  | false =>
    intro w w' hfree hcall
    cases hvalue : hooked f.onWrite call with
    | error e =>
      rw [hvalue] at hcall
      cases hcall
    | ok value =>
      rw [hvalue] at hcall
      exact Writer.Places.write trivial w w' hfree hcall

/-! ### Parts of containers -/

section
variable {inner : Ty} {w w' : Writer} {outermost : Bool} {pinned : List String}

/-- Each item of a list adds one element to the open array. -/
theorem writeItems_adds {items : List Datum} {P : Datum → AttributeValue → Prop}
    (h : ∀ item ∈ items, Writer.Places (c.write inner item) (P item)) {asSet inArray : Bool}
    {position : Nat} {elements : List AttributeValue}
    (hwrite : c.writeItems inner position items (w.withArray asSet inArray elements) = .ok () w') :
    ∃ values, List.Forall₂ P items values ∧
      w' = w.withArray asSet inArray (elements ++ values) := by
  induction items generalizing position elements with
  | nil =>
    rw [writeItems, pure_eq_ok] at hwrite
    obtain ⟨-, rfl⟩ := hwrite
    exact ⟨[], .nil, by rw [List.append_nil]⟩
  | cons item rest ih =>
    rw [writeItems, unit_bind_eq_ok] at hwrite
    obtain ⟨t, hitem, hrest⟩ := hwrite
    rw [Writer.inside_eq_ok] at hitem
    obtain ⟨value, hvalue, rfl⟩ := h item List.mem_cons_self _ t rfl hitem
    obtain ⟨values, hvalues, rfl⟩ := ih (fun x hx => h x (List.mem_cons_of_mem item hx)) hrest
    refine ⟨value :: values, .cons hvalue hvalues, ?_⟩
    rw [← List.append_cons]

/-- The entries of a map add members to the open object. What holds of all that is written for the entries
holds of all members, if it held of those before. -/
theorem writeEntries_adds {entries : List (String × Datum)} {P : AttributeValue → Prop}
    (h : ∀ entry ∈ entries, Writer.Places (c.write inner entry.2) P) {members : Item}
    (hascending : members.Ascending)
    (hmembers : ∀ name value, members.get? name = some value → P value)
    (hwrite : c.writeEntries inner entries (w.withObject outermost members pinned) = .ok () w') :
    ∃ members', w' = w.withObject outermost members' pinned ∧ members'.Ascending ∧
      ∀ name value, members'.get? name = some value → P value := by
  induction entries generalizing members with
  | nil =>
    rw [writeEntries, pure_eq_ok] at hwrite
    exact ⟨members, hwrite.2.symm, hascending, hmembers⟩
  | cons entry rest ih =>
    obtain ⟨key, value⟩ := entry
    simp only [writeEntries, unit_bind_eq_ok, Writer.property, Writer.property_withObject,
      EStateM.Result.ok.injEq, true_and, exists_eq_left', Writer.inside_eq_ok] at hwrite
    obtain ⟨t, hvalue, hrest⟩ := hwrite
    obtain ⟨piece, hpiece, rfl⟩ := h (key, value) List.mem_cons_self _ t rfl hvalue
    rw [Writer.fill_withProperty] at hrest
    refine ih (fun x hx => h x (List.mem_cons_of_mem _ hx)) (hascending.insert key piece)
      (fun name found hfound => ?_) hrest
    rw [Fields.get?_insert] at hfound
    split at hfound
    · cases hfound
      exact hpiece
    · exact hmembers name found hfound

/-- A value that is written for a member of a document into an open object. -/
def WritesMember (c : Codec) (w : Writer) (outermost : Bool) (f : Field) (member : Datum)
    (value : AttributeValue) : Prop :=
  ∃ before pinned, writeHooked f (c.write f.type member)
      (w.withProperty outermost before pinned (c.storedName f) (isPinned f)) =
    .ok () ((w.withProperty outermost before pinned (c.storedName f) (isPinned f)).fill value)

/-- The first member of a document is left out, or a value is written under its name. -/
theorem writeMembers_cons {f : Field} {fields : List Field} {value : Datum} {values : List Datum}
    (h : Writer.Places (c.write f.type value) fun _ => True) {written : Item}
    (hwrite : c.writeMembers (f :: fields) (value :: values)
      (w.withObject outermost written pinned) = .ok () w') :
    (c.keepsMember f value = false ∧
        c.writeMembers fields values (w.withObject outermost written pinned) = .ok () w') ∨
      c.keepsMember f value = true ∧ ∃ piece, c.WritesMember w outermost f value piece ∧
        c.writeMembers fields values (w.withObject outermost (written.insert (c.storedName f) piece)
          (if isPinned f then c.storedName f :: pinned else pinned)) = .ok () w' := by
  rw [writeMembers, unit_bind_eq_ok] at hwrite
  simp only [Writer.inside_eq_ok] at hwrite
  obtain ⟨t, hvalue, hwrites⟩ := hwrite
  split at hvalue
  · rename_i hkeeps
    simp only [unit_bind_eq_ok, Writer.property_withObject, EStateM.Result.ok.injEq, true_and,
      exists_eq_left'] at hvalue
    obtain ⟨piece, -, rfl⟩ := places_writeHooked f h _ t rfl hvalue
    rw [Writer.fill_withProperty] at hwrites
    exact .inr ⟨hkeeps, piece, ⟨written, pinned, hvalue⟩, hwrites⟩
  · rename_i hleft
    rw [pure_eq_ok] at hvalue
    obtain ⟨-, rfl⟩ := hvalue
    exact .inl ⟨Bool.eq_false_iff.mpr hleft, hwrites⟩

/-- No member that is written is stored under the name. -/
def WritesNothingUnder (c : Codec) (name : String) (fields : List Field) (members : List Datum) :
    Prop :=
  ∀ member ∈ fields.zip members,
    c.keepsMember member.1 member.2 = true → c.storedName member.1 ≠ name

/-- Where no field has a member nothing is written. -/
theorem eq_of_writeMembers_nil {fields : List Field} {members : List Datum}
    (hnone : fields.zip members = []) {w w' : Writer}
    (hwrite : c.writeMembers fields members w = .ok () w') : w = w' := by
  cases members with
  | nil =>
    cases fields <;> exact (pure_eq_ok.mp hwrite).2
  | cons value values =>
    cases fields with
    | nil => exact (pure_eq_ok.mp hwrite).2
    | cons f fields => cases hnone

/-- The members of a document add to the open object. Under a name of which none of them is written,
it holds what it held before. -/
theorem writeMembers_adds {fields : List Field} {members : List Datum}
    (h : ∀ member ∈ fields.zip members,
      Writer.Places (c.write member.1.type member.2) fun _ => True) {written : Item}
    (hascending : written.Ascending)
    (hwrite : c.writeMembers fields members (w.withObject outermost written pinned) = .ok () w') :
    ∃ written' pinned', w' = w.withObject outermost written' pinned' ∧ written'.Ascending ∧
      ∀ name, c.WritesNothingUnder name fields members →
        written'.get? name = written.get? name := by
  induction fields generalizing members written pinned with
  | nil =>
    exact ⟨written, pinned, (eq_of_writeMembers_nil rfl hwrite).symm, hascending, fun _ _ => rfl⟩
  | cons f fields ih =>
    cases members with
    | nil =>
      exact ⟨written, pinned, (eq_of_writeMembers_nil rfl hwrite).symm, hascending, fun _ _ => rfl⟩
    | cons value values =>
      have hothers : ∀ member ∈ fields.zip values,
          Writer.Places (c.write member.1.type member.2) fun _ => True :=
        fun member hmember => h member (List.mem_cons_of_mem _ hmember)
      have hrest : ∀ name, c.WritesNothingUnder name (f :: fields) (value :: values) →
          c.WritesNothingUnder name fields values :=
        fun name hnothing member hmember => hnothing member (List.mem_cons_of_mem _ hmember)
      rcases writeMembers_cons (h (f, value) List.mem_cons_self) hwrite with
        ⟨-, hwrites⟩ | ⟨hkeeps, piece, -, hwrites⟩
      · obtain ⟨written', pinned', hw', hascending', hsame⟩ := ih hothers hascending hwrites
        exact ⟨written', pinned', hw', hascending', fun name hnothing =>
          hsame name (hrest name hnothing)⟩
      · obtain ⟨written', pinned', hw', hascending', hsame⟩ :=
          ih hothers (hascending.insert _ piece) hwrites
        refine ⟨written', pinned', hw', hascending', fun name hnothing => ?_⟩
        rw [hsame name (hrest name hnothing), Fields.get?_insert,
          if_neg (hnothing (f, value) List.mem_cons_self hkeeps).symm]

/-- The value that is written under a name for the last of the members that are written under it. -/
inductive WritesLast (c : Codec) (w : Writer) (outermost : Bool) (name : String)
    (value : AttributeValue) : List Field → List Datum → Prop
  | last {f : Field} {member : Datum} {fields : List Field} {members : List Datum}
      (kept : c.keepsMember f member = true) (named : c.storedName f = name)
      (written : c.WritesMember w outermost f member value)
      (after : c.WritesNothingUnder name fields members) :
      WritesLast c w outermost name value (f :: fields) (member :: members)
  | later {f : Field} {member : Datum} {fields : List Field} {members : List Datum}
      (rest : WritesLast c w outermost name value fields members) :
      WritesLast c w outermost name value (f :: fields) (member :: members)

theorem WritesLast.mem_names {name : String} {value : AttributeValue} {fields : List Field}
    {members : List Datum} (h : c.WritesLast w outermost name value fields members) :
    name ∈ fields.map c.storedName := by
  induction h with
  | last _ named _ _ => exact List.mem_cons.mpr (.inl named.symm)
  | later _ ih => exact List.mem_cons_of_mem _ ih

/-- It is written for a member with the name. -/
theorem WritesLast.exists_member {name : String} {value : AttributeValue} {fields : List Field}
    {members : List Datum} (h : c.WritesLast w outermost name value fields members) :
    ∃ member ∈ fields.zip members, c.keepsMember member.1 member.2 = true ∧
      c.storedName member.1 = name ∧ c.WritesMember w outermost member.1 member.2 value := by
  induction h with
  | last kept named written _ => exact ⟨_, List.mem_cons_self, kept, named, written⟩
  | later _ ih =>
    obtain ⟨member, hmember, hwritten⟩ := ih
    exact ⟨member, List.mem_cons_of_mem _ hmember, hwritten⟩

/-- Where all names are different, it is written for the one member with the name. -/
theorem WritesLast.writesMember {name : String} {value : AttributeValue} {fields : List Field}
    {members : List Datum} (h : c.WritesLast w outermost name value fields members)
    (hnames : (fields.map c.storedName).Nodup) {member : Field × Datum}
    (hmember : member ∈ fields.zip members) (hname : c.storedName member.1 = name) :
    c.WritesMember w outermost member.1 member.2 value := by
  induction h with
  | last _ named written _ =>
    rw [List.map_cons, List.nodup_cons] at hnames
    rcases List.mem_cons.mp hmember with rfl | hmember
    · exact written
    · refine (hnames.1 ?_).elim
      rw [named, ← hname]
      exact List.mem_map_of_mem (List.of_mem_zip hmember).1
  | later rest ih =>
    rw [List.map_cons, List.nodup_cons] at hnames
    rcases List.mem_cons.mp hmember with rfl | hmember
    · exact (hnames.1 (hname ▸ rest.mem_names)).elim
    · exact ih hnames.2 hmember

/-- Under a name that some member is written under, the object holds in the end what is written last. -/
theorem exists_writesLast {fields : List Field} {members : List Datum}
    (h : ∀ member ∈ fields.zip members,
      Writer.Places (c.write member.1.type member.2) fun _ => True) {written written' : Item}
    {pinned' : List String} (hascending : written.Ascending)
    (hwrite : c.writeMembers fields members (w.withObject outermost written pinned) =
      .ok () (w.withObject outermost written' pinned'))
    {name : String} (hname : ¬ c.WritesNothingUnder name fields members) :
    ∃ value, written'.get? name = some value ∧
      c.WritesLast w outermost name value fields members := by
  induction fields generalizing members written pinned with
  | nil => exact (hname nofun).elim
  | cons f fields ih =>
    cases members with
    | nil => exact (hname nofun).elim
    | cons value values =>
      have hothers : ∀ member ∈ fields.zip values,
          Writer.Places (c.write member.1.type member.2) fun _ => True :=
        fun member hmember => h member (List.mem_cons_of_mem _ hmember)
      rcases writeMembers_cons (h (f, value) List.mem_cons_self) hwrite with
        ⟨hleft, hwrites⟩ | ⟨hkeeps, piece, hpiece, hwrites⟩
      · have hrest : ¬ c.WritesNothingUnder name fields values := by
          refine fun hnothing => hname (List.forall_mem_cons.mpr ⟨fun hkept => ?_, hnothing⟩)
          rw [hleft] at hkept
          cases hkept
        obtain ⟨last, hget, hlast⟩ := ih hothers hascending hwrites hrest
        exact ⟨last, hget, .later hlast⟩
      · have hnext := hascending.insert (c.storedName f) piece
        by_cases hrest : c.WritesNothingUnder name fields values
        · -- The members after this one leave what has been written for it.
          have hnamed : c.storedName f = name := by
            by_contra hne
            exact hname (List.forall_mem_cons.mpr ⟨fun _ => hne, hrest⟩)
          obtain ⟨final, pins, heq, -, hsame⟩ := writeMembers_adds hothers hnext hwrites
          refine ⟨piece, ?_, .last hkeeps hnamed hpiece hrest⟩
          rw [(Writer.withObject_injective heq).1, hsame name hrest, Fields.get?_insert,
            if_pos hnamed.symm]
        · obtain ⟨last, hget, hlast⟩ := ih hothers hnext hwrites hrest
          exact ⟨last, hget, .later hlast⟩

/-- Under the name of a member that is written, the object holds in the end what is written for it, as
no other member has the name. -/
theorem get?_of_writeMembers {fields : List Field} {members : List Datum}
    (h : ∀ member ∈ fields.zip members,
      Writer.Places (c.write member.1.type member.2) fun _ => True)
    (hnames : (fields.map c.storedName).Nodup) {written written' : Item} {pinned' : List String}
    (hascending : written.Ascending)
    (hwrite : c.writeMembers fields members (w.withObject outermost written pinned) =
      .ok () (w.withObject outermost written' pinned'))
    {member : Field × Datum} (hmember : member ∈ fields.zip members)
    (hkeeps : c.keepsMember member.1 member.2 = true) :
    ∃ value, written'.get? (c.storedName member.1) = some value ∧
      c.WritesMember w outermost member.1 member.2 value := by
  obtain ⟨value, hget, hlast⟩ := exists_writesLast h hascending hwrite
    fun hnothing => hnothing member hmember hkeeps rfl
  exact ⟨value, hget, hlast.writesMember hnames hmember rfl⟩

/-- A member that is written under the name is to stay whatever it holds. -/
def PinsName (c : Codec) (name : String) (fields : List Field) (members : List Datum) : Prop :=
  ∃ member ∈ fields.zip members,
    c.keepsMember member.1 member.2 = true ∧ isPinned member.1 = true ∧ c.storedName member.1 = name

/-- The names that the members of a document pin are those of the written members that are to stay. -/
theorem mem_pinned_of_writeMembers {fields : List Field} {members : List Datum}
    (h : ∀ member ∈ fields.zip members,
      Writer.Places (c.write member.1.type member.2) fun _ => True) {written written' : Item}
    {pinned' : List String}
    (hwrite : c.writeMembers fields members (w.withObject outermost written pinned) =
      .ok () (w.withObject outermost written' pinned')) (name : String) :
    name ∈ pinned' ↔ name ∈ pinned ∨ c.PinsName name fields members := by
  induction fields generalizing members written pinned with
  | nil =>
    obtain ⟨-, rfl⟩ := Writer.withObject_injective (eq_of_writeMembers_nil rfl hwrite)
    simp [PinsName]
  | cons f fields ih =>
    cases members with
    | nil =>
      obtain ⟨-, rfl⟩ := Writer.withObject_injective (eq_of_writeMembers_nil rfl hwrite)
      simp [PinsName]
    | cons value values =>
      have hothers : ∀ member ∈ fields.zip values,
          Writer.Places (c.write member.1.type member.2) fun _ => True :=
        fun member hmember => h member (List.mem_cons_of_mem _ hmember)
      have hcons : c.PinsName name (f :: fields) (value :: values) ↔
          (c.keepsMember f value = true ∧ isPinned f = true ∧ c.storedName f = name) ∨
            c.PinsName name fields values := by
        rw [PinsName, List.zip_cons_cons, List.exists_mem_cons_iff]
        rfl
      rw [hcons]
      rcases writeMembers_cons (h (f, value) List.mem_cons_self) hwrite with
        ⟨hleft, hwrites⟩ | ⟨hkeeps, piece, -, hwrites⟩
      · rw [ih hothers hwrites, hleft]
        simp
      · rw [ih hothers hwrites, hkeeps]
        cases isPinned f with
        | true => simp [eq_comm, or_comm, or_left_comm]
        | false => simp

end

/-! ### Documents -/

/-- A document becomes a map. If it has a discriminator that is not empty, and no member is written
where it stands, the map holds it. -/
theorem places_document {d : Document} {members : List Datum}
    (h : ∀ member ∈ d.fields.zip members,
      Writer.Places (c.write member.1.type member.2) fun _ => True)
    (discriminator : Option String) :
    Writer.Places
      (do c.beginDocument d discriminator; c.writeMembers d.fields members; Writer.endObject)
      fun stored => ∃ fields : Item, stored = .map fields ∧
        ∀ text, discriminator = some text → text ≠ "" →
          c.WritesNothingUnder c.options.typeDiscriminator d.fields members →
            fields.get? c.options.typeDiscriminator = some (.text text) := by
  cases hcheck : d.check with
  | error e =>
    intro w w' hfree hcall
    simp [unit_bind_eq_ok, beginDocument, hcheck] at hcall
  | ok u =>
    have hobject := @Writer.Places.object (fun stored => ∃ fields : Item, stored = .map fields ∧
        ∀ text, discriminator = some text → text ≠ "" →
          c.WritesNothingUnder c.options.typeDiscriminator d.fields members →
            fields.get? c.options.typeDiscriminator = some (.text text))
      (do c.writeTag discriminator; c.writeMembers d.fields members)
      (fun written => written.Ascending ∧ ∀ text, discriminator = some text → text ≠ "" →
        c.WritesNothingUnder c.options.typeDiscriminator d.fields members →
          written.get? c.options.typeDiscriminator = some (.text text))
      (fun w w' outermost hwrite => ?_) (fun flags pinned outermost written hwritten => ?_)
    · rw [beginDocument_of_check hcheck, bind_assoc]
      simp only [bind_assoc] at hobject
      exact hobject
    · simp only [unit_bind_eq_ok, writeTag_withObject, EStateM.Result.ok.injEq, true_and,
        exists_eq_left'] at hwrite
      obtain ⟨written, pinned, rfl, hascending, hsame⟩ :=
        writeMembers_adds h (Fields.ascending_ofList _) hwrite
      refine ⟨written, pinned, ⟨hascending, fun text htext hne hnothing => ?_⟩, rfl⟩
      rw [hsame _ hnothing, htext]
      change Fields.get? [(c.options.typeDiscriminator, textPiece text)] _ = _
      rw [Fields.get?_cons, if_pos rfl, textPiece,
        if_neg fun hempty => hne (String.isEmpty_iff.mp hempty)]
    · refine ⟨_, rfl, fun text htext hne hnothing => ?_⟩
      rw [Writer.compactMembers, Fields.get?_filter hwritten.1, hwritten.2 text htext hne hnothing]
      refine Option.filter_some_pos ?_
      rw [Bool.or_eq_true]
      exact .inr (WriteFlags.keeps_of_not_isVoid _ rfl)

/-! ### Values -/

mutual
/-- A value of any type fills the slot that it is written into, or is not written. -/
theorem places_write (h : c.ConvertersPlace) (type : Ty) (value : Datum) :
    Writer.Places (c.write type value) fun _ => True := by
  cases type with
  | scalar type =>
    rw [write]
    exact places_writeLeaf h _ _
  | foreign name =>
    rw [write]
    exact places_writeLeaf h _ _
  | enumeration type =>
    cases value with
    | enumeration number =>
      rw [write, EnumType.write_eq]
      exact .write trivial
    | _ => exact places_illTyped _ _
  | option inner =>
    cases value with
    | absent =>
      rw [write]
      exact .write trivial
    | present value =>
      rw [write]
      exact places_write h inner value
    | _ => exact places_illTyped _ _
  | boxed inner =>
    cases value with
    | boxed value =>
      rw [write]
      exact places_write h inner value
    | _ => exact places_illTyped _ _
  | list inner =>
    cases value with
    | list items =>
      rw [write]
      exact .array (fun w w' inArray hwrite => (writeItems_adds (places_writeItem h inner items)
        hwrite).imp fun _ hvalues => hvalues) fun _ _ _ _ _ => trivial
    | _ => exact places_illTyped _ _
  | set hashed inner =>
    cases value with
    | list items =>
      rw [write]
      exact .array (fun w w' inArray hwrite => (writeItems_adds (places_writeItem h inner items)
        hwrite).imp fun _ hvalues => hvalues) fun _ _ _ _ _ => trivial
    | _ => exact places_illTyped _ _
  | map hashed inner =>
    cases value with
    | map entries =>
      rw [write]
      refine .object (R := fun _ => True) (fun w w' outermost hwrite => ?_) fun _ _ _ _ _ => trivial
      obtain ⟨members, rfl, -, -⟩ := writeEntries_adds (places_writeEntry h inner entries) .nil
        (fun _ _ _ => trivial) hwrite
      exact ⟨members, [], trivial, rfl⟩
    | _ => exact places_illTyped _ _
  | document id =>
    cases value with
    | document members =>
      rw [write]
      exact (places_document (places_writeMember h (c.documents id).fields members) none).imp
        fun _ _ => trivial
    | _ => exact places_illTyped _ _
  | oneOf name variants =>
    cases value with
    | variant variant members =>
      rw [write]
      cases variants.lookup variant with
      | none => exact places_illTyped _ _
      | some id =>
        exact (places_document (places_writeMember h (c.documents id).fields members) _).imp
          fun _ _ => trivial
    | _ => exact places_illTyped _ _
  | dynamic =>
    cases value with
    | dynamic value =>
      rw [write]
      exact places_dynamic value
    | _ => exact places_illTyped _ _
  | stored =>
    cases value with
    | stored value =>
      rw [write]
      exact .write trivial
    | _ => exact places_illTyped _ _

theorem places_writeItem (h : c.ConvertersPlace) (inner : Ty) (items : List Datum) :
    ∀ item ∈ items, Writer.Places (c.write inner item) fun _ => True := by
  cases items with
  | nil => nofun
  | cons item rest =>
    intro x hx
    rcases List.mem_cons.mp hx with heq | hx
    · rw [heq]
      exact places_write h inner item
    · exact places_writeItem h inner rest x hx

theorem places_writeEntry (h : c.ConvertersPlace) (inner : Ty) (entries : List (String × Datum)) :
    ∀ entry ∈ entries, Writer.Places (c.write inner entry.2) fun _ => True := by
  cases entries with
  | nil => nofun
  | cons entry rest =>
    obtain ⟨key, value⟩ := entry
    intro x hx
    rcases List.mem_cons.mp hx with heq | hx
    · rw [heq]
      exact places_write h inner value
    · exact places_writeEntry h inner rest x hx

theorem places_writeMember (h : c.ConvertersPlace) (fields : List Field) (members : List Datum) :
    ∀ member ∈ fields.zip members,
      Writer.Places (c.write member.1.type member.2) fun _ => True := by
  cases members with
  | nil =>
    rw [List.zip_nil_right]
    nofun
  | cons value values =>
    cases fields with
    | nil => nofun
    | cons f fields =>
      intro x hx
      rcases List.mem_cons.mp hx with heq | hx
      · rw [heq]
        exact places_write h f.type value
      · exact places_writeMember h fields values x hx
end

/-- A document that is written is declared without faults, and the slot is filled with the object that its
members are written into. -/
theorem exists_written_of_write (h : c.ConvertersPlace) {id : DocumentId} {members : List Datum}
    {w w' : Writer} (hfree : w.checkSlot = .ok ())
    (hwrite : c.write (.document id) (.document members) w = .ok () w') :
    (c.documents id).check = .ok () ∧ ∃ written pinned,
      c.writeMembers (c.documents id).fields members
          (w.withObject (w.stack.isEmpty && !w.nested) [] []) =
        .ok () (w.withObject (w.stack.isEmpty && !w.nested) written pinned) ∧
      written.Ascending ∧
      (∀ name, c.WritesNothingUnder name (c.documents id).fields members → written.get? name = none) ∧
      w' = w.fill (.map
        (Writer.compactMembers w.flags pinned (w.stack.isEmpty && !w.nested) written)) := by
  rw [write] at hwrite
  cases hcheck : (c.documents id).check with
  | error e => simp [unit_bind_eq_ok, beginDocument, hcheck] at hwrite
  | ok u =>
    rw [beginDocument_of_check hcheck] at hwrite
    simp only [bind_assoc, unit_bind_eq_ok, Writer.beginObject_of_free hfree, writeTag, pure_eq_ok,
      EStateM.Result.ok.injEq, true_and, exists_eq_left'] at hwrite
    obtain ⟨t, hmembers, hend⟩ := hwrite
    obtain ⟨written, pinned, rfl, hascending, hsame⟩ :=
      writeMembers_adds (places_writeMember h _ _) .nil hmembers
    rw [Writer.endObject_withObject hfree] at hend
    cases hend
    exact ⟨rfl, written, pinned, hmembers, hascending, hsame, rfl⟩

end Codec

end ItemMapper
