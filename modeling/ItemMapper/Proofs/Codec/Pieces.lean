import Mathlib.Data.List.Forall2
import ItemMapper.Proofs.Codec.Scalars
import ItemMapper.Proofs.Values.Fields
import ItemMapper.Proofs.Writer.Slots

/-!
# What values are stored as

Writing a value into a writer is filling one slot with its piece: the attribute value that it is
stored as inside another one. The pieces of containers are made of the pieces of what they hold.

## Main definitions

* `Codec.piece?`: the piece of a value.
* `Codec.memberPieces?`: the members of a document that are written, with their pieces.

## Main statements

* `Codec.fills_write`: a value of a plain type fills its slot with its piece.
* `Codec.writeMembers_eq_ok`: the members of a document add their pieces to the open object.
-/

namespace ItemMapper

/-! ### Lists in step -/

theorem exists_of_mem_right {α β : Type} {R : α → β → Prop} {xs : List α} {ys : List β}
    (h : List.Forall₂ R xs ys) {y : β} (hy : y ∈ ys) : ∃ x ∈ xs, R x y := by
  induction h with
  | nil => cases hy
  | @cons x y' xs ys hxy _ ih =>
    rcases List.mem_cons.mp hy with rfl | hy
    · exact ⟨x, List.mem_cons_self, hxy⟩
    · obtain ⟨x', hx', hR⟩ := ih hy
      exact ⟨x', List.mem_cons_of_mem _ hx', hR⟩

/-- Answers to each element of a list, as a list in step with it. -/
theorem exists_forall₂_of_forall_exists {α β : Type} {R : α → β → Prop} {xs : List α}
    (h : ∀ x ∈ xs, ∃ y, R x y) : ∃ ys, List.Forall₂ R xs ys := by
  induction xs with
  | nil => exact ⟨[], .nil⟩
  | cons x xs ih =>
    obtain ⟨y, hy⟩ := h x List.mem_cons_self
    obtain ⟨ys, hys⟩ := ih fun z hz => h z (List.mem_cons_of_mem x hz)
    exact ⟨y :: ys, .cons hy hys⟩

/-- Answers to each of two lists in step, as a third list in step with both. -/
theorem exists_forall₂ {α β γ : Type} {P : α → γ → Prop} {Q : γ → β → Prop} {xs : List α}
    {ys : List β} (h : List.Forall₂ (fun x y => ∃ z, P x z ∧ Q z y) xs ys) :
    ∃ zs, List.Forall₂ P xs zs ∧ List.Forall₂ Q zs ys := by
  induction h with
  | nil => exact ⟨[], .nil, .nil⟩
  | cons hxy _ ih =>
    obtain ⟨z, hP, hQ⟩ := hxy
    obtain ⟨zs, hPs, hQs⟩ := ih
    exact ⟨z :: zs, .cons hP hPs, .cons hQ hQs⟩

/-- Two lists that are in step with a third one are in step with each other. -/
theorem forall₂_of_steps {α β γ : Type} {P : α → γ → Prop} {Q : γ → β → Prop} {xs : List α}
    {zs : List γ} {ys : List β} (hP : List.Forall₂ P xs zs) (hQ : List.Forall₂ Q zs ys) :
    List.Forall₂ (fun x y => ∃ z, P x z ∧ Q z y) xs ys := by
  induction hP generalizing ys with
  | nil =>
    cases hQ
    exact .nil
  | cons hxz _ ih =>
    cases hQ with
    | cons hzy hrest => exact .cons ⟨_, hxz, hzy⟩ (ih hrest)

/-- Elements in step are related in another way if this is so of each two of the lists. -/
theorem forall₂_imp_of_mem {α β : Type} {R S : α → β → Prop} {xs : List α} {ys : List β}
    (h : List.Forall₂ R xs ys) (himp : ∀ x ∈ xs, ∀ y ∈ ys, R x y → S x y) :
    List.Forall₂ S xs ys :=
  List.forall₂_iff_zip.mpr ⟨h.length_eq, fun hmem =>
    himp _ (List.of_mem_zip hmem).1 _ (List.of_mem_zip hmem).2 (List.forall₂_zip h hmem)⟩

/-- What is true of any two elements of a list in their order, of any two of a list in step with it. -/
theorem pairwise_of_forall₂ {α β : Type} {R : α → β → Prop} {S : β → β → Prop} {T : α → α → Prop}
    {xs : List α} {ys : List β} (h : List.Forall₂ R xs ys) (hys : ys.Pairwise S)
    (himp : ∀ x y x' y', R x y → R x' y' → S y y' → T x x') : xs.Pairwise T := by
  induction h with
  | nil => exact .nil
  | @cons x y xs ys hxy hrest ih =>
    obtain ⟨hy, hys⟩ := List.pairwise_cons.mp hys
    refine List.pairwise_cons.mpr ⟨fun x' hx' => ?_, ih hys⟩
    obtain ⟨y', hy', hxy'⟩ := exists_of_mem_right hrest.flip hx'
    exact himp x y x' y' hxy hxy' (hy y' hy')

/-- Elements of two lists at one place stand together when the lists are zipped. -/
theorem getElem_mem_zip {α β : Type} {xs : List α} {ys : List β} {i : Nat} (hx : i < xs.length)
    (hy : i < ys.length) : (xs[i], ys[i]) ∈ xs.zip ys := by
  have hi : i < (xs.zip ys).length := List.length_zip.symm ▸ Nat.lt_min.mpr ⟨hx, hy⟩
  have hmem := List.getElem_mem hi
  rwa [List.getElem_zip] at hmem

theorem getElem_mem_zip_zip {α β γ : Type} {xs : List α} {ys : List β} {zs : List γ} {i : Nat}
    (hx : i < xs.length) (hy : i < ys.length) (hz : i < zs.length) :
    (xs[i], ys[i], zs[i]) ∈ xs.zip (ys.zip zs) := by
  have hi : i < (ys.zip zs).length := List.length_zip.symm ▸ Nat.lt_min.mpr ⟨hy, hz⟩
  have hmem := getElem_mem_zip hx hi
  rwa [List.getElem_zip] at hmem

theorem zip_self {α : Type} (xs : List α) : xs.zip xs = xs.map fun x => (x, x) := by
  rw [List.zip_eq_zipWith, List.zipWith_self]

theorem forall_mem_zip_self {α : Type} {p : α × α → Prop} {xs : List α} :
    (∀ pair ∈ xs.zip xs, p pair) ↔ ∀ x ∈ xs, p (x, x) := by
  rw [zip_self]
  exact List.forall_mem_map

theorem forall_mem_zip_zip_self {α β : Type} {p : α × β × β → Prop} {xs : List α} {ys : List β} :
    (∀ triple ∈ xs.zip (ys.zip ys), p triple) ↔ ∀ pair ∈ xs.zip ys, p (pair.1, pair.2, pair.2) := by
  rw [zip_self, List.zip_map_right]
  exact List.forall_mem_map

namespace Codec

/-! ### Pieces -/

/-- The pieces of members under their stored names. -/
def named (c : Codec) (pieces : List (Field × AttributeValue)) : List (String × AttributeValue) :=
  pieces.map fun (f, piece) => (c.storedName f, piece)

/-- The names that are kept whatever they hold, after members have been written. -/
def pinnedBy (c : Codec) (pinned : List String) (pieces : List (Field × AttributeValue)) :
    List String :=
  pieces.foldl (fun pinned (f, _) => if isPinned f then c.storedName f :: pinned else pinned) pinned

/-- The discriminator of a document under its name, if there is one. -/
def tag (c : Codec) (discriminator : Option String) : List (String × AttributeValue) :=
  discriminator.toList.map fun text => (c.options.typeDiscriminator, textPiece text)

/-- What a document is stored as inside another value: its discriminator, if there is one, and the
pieces of its members, without those that are null or empty containers. -/
def objectPiece (c : Codec) (discriminator : Option String)
    (pieces : List (Field × AttributeValue)) : AttributeValue :=
  .map (Writer.compactMembers .none [] false (Fields.ofList (c.tag discriminator ++ c.named pieces)))

mutual
/-- The attribute value that a value is stored as inside another one, directly in an array or
elsewhere. -/
def piece? (c : Codec) (inArray : Bool) : Ty → Datum → Option AttributeValue
  | .option _, .absent => some (.null true)
  | .option inner, .present value => piece? c inArray inner value
  | .boxed inner, .boxed value => piece? c inArray inner value
  | .enumeration type, .enumeration number => some (type.piece c.options number)
  | .list inner, .list items =>
    (itemPieces? c inner items).bind fun pieces =>
      (Writer.closeArray false inArray pieces).toOption
  | .set _ inner, .list items =>
    (itemPieces? c inner items).bind fun pieces =>
      (Writer.closeArray true inArray pieces).toOption
  | .map _ inner, .map entries =>
    (entryPieces? c inner entries).map fun pieces =>
      .map (Writer.compactMembers .none [] false (Fields.ofList pieces))
  | .document id, .document members =>
    (c.documents id).check.toOption.bind fun _ =>
      (memberPieces? c (c.documents id).fields members).map (c.objectPiece none)
  | .oneOf _ variants, .variant variant members =>
    (variants.lookup variant).bind fun id =>
      (c.documents id).check.toOption.bind fun _ =>
        (memberPieces? c (c.documents id).fields members).map
          (c.objectPiece (c.discriminatorFor (c.info (.document id))))
  | .scalar type, value => type.piece? value
  | _, _ => none

/-- The pieces of the items of a list. -/
def itemPieces? (c : Codec) (inner : Ty) : List Datum → Option (List AttributeValue)
  | [] => some []
  | item :: rest => do
    let piece ← piece? c true inner item
    let pieces ← itemPieces? c inner rest
    pure (piece :: pieces)

/-- The pieces of the entries of a map. -/
def entryPieces? (c : Codec) (inner : Ty) :
    List (String × Datum) → Option (List (String × AttributeValue))
  | [] => some []
  | (key, value) :: rest => do
    let piece ← piece? c false inner value
    let pieces ← entryPieces? c inner rest
    pure ((key, piece) :: pieces)

/-- The members of a document that are written, with their pieces. -/
def memberPieces? (c : Codec) : List Field → List Datum → Option (List (Field × AttributeValue))
  | f :: fields, value :: values =>
    if c.keepsMember f value then do
      let piece ← piece? c false f.type value
      let pieces ← memberPieces? c fields values
      pure ((f, piece) :: pieces)
    else memberPieces? c fields values
  | _, _ => some []
end

variable {c : Codec} {inner : Ty}

theorem itemPieces?_eq_some {items : List Datum} {pieces : List AttributeValue} :
    c.itemPieces? inner items = some pieces ↔
      List.Forall₂ (fun item piece => c.piece? true inner item = some piece) items pieces := by
  induction items generalizing pieces with
  | nil => simp [itemPieces?, eq_comm]
  | cons item rest ih =>
    rw [itemPieces?, List.forall₂_cons_left_iff]
    simp only [Option.bind_eq_bind, Option.bind_eq_some_iff, Option.pure_def, Option.some.injEq, ih]
    constructor
    · rintro ⟨piece, hpiece, pieces, hpieces, rfl⟩
      exact ⟨piece, pieces, hpiece, hpieces, rfl⟩
    · rintro ⟨piece, pieces, hpiece, hpieces, rfl⟩
      exact ⟨piece, hpiece, pieces, hpieces, rfl⟩

theorem entryPieces?_eq_some {entries : List (String × Datum)}
    {pieces : List (String × AttributeValue)} :
    c.entryPieces? inner entries = some pieces ↔
      List.Forall₂ (fun entry piece => piece.1 = entry.1 ∧
        c.piece? false inner entry.2 = some piece.2) entries pieces := by
  induction entries generalizing pieces with
  | nil => simp [entryPieces?, eq_comm]
  | cons entry rest ih =>
    obtain ⟨key, value⟩ := entry
    rw [entryPieces?, List.forall₂_cons_left_iff]
    simp only [Option.bind_eq_bind, Option.bind_eq_some_iff, Option.pure_def, Option.some.injEq, ih]
    constructor
    · rintro ⟨piece, hpiece, pieces, hpieces, rfl⟩
      exact ⟨(key, piece), pieces, ⟨rfl, hpiece⟩, hpieces, rfl⟩
    · rintro ⟨⟨key', piece⟩, pieces, ⟨hkey, hpiece⟩, hpieces, rfl⟩
      cases hkey
      exact ⟨piece, hpiece, pieces, hpieces, rfl⟩

/-! ### Writing fills slots -/

/-- The items of a list add their pieces to the open array. -/
theorem writeItems_eq_ok {items : List Datum}
    (h : ∀ item ∈ items, Writer.Fills true (c.write inner item) (c.piece? true inner item))
    {asSet inArray : Bool} {position : Nat} {w w' : Writer} {elements : List AttributeValue} :
    c.writeItems inner position items (w.withArray asSet inArray elements) = .ok () w' ↔
      ∃ pieces, c.itemPieces? inner items = some pieces ∧
        w' = w.withArray asSet inArray (elements ++ pieces) := by
  induction items generalizing position elements with
  | nil =>
    rw [writeItems, pure_eq_ok]
    constructor
    · rintro ⟨-, rfl⟩
      exact ⟨[], rfl, by rw [List.append_nil]⟩
    · rintro ⟨pieces, ⟨⟩, rfl⟩
      rw [List.append_nil]
      exact ⟨rfl, rfl⟩
  | cons item rest ih =>
    have hitem := h item List.mem_cons_self
    have hrest := @ih fun x hx => h x (List.mem_cons_of_mem item hx)
    rw [writeItems, unit_bind_eq_ok]
    simp only [Writer.inside_eq_ok, hitem _ _ (Writer.withArray_within asSet elements),
      itemPieces?, Option.bind_eq_bind, Option.bind_eq_some_iff, Option.pure_def,
      Option.some.injEq]
    constructor
    · rintro ⟨t, ⟨piece, hpiece, rfl⟩, hwrite⟩
      obtain ⟨pieces, hpieces, rfl⟩ := hrest.mp hwrite
      refine ⟨piece :: pieces, ⟨piece, hpiece, pieces, hpieces, rfl⟩, ?_⟩
      rw [← List.append_cons]
    · rintro ⟨_, ⟨piece, hpiece, pieces, hpieces, rfl⟩, rfl⟩
      refine ⟨_, ⟨piece, hpiece, rfl⟩, hrest.mpr ⟨pieces, hpieces, ?_⟩⟩
      rw [← List.append_cons]

/-- The entries of a map add their pieces to the open object. -/
theorem writeEntries_eq_ok {entries : List (String × Datum)}
    (h : ∀ entry ∈ entries,
      Writer.Fills false (c.write inner entry.2) (c.piece? false inner entry.2))
    {outermost : Bool} {w w' : Writer} {members : Item} {pinned : List String} :
    c.writeEntries inner entries (w.withObject outermost members pinned) = .ok () w' ↔
      ∃ pieces, c.entryPieces? inner entries = some pieces ∧
        w' = w.withObject outermost (members.insertAll pieces) pinned := by
  induction entries generalizing members with
  | nil =>
    rw [writeEntries, pure_eq_ok]
    constructor
    · rintro ⟨-, rfl⟩
      exact ⟨[], rfl, rfl⟩
    · rintro ⟨pieces, ⟨⟩, rfl⟩
      exact ⟨rfl, rfl⟩
  | cons entry rest ih =>
    obtain ⟨key, value⟩ := entry
    have hvalue := h (key, value) List.mem_cons_self
    have hrest := @ih fun x hx => h x (List.mem_cons_of_mem _ hx)
    rw [writeEntries, unit_bind_eq_ok]
    simp only [Writer.property, Writer.property_withObject, EStateM.Result.ok.injEq, true_and,
      unit_bind_eq_ok, Writer.inside_eq_ok, entryPieces?, Option.bind_eq_bind, Option.bind_eq_some_iff,
      Option.pure_def, Option.some.injEq]
    constructor
    · rintro ⟨t, rfl, t', hwrite, hwrites⟩
      obtain ⟨piece, hpiece, rfl⟩ := (hvalue _ _ (Writer.withProperty_within ..)).mp hwrite
      rw [Writer.fill_withProperty] at hwrites
      obtain ⟨pieces, hpieces, rfl⟩ := hrest.mp hwrites
      exact ⟨_, ⟨piece, hpiece, pieces, hpieces, rfl⟩, rfl⟩
    · rintro ⟨_, ⟨piece, hpiece, pieces, hpieces, rfl⟩, rfl⟩
      refine ⟨_, rfl, _,
        (hvalue _ _ (Writer.withProperty_within ..)).mpr ⟨piece, hpiece, rfl⟩, ?_⟩
      rw [Writer.fill_withProperty]
      exact hrest.mpr ⟨pieces, hpieces, rfl⟩

/-- The members of a document add their pieces to the open object. -/
theorem writeMembers_eq_ok {fields : List Field} {members : List Datum}
    (hhooks : ∀ f ∈ fields, f.onWrite = [])
    (h : ∀ member ∈ fields.zip members, Writer.Fills false (c.write member.1.type member.2)
      (c.piece? false member.1.type member.2))
    {outermost : Bool} {w w' : Writer} {written : Item} {pinned : List String} :
    c.writeMembers fields members (w.withObject outermost written pinned) = .ok () w' ↔
      ∃ pieces, c.memberPieces? fields members = some pieces ∧
        w' = w.withObject outermost (written.insertAll (c.named pieces))
          (c.pinnedBy pinned pieces) := by
  induction fields generalizing members written pinned with
  | nil =>
    have hnone : c.memberPieces? [] members = some [] := by cases members <;> rfl
    rw [writeMembers, pure_eq_ok, hnone]
    · constructor
      · rintro ⟨-, rfl⟩
        exact ⟨[], rfl, rfl⟩
      · rintro ⟨pieces, ⟨⟩, rfl⟩
        exact ⟨rfl, rfl⟩
    · simp
  | cons f fields ih =>
    cases members with
    | nil =>
      rw [writeMembers, pure_eq_ok]
      · constructor
        · rintro ⟨-, rfl⟩
          exact ⟨[], rfl, rfl⟩
        · rintro ⟨pieces, ⟨⟩, rfl⟩
          exact ⟨rfl, rfl⟩
      · simp
    | cons value values =>
      have hvalue := h (f, value) List.mem_cons_self
      have hrest := fun {w} => @ih values (fun x hx => hhooks x (List.mem_cons_of_mem f hx))
        (fun x hx => h x (List.mem_cons_of_mem _ hx)) w
      rw [writeMembers, unit_bind_eq_ok]
      simp only [Writer.inside_eq_ok]
      rw [memberPieces?]
      by_cases hkeeps : c.keepsMember f value = true
      · rw [if_pos hkeeps, if_pos hkeeps]
        simp only [unit_bind_eq_ok, Writer.property_withObject, EStateM.Result.ok.injEq, true_and,
          writeHooked, hhooks f List.mem_cons_self, List.isEmpty_nil, Option.bind_eq_bind,
          Option.bind_eq_some_iff, Option.pure_def, Option.some.injEq]
        constructor
        · rintro ⟨t, ⟨t', rfl, hwrite⟩, hwrites⟩
          obtain ⟨piece, hpiece, rfl⟩ := (hvalue _ _ (Writer.withProperty_within ..)).mp hwrite
          rw [Writer.fill_withProperty] at hwrites
          obtain ⟨pieces, hpieces, rfl⟩ := hrest.mp hwrites
          exact ⟨_, ⟨piece, hpiece, pieces, hpieces, rfl⟩, rfl⟩
        · rintro ⟨_, ⟨piece, hpiece, pieces, hpieces, rfl⟩, rfl⟩
          refine ⟨_, ⟨_, rfl,
            (hvalue _ _ (Writer.withProperty_within ..)).mpr ⟨piece, hpiece, rfl⟩⟩, ?_⟩
          rw [Writer.fill_withProperty]
          exact hrest.mpr ⟨pieces, hpieces, rfl⟩
      · rw [if_neg hkeeps, if_neg hkeeps]
        simp only [pure_eq_ok, true_and, exists_eq_left']
        exact hrest

/-- Writes the discriminator of a document, if it has one. -/
def writeTag (c : Codec) : Option String → WriterM Unit
  | some text => do
    Writer.propertyWith c.options.typeDiscriminator true
    Writer.writeText text
  | none => pure ()

theorem beginDocument_of_check {d : Document} (h : d.check = .ok ()) (discriminator : Option String) :
    c.beginDocument d discriminator = (do Writer.beginObject; c.writeTag discriminator) := by
  funext w
  unfold beginDocument
  rw [h]
  cases discriminator <;> rfl

theorem writeTag_withObject (discriminator : Option String) (outermost : Bool) (w : Writer) :
    c.writeTag discriminator (w.withObject outermost [] []) =
      .ok () (w.withObject outermost (Fields.ofList (c.tag discriminator))
        (discriminator.toList.map fun _ => c.options.typeDiscriminator)) := by
  cases discriminator with
  | none => rfl
  | some text =>
    rw [writeTag, Writer.writeText_eq]
    rfl

/-- Between the ends of a document, its discriminator and its members add to the open object. -/
theorem writeTag_writeMembers_eq_ok {fields : List Field} {members : List Datum}
    (hhooks : ∀ f ∈ fields, f.onWrite = [])
    (h : ∀ member ∈ fields.zip members, Writer.Fills false (c.write member.1.type member.2)
      (c.piece? false member.1.type member.2))
    (discriminator : Option String) {outermost : Bool} {w w' : Writer} :
    (do c.writeTag discriminator; c.writeMembers fields members) (w.withObject outermost [] []) =
        .ok () w' ↔
      ∃ pieces, c.memberPieces? fields members = some pieces ∧
        w' = w.withObject outermost (Fields.ofList (c.tag discriminator ++ c.named pieces))
          (c.pinnedBy (discriminator.toList.map fun _ => c.options.typeDiscriminator) pieces) := by
  simp only [unit_bind_eq_ok, writeTag_withObject, EStateM.Result.ok.injEq, true_and,
    exists_eq_left', writeMembers_eq_ok hhooks h, Fields.insertAll_ofList]

/-- A document fills its slot with its piece. -/
theorem fills_document {d : Document} {members : List Datum} (hhooks : ∀ f ∈ d.fields, f.onWrite = [])
    (h : ∀ member ∈ d.fields.zip members, Writer.Fills false (c.write member.1.type member.2)
      (c.piece? false member.1.type member.2))
    (discriminator : Option String) (inArray : Bool) :
    Writer.Fills inArray
      (do c.beginDocument d discriminator; c.writeMembers d.fields members; Writer.endObject)
      (d.check.toOption.bind fun _ =>
        (c.memberPieces? d.fields members).map (c.objectPiece discriminator)) := by
  cases hcheck : d.check with
  | ok u =>
    rw [beginDocument_of_check hcheck, bind_assoc]
    have hobject : Writer.Fills inArray (do
        Writer.beginObject
        (do c.writeTag discriminator; c.writeMembers d.fields members)
        Writer.endObject) ((c.memberPieces? d.fields members).map (c.objectPiece discriminator)) :=
      .object fun w w' => writeTag_writeMembers_eq_ok hhooks h discriminator
    simp only [bind_assoc] at hobject
    exact hobject
  | error e =>
    intro w w' hw
    simp [unit_bind_eq_ok, beginDocument, hcheck, Except.toOption]

theorem fills_illTyped (type : Ty) (inArray : Bool) :
    Writer.Fills inArray (c.illTyped type) none :=
  fun _ _ _ => ⟨nofun, nofun⟩

variable {family : DocumentId → Prop}

mutual
/-- A value fills its slot with its piece, or is not written at all. -/
theorem fills_write (h : c.Restorable family) (type : Ty) (value : Datum)
    (htype : c.KeepsStored family type) (inArray : Bool) :
    Writer.Fills inArray (c.write type value) (c.piece? inArray type value) := by
  cases type with
  | scalar type =>
    intro w w' hw
    rw [write, writeLeaf_eq_ok h.converters, piece?]
    simp only [Writer.write_of_free hw.free, EStateM.Result.ok.injEq, true_and, eq_comm]
  | enumeration type =>
    cases value with
    | enumeration number =>
      rw [write, EnumType.write_eq, piece?]
      exact .write _
    | _ => exact fills_illTyped _ _
  | option inner =>
    cases value with
    | absent =>
      rw [write, piece?]
      exact .write _
    | present value =>
      rw [write, piece?]
      exact fills_write h inner value htype inArray
    | _ => exact fills_illTyped _ _
  | boxed inner =>
    cases value with
    | boxed value =>
      rw [write, piece?]
      exact fills_write h inner value htype inArray
    | _ => exact fills_illTyped _ _
  | list inner =>
    cases value with
    | list items =>
      rw [write, piece?]
      exact .array fun w w' => writeItems_eq_ok fun item hitem =>
        fills_writeItem h inner items htype item hitem
    | _ => exact fills_illTyped _ _
  | set hashed inner =>
    cases value with
    | list items =>
      rw [write, piece?]
      exact .array fun w w' => writeItems_eq_ok fun item hitem =>
        fills_writeItem h inner items htype item hitem
    | _ => exact fills_illTyped _ _
  | map hashed inner =>
    cases value with
    | map entries =>
      rw [write, piece?]
      exact .object fun w w' => writeEntries_eq_ok fun entry hentry =>
        fills_writeEntry h inner entries htype entry hentry
    | _ => exact fills_illTyped _ _
  | document id =>
    cases value with
    | document members =>
      rw [write, piece?]
      exact fills_document (h.onWrite id htype)
        (fills_writeMember h (c.documents id).fields members (h.types id htype)) none inArray
    | _ => exact fills_illTyped _ _
  | oneOf name variants =>
    cases value with
    | variant variant members =>
      rw [write, piece?]
      cases hlookup : variants.lookup variant with
      | none => exact fills_illTyped _ _
      | some id =>
        have hid : family id := htype.2 _ (mem_of_lookup hlookup)
        exact fills_document (h.onWrite id hid)
          (fills_writeMember h (c.documents id).fields members (h.types id hid)) _ inArray
    | _ => exact fills_illTyped _ _
  | dynamic => exact htype.elim
  | stored => exact htype.elim
  | foreign name => exact htype.elim

theorem fills_writeItem (h : c.Restorable family) (inner : Ty) (items : List Datum)
    (htype : c.KeepsStored family inner) :
    ∀ item ∈ items, Writer.Fills true (c.write inner item) (c.piece? true inner item) := by
  cases items with
  | nil => nofun
  | cons item rest =>
    intro x hx
    rcases List.mem_cons.mp hx with heq | hx
    · rw [heq]
      exact fills_write h inner item htype true
    · exact fills_writeItem h inner rest htype x hx

theorem fills_writeEntry (h : c.Restorable family) (inner : Ty) (entries : List (String × Datum))
    (htype : c.KeepsStored family inner) :
    ∀ entry ∈ entries,
      Writer.Fills false (c.write inner entry.2) (c.piece? false inner entry.2) := by
  cases entries with
  | nil => nofun
  | cons entry rest =>
    obtain ⟨key, value⟩ := entry
    intro x hx
    rcases List.mem_cons.mp hx with heq | hx
    · rw [heq]
      exact fills_write h inner value htype false
    · exact fills_writeEntry h inner rest htype x hx

theorem fills_writeMember (h : c.Restorable family) (fields : List Field) (members : List Datum)
    (htypes : ∀ f ∈ fields, c.KeepsStored family f.type) :
    ∀ member ∈ fields.zip members, Writer.Fills false (c.write member.1.type member.2)
      (c.piece? false member.1.type member.2) := by
  cases members with
  | nil =>
    rw [List.zip_nil_right]
    nofun
  | cons value values =>
    cases fields with
    | nil => nofun
    | cons f fields =>
      intro x hx
      rcases List.mem_cons.mp hx with heq | hx
      · rw [heq]
        exact fills_write h f.type value (htypes f List.mem_cons_self) false
      · exact fills_writeMember h fields values
          (fun f hf => htypes f (List.mem_cons_of_mem _ hf)) x hx
end

end Codec

end ItemMapper
