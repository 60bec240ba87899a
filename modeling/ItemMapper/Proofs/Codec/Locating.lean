import ItemMapper.Proofs.Codec.Variants
import ItemMapper.Proofs.Values.Places
import ItemMapper.Proofs.Wire.AttributeValue

/-!
# Errors of reading point at what failed

An error of reading has a path, which grows at its front while the error leaves one container after the
other. Followed from the root of the value that was read, the path leads to a part of it. What is expected
there is a value of some type, or the discriminator of a document among others, and reading the part alone
as what is expected fails for the same cause and without a path.

A converter of the application may refuse a value with a path of its own. Then the path of the error ends
with that one, which is all that is left of it where the part is read alone.

## Main definitions

* `Expected`, `Codec.Refuses`: what a part of a value is read as, and the error of that.
* `Codec.Expects`: what is expected at the end of a path.
* `Codec.Reaches`: the documents that are read as a part of a type.
* `Codec.PointsAt`: a path of an error that leads to a part that is refused.

## Main statements

* `Codec.path_eq_nil_of_builtins`: the converters that are always there refuse values without a path.
* `Codec.points_of_decode`: an error of reading points at a part of the value.
* `Codec.decode_error_points`: **an error of reading points at what failed**.
-/

namespace ItemMapper

/-! ### Errors of parts -/

section
variable {ε α β : Type}

theorem except_map_eq_error {x : Except ε α} {f : α → β} {e : ε} : x.map f = .error e ↔ x = .error e := by
  cases x with
  | ok a => exact iff_of_false nofun nofun
  | error e' => exact ⟨fun h => by cases h; rfl, fun h => by cases h; rfl⟩

theorem except_bind_eq_error {x : Except ε α} {f : α → Except ε β} {e : ε} :
    (x >>= f) = .error e ↔ x = .error e ∨ ∃ a, x = .ok a ∧ f a = .error e := by
  change Except.bind x f = _ ↔ _
  cases x with
  | ok a => simp [Except.bind]
  | error e' => simp [Except.bind]

end

theorem inside_eq_error {α : Type} {segment : PathSegment} {result : Except Error α} {e : Error} :
    inside segment result = .error e ↔ ∃ inner, result = .error inner ∧ inner.within segment = e := by
  unfold inside
  cases result with
  | ok x => simp [Except.mapError]
  | error e' => simp [Except.mapError]

namespace AttributeValue

variable {v part : AttributeValue} {segment : PathSegment}

theorem size_le_sizeItems {items : List AttributeValue} (h : part ∈ items) :
    part.size ≤ sizeItems items := by
  induction items with
  | nil => cases h
  | cons item rest ih =>
    rw [sizeItems]
    rcases List.mem_cons.mp h with rfl | h
    · omega
    · have hrest := ih h
      omega

theorem child?_index_eq_some {position : Nat} :
    v.child? (.index position) = some part ↔
      ∃ items, v.elements? = some items ∧ items[position]? = some part := Option.bind_eq_some_iff

theorem child?_field_eq_some {name : String} :
    v.child? (.field name) = some part ↔
      ∃ fields : Item, v.asMap? = some fields ∧ fields.get? name = some part := Option.bind_eq_some_iff

/-- A part is smaller than the whole. -/
theorem size_child?_lt (h : v.child? segment = some part) : part.size < v.size := by
  cases segment with
  | field name =>
    obtain ⟨fields, hfields, hpart⟩ := child?_field_eq_some.mp h
    have hle := size_get?_le hpart
    rw [size_asMap hfields]
    omega
  | index position =>
    obtain ⟨items, hitems, hpart⟩ := child?_index_eq_some.mp h
    exact Nat.lt_of_le_of_lt (size_le_sizeItems (List.mem_of_getElem? hpart)) (sizeItems_elements hitems)

theorem Ordered.child? (h : v.Ordered) (hchild : v.child? segment = some part) : part.Ordered := by
  cases segment with
  | field name =>
    obtain ⟨fields, hfields, hpart⟩ := child?_field_eq_some.mp hchild
    cases v with
    | map _ =>
      cases hfields
      exact fieldsOrdered_iff.mp h.2 _ (mem_of_lookup hpart)
    | _ => cases hfields
  | index position =>
    obtain ⟨items, hitems, hpart⟩ := child?_index_eq_some.mp hchild
    have hmem := List.mem_of_getElem? hpart
    cases v with
    | list _ =>
      cases hitems
      exact itemsOrdered_iff.mp h _ hmem
    | textSet _ | numberSet _ | binarySet _ =>
      cases hitems
      obtain ⟨_, -, rfl⟩ := List.mem_map.mp hmem
      trivial
    | _ => cases hitems

end AttributeValue

/-- What a part of a value is read as: a value of a type, or the discriminator of a document. -/
inductive Expected where
  | value (type : Ty)
  | discriminator

/-- The type of the parts of a container, or of what it holds. -/
def Ty.part? : Ty → Option Ty
  | .option inner | .boxed inner | .list inner | .set _ inner | .map _ inner => some inner
  | _ => none

namespace Codec

variable {c : Codec} {type inner : Ty} {v part : AttributeValue} {e : Error} {segment : PathSegment}

/-! ### What is expected -/

/-- The discriminator that an attribute value is. -/
def asDiscriminator : AttributeValue → Except Error String
  | .text variant => .ok variant
  | other => .error (Error.typeMismatch "type discriminator" other)

/-- The discriminator of a document is read at its place in the fields. -/
theorem readDiscriminator_eq (fields : Item) :
    c.readDiscriminator fields =
      match fields.get? c.options.typeDiscriminator with
      | some v => inside (.field c.options.typeDiscriminator) (asDiscriminator v)
      | none => .error (Cause.missingRequiredAttribute c.options.typeDiscriminator) := by
  rw [readDiscriminator]
  cases fields.get? c.options.typeDiscriminator with
  | none => rfl
  | some v => cases v <;> rfl

/-- Reading a value alone as what is expected fails. -/
def Refuses (c : Codec) (v : AttributeValue) (e : Error) : Expected → Prop
  | .value type => c.decode type v = .error e
  | .discriminator => asDiscriminator v = .error e

/-- What is expected at the end of a path when a value of a type is read: one case for each way into a
value. Options and pointers are no way into it. -/
inductive Expects (c : Codec) : Ty → AttributeValue → List PathSegment → Expected → Prop
  | here {type : Ty} {v : AttributeValue} : Expects c type v [] (.value type)
  | option {inner : Ty} {v : AttributeValue} {path : List PathSegment} {expected : Expected}
      (hsome : v.isAnyNull = false) (h : Expects c inner v path expected) :
      Expects c (.option inner) v path expected
  | boxed {inner : Ty} {v : AttributeValue} {path : List PathSegment} {expected : Expected}
      (h : Expects c inner v path expected) : Expects c (.boxed inner) v path expected
  | item {inner : Ty} {v part : AttributeValue} {position : Nat} {path : List PathSegment}
      {expected : Expected} (hpart : v.child? (.index position) = some part)
      (h : Expects c inner part path expected) :
      Expects c (.list inner) v (.index position :: path) expected
  | element {hashed : Bool} {inner : Ty} {v part : AttributeValue} {position : Nat}
      {path : List PathSegment} {expected : Expected}
      (hpart : v.child? (.index position) = some part) (h : Expects c inner part path expected) :
      Expects c (.set hashed inner) v (.index position :: path) expected
  | entry {hashed : Bool} {inner : Ty} {v part : AttributeValue} {key : String}
      {path : List PathSegment} {expected : Expected} (hpart : v.child? (.field key) = some part)
      (h : Expects c inner part path expected) :
      Expects c (.map hashed inner) v (.field key :: path) expected
  | member {id : DocumentId} {f : Field} {v part : AttributeValue} {path : List PathSegment}
      {expected : Expected} (hf : f ∈ (c.documents id).fields)
      (hpart : v.child? (.field (c.storedName f)) = some part)
      (h : Expects c f.type part path expected) :
      Expects c (.document id) v (.field (c.storedName f) :: path) expected
  | variantMember {name discriminator variant : String} {variants : List (String × DocumentId)}
      {id : DocumentId} {f : Field} {fields : Item} {v part : AttributeValue} {path : List PathSegment}
      {expected : Expected} (hfields : v.asMap? = some fields)
      (hdiscriminator : c.readDiscriminator fields = .ok discriminator)
      (hvariant : c.variantOf? variants discriminator = some (variant, id))
      (hf : f ∈ (c.documents id).fields) (hpart : v.child? (.field (c.storedName f)) = some part)
      (h : Expects c f.type part path expected) :
      Expects c (.oneOf name variants) v (.field (c.storedName f) :: path) expected
  | discriminator {name : String} {variants : List (String × DocumentId)} {v part : AttributeValue}
      (hpart : v.child? (.field c.options.typeDiscriminator) = some part) :
      Expects c (.oneOf name variants) v [.field c.options.typeDiscriminator] .discriminator

/-- The documents that are read as a value of a type or as a part of one. -/
inductive Reaches (c : Codec) : Ty → DocumentId → Prop
  | document (id : DocumentId) : Reaches c (.document id) id
  | variant {name variant : String} {variants : List (String × DocumentId)} {id : DocumentId}
      (h : (variant, id) ∈ variants) : Reaches c (.oneOf name variants) id
  | part {type inner : Ty} {id : DocumentId} (hpart : type.part? = some inner) (h : Reaches c inner id) :
      Reaches c type id
  | member {type : Ty} {owner id : DocumentId} {f : Field} (howner : Reaches c type owner)
      (hf : f ∈ (c.documents owner).fields) (h : Reaches c f.type id) : Reaches c type id

/-- No document that a type reaches has hooks for reading. -/
def ReadsPlainly (c : Codec) (type : Ty) : Prop :=
  ∀ id, c.Reaches type id → ∀ f ∈ (c.documents id).fields, f.onRead = []

/-! ### Where an error points -/

/-- The path of an error leads to a part of a value, and reading this part alone as what is expected there
fails for the same cause. Nothing is left of the path then, but for what a converter of the application has
put at its end. -/
structure PointsAt (c : Codec) (type : Ty) (v : AttributeValue) (e : Error)
    (path own : List PathSegment) (expected : Expected) (part : AttributeValue) : Prop where
  path_eq : e.path = path ++ own
  expects : c.Expects type v path expected
  leads : v.follow? path = some part
  refuses : c.Refuses part ⟨own, e.cause⟩ expected
  own : own ≠ [] → ∃ leaf converter, expected = .value leaf ∧
    Converter.first? c.converters leaf = some converter ∧ converter ∉ Converter.builtins ∧
      converter.read (c.target leaf) part = .error ⟨own, e.cause⟩

/-- An error points at a part of the value. -/
def Points (c : Codec) (type : Ty) (v : AttributeValue) (e : Error) : Prop :=
  ∃ path own expected part, c.PointsAt type v e path own expected part

/-- An error without a path points at the whole value. -/
theorem points_here (h : c.decode type v = .error e) (hpath : e.path = []) : c.Points type v e := by
  obtain ⟨path, cause⟩ := e
  cases hpath
  exact ⟨[], [], .value type, v, rfl, .here, rfl, h, fun hne => absurd rfl hne⟩

/-- What points at a part of a part points at a part of the whole. -/
theorem Points.within (h : c.Points inner part e) (hpart : v.child? segment = some part)
    (hexpects : ∀ {path expected}, c.Expects inner part path expected →
      c.Expects type v (segment :: path) expected) : c.Points type v (e.within segment) := by
  obtain ⟨path, own, expected, sub, hpoints⟩ := h
  refine ⟨segment :: path, own, expected, sub, congrArg (segment :: ·) hpoints.path_eq,
    hexpects hpoints.expects, ?_, hpoints.refuses, hpoints.own⟩
  rw [AttributeValue.follow?_cons hpart, hpoints.leads]

/-- What points at a part as one type points at it as another that holds the first one. -/
theorem Points.through (h : c.Points inner v e)
    (hexpects : ∀ {path expected}, c.Expects inner v path expected → c.Expects type v path expected) :
    c.Points type v e := by
  obtain ⟨path, own, expected, sub, hpoints⟩ := h
  exact ⟨path, own, expected, sub, hpoints.path_eq, hexpects hpoints.expects, hpoints.leads,
    hpoints.refuses, hpoints.own⟩

/-! ### Parts that cannot be read -/

theorem exists_item_of_decodeItems {position : Nat} {items : List AttributeValue}
    (h : c.decodeItems inner position items = .error e) :
    ∃ i part e', items[i]? = some part ∧ c.decode inner part = .error e' ∧
      e'.within (.index (position + i)) = e := by
  induction items generalizing position with
  | nil =>
    rw [decodeItems] at h
    cases h
  | cons item rest ih =>
    rw [decodeItems, except_bind_eq_error] at h
    rcases h with hfirst | ⟨value, -, h⟩
    · obtain ⟨e', hitem, rfl⟩ := inside_eq_error.mp hfirst
      exact ⟨0, item, e', rfl, hitem, rfl⟩
    · rcases except_bind_eq_error.mp h with hrest | ⟨values, -, h⟩
      · obtain ⟨i, part, e', hpart, herror, rfl⟩ := ih hrest
        exact ⟨i + 1, part, e', hpart, herror, by rw [Nat.add_assoc, Nat.add_comm 1]⟩
      · cases h

theorem exists_entry_of_decodeEntries {fields : List (String × AttributeValue)}
    (h : c.decodeEntries inner fields = .error e) :
    ∃ key part e', (key, part) ∈ fields ∧ c.decode inner part = .error e' ∧
      e'.within (.field key) = e := by
  induction fields with
  | nil =>
    rw [decodeEntries] at h
    cases h
  | cons field rest ih =>
    obtain ⟨key, part⟩ := field
    rw [decodeEntries, except_bind_eq_error] at h
    rcases h with hfirst | ⟨value, -, h⟩
    · obtain ⟨e', hpart, rfl⟩ := inside_eq_error.mp hfirst
      exact ⟨key, part, e', List.mem_cons_self, hpart, rfl⟩
    · rcases except_bind_eq_error.mp h with hrest | ⟨values, -, h⟩
      · obtain ⟨key', part', e', hmem, herror, rfl⟩ := ih hrest
        exact ⟨key', part', e', List.mem_cons_of_mem _ hmem, herror, rfl⟩
      · cases h

/-- A document without hooks cannot be read for want of a member, or because a member cannot. -/
theorem exists_member_of_decodeMembers {stored : Item} {fields : List Field}
    (hhooks : ∀ f ∈ fields, f.onRead = []) (h : c.decodeMembers stored fields = .error e) :
    e.path = [] ∨ ∃ f ∈ fields, ∃ part e', stored.get? (c.storedName f) = some part ∧
      c.decode f.type part = .error e' ∧ e'.within (.field (c.storedName f)) = e := by
  induction fields with
  | nil =>
    rw [decodeMembers] at h
    cases h
  | cons f rest ih =>
    obtain ⟨hhook, hrest⟩ := List.forall_mem_cons.mp hhooks
    rw [decodeMembers, except_bind_eq_error] at h
    rcases h with hfirst | ⟨value, -, h⟩
    · rw [decodeMember] at hfirst
      split at hfirst
      · split at hfirst
        · cases hfirst
          exact .inl rfl
        · cases hfirst
      · rename_i part hpart
        obtain ⟨e', herror, rfl⟩ := inside_eq_error.mp hfirst
        rw [hhook] at herror
        exact .inr ⟨f, List.mem_cons_self, part, e', hpart, herror, rfl⟩
    · rcases except_bind_eq_error.mp h with hmembers | ⟨values, -, h⟩
      · refine (ih hrest hmembers).imp_right ?_
        rintro ⟨f', hf', hpart⟩
        exact ⟨f', List.mem_cons_of_mem f hf', hpart⟩
      · cases h

/-! ### Leaves -/

theorem path_eq_nil_of_readNumber {target : Target} {digits : String}
    (h : Converter.readNumber target digits = .error e) : e.path = [] := by
  unfold Converter.readNumber at h
  repeat' split at h
  all_goals cases h <;> rfl

theorem path_eq_nil_of_readPrimitive {target : Target} (h : Converter.readPrimitive target v = .error e) :
    e.path = [] := by
  unfold Converter.readPrimitive at h
  split at h
  case h_5 => exact path_eq_nil_of_readNumber (except_map_eq_error.mp h)
  all_goals
    repeat' split at h
    all_goals cases h <;> rfl

theorem path_eq_nil_of_readBytes {target : Target} (h : Converter.readBytes target v = .error e) :
    e.path = [] := by
  unfold Converter.readBytes at h
  repeat' split at h
  all_goals cases h <;> rfl

theorem path_eq_nil_of_readTextual {types : List TextType} {target : Target}
    (h : Converter.readTextual types target v = .error e) : e.path = [] := by
  unfold Converter.readTextual at h
  repeat' split at h
  all_goals cases h <;> rfl

/-- The converters that are always there refuse values without a path. -/
theorem path_eq_nil_of_builtins {converter : Converter} (hmem : converter ∈ Converter.builtins)
    {target : Target} (h : converter.read target v = .error e) : e.path = [] := by
  simp only [Converter.builtins, List.mem_cons, List.not_mem_nil, or_false] at hmem
  rcases hmem with rfl | rfl | rfl
  · exact path_eq_nil_of_readPrimitive h
  · exact path_eq_nil_of_readBytes h
  · exact path_eq_nil_of_readTextual h

theorem path_eq_nil_of_readEnum {type : EnumType} {options : CodecOptions}
    (h : type.read options v = .error e) : e.path = [] := by
  unfold EnumType.read at h
  repeat' split at h
  all_goals cases h <;> rfl

/-- A converter that refuses a value refuses it as a whole. -/
theorem points_of_readLeaf {leaf : Ty} (hleaf : c.decode leaf v = c.readLeaf leaf v)
    (h : c.readLeaf leaf v = .error e) : c.Points leaf v e := by
  have hdecode : c.decode leaf v = .error e := hleaf.trans h
  rw [readLeaf] at h
  cases hfirst : Converter.first? c.converters leaf with
  | none =>
    rw [hfirst] at h
    cases h
    exact points_here hdecode rfl
  | some converter =>
    rw [hfirst, Converter.readBy, except_bind_eq_error] at h
    rcases h with hread | ⟨result, -, hmismatch⟩
    · exact ⟨[], e.path, .value leaf, v, rfl, .here, rfl, hdecode, fun hne =>
        ⟨leaf, converter, rfl, hfirst, fun hmem => hne (path_eq_nil_of_builtins hmem hread), hread⟩⟩
    · split at hmismatch
      · cases hmismatch
      · cases hmismatch
        exact points_here hdecode rfl

/-! ### Whole values -/

theorem ReadsPlainly.of_part (h : c.ReadsPlainly type) (hpart : type.part? = some inner) :
    c.ReadsPlainly inner := fun id hid => h id (.part hpart hid)

theorem ReadsPlainly.of_member {id : DocumentId} (h : c.ReadsPlainly type) (hid : c.Reaches type id)
    {f : Field} (hf : f ∈ (c.documents id).fields) : c.ReadsPlainly f.type :=
  fun id' hid' => h id' (.member hid hf hid')

/-- The documents that a type of a family reaches are of the family. -/
theorem Reaches.mem_family {family : DocumentId → Prop} (h : c.Restorable family)
    (htype : c.KeepsStored family type) {id : DocumentId} (hid : c.Reaches type id) : family id := by
  induction hid with
  | document id => exact htype
  | variant hvariant => exact htype.2 _ hvariant
  | @part type inner id hpart _ ih =>
    cases type <;> cases hpart <;> exact ih htype
  | member _ hf _ iowner ih => exact ih (h.types _ (iowner htype) _ hf)

theorem Restorable.readsPlainly {family : DocumentId → Prop} (h : c.Restorable family)
    (htype : c.KeepsStored family type) : c.ReadsPlainly type :=
  fun id hid => h.onRead id (hid.mem_family h htype)

theorem path_eq_nil_of_check {d : Document} (h : d.check = .error e) : e.path = [] := by
  rw [Document.check] at h
  split at h <;> cases h
  rfl

/-- Where the elements of a list or a set cannot be read, one of them cannot. -/
theorem points_of_items {items : List AttributeValue} (hitems : v.elements? = some items)
    (hexpects : ∀ {position part path expected}, v.child? (.index position) = some part →
      c.Expects inner part path expected → c.Expects type v (.index position :: path) expected)
    (ih : ∀ {segment part e}, v.child? segment = some part → c.decode inner part = .error e →
      c.Points inner part e)
    (h : c.decodeItems inner 0 items = .error e) : c.Points type v e := by
  obtain ⟨position, part, e', hpart, herror, rfl⟩ := exists_item_of_decodeItems h
  have hchild := AttributeValue.child?_index_eq_some.mpr ⟨items, hitems, hpart⟩
  rw [Nat.zero_add]
  exact (ih hchild herror).within hchild (hexpects hchild)

/-- Where the members of a document cannot be read, it is for want of one, or one of them cannot. -/
theorem points_of_members {fields : Item} {id : DocumentId} (hfields : v.asMap? = some fields)
    (hplain : ∀ f ∈ (c.documents id).fields, f.onRead = [])
    (hexpects : ∀ {f part path expected}, f ∈ (c.documents id).fields →
      v.child? (.field (c.storedName f)) = some part → c.Expects f.type part path expected →
        c.Expects type v (.field (c.storedName f) :: path) expected)
    (ih : ∀ {f segment part e}, f ∈ (c.documents id).fields → v.child? segment = some part →
      c.decode f.type part = .error e → c.Points f.type part e)
    (hwhole : c.decode type v = .error e)
    (h : c.decodeMembers fields (c.documents id).fields = .error e) : c.Points type v e := by
  rcases exists_member_of_decodeMembers hplain h with hpath | ⟨f, hf, part, e', hpart, herror, rfl⟩
  · exact points_here hwhole hpath
  · have hchild := AttributeValue.child?_field_eq_some.mpr ⟨fields, hfields, hpart⟩
    exact (ih hf hchild herror).within hchild (hexpects hf hchild)

/-- Where a discriminator cannot be read, it is missing, or it is no text. -/
theorem points_of_readDiscriminator {name : String} {variants : List (String × DocumentId)} {fields : Item}
    (hfields : v.asMap? = some fields) (hwhole : c.decode (.oneOf name variants) v = .error e)
    (h : c.readDiscriminator fields = .error e) : c.Points (.oneOf name variants) v e := by
  rw [readDiscriminator_eq] at h
  split at h
  · rename_i part hpart
    obtain ⟨e', herror, rfl⟩ := inside_eq_error.mp h
    have hchild := AttributeValue.child?_field_eq_some.mpr ⟨fields, hfields, hpart⟩
    have hpath : e'.path = [] := by
      unfold asDiscriminator at herror
      split at herror <;> cases herror
      rfl
    obtain ⟨path, cause⟩ := e'
    cases hpath
    refine ⟨[.field c.options.typeDiscriminator], [], .discriminator, part, rfl, .discriminator hchild, ?_,
      herror, fun hne => absurd rfl hne⟩
    rw [AttributeValue.follow?_cons hchild]
    rfl
  · cases h
    exact points_here hwhole rfl

/-- By induction on the size of the value, and on the type where the value stays the same. -/
theorem points_of_decode (type : Ty) (v : AttributeValue) {e : Error} (hordered : v.Ordered)
    (hplain : c.ReadsPlainly type) (h : c.decode type v = .error e) : c.Points type v e := by
  have hwhole := h
  match type with
  | .scalar s => exact points_of_readLeaf (by rw [decode]) (by rwa [decode] at h)
  | .foreign name => exact points_of_readLeaf (by rw [decode]) (by rwa [decode] at h)
  | .dynamic | .stored =>
    rw [decode] at h
    cases h
  | .enumeration enum =>
    rw [decode, except_map_eq_error] at h
    exact points_here hwhole (path_eq_nil_of_readEnum h)
  | .option inner =>
    rw [decode] at h
    split at h
    · cases h
    · rename_i hsome
      have hinner := points_of_decode inner v hordered (hplain.of_part rfl) (except_map_eq_error.mp h)
      exact hinner.through (.option (Bool.not_eq_true _ ▸ hsome))
  | .boxed inner =>
    rw [decode, except_map_eq_error] at h
    exact (points_of_decode inner v hordered (hplain.of_part rfl) h).through .boxed
  | .list inner =>
    rw [decode] at h
    split at h
    · cases h
    · split at h
      · rename_i items hitems
        exact points_of_items hitems .item
          (fun hchild => points_of_decode inner _ (hordered.child? hchild) (hplain.of_part rfl))
          (except_map_eq_error.mp h)
      · cases h
        exact points_here hwhole rfl
  | .set hashed inner =>
    rw [decode] at h
    split at h
    · cases h
    · split at h
      · rename_i items hitems
        exact points_of_items hitems .element
          (fun hchild => points_of_decode inner _ (hordered.child? hchild) (hplain.of_part rfl))
          (except_map_eq_error.mp h)
      · cases h
        exact points_here hwhole rfl
  | .map hashed inner =>
    rw [decode] at h
    split at h
    · cases h
    · split at h
      · rename_i fields hfields
        obtain ⟨key, part, e', hmem, herror, rfl⟩ :=
          exists_entry_of_decodeEntries (except_map_eq_error.mp h)
        have hchild : v.child? (.field key) = some part := by
          cases AttributeValue.eq_map_of_asMap? hfields
          exact AttributeValue.child?_of_mem_fields hordered.1 hmem
        exact (points_of_decode inner part (hordered.child? hchild) (hplain.of_part rfl) herror).within
          hchild (.entry hchild)
      · cases h
        exact points_here hwhole rfl
  | .document id =>
    have hid : c.Reaches (.document id) id := .document id
    rw [decode] at h
    split at h
    · cases h
    · split at h
      · rename_i fields hfields
        rcases except_bind_eq_error.mp h with hcheck | ⟨-, -, hmembers⟩
        · exact points_here hwhole (path_eq_nil_of_check hcheck)
        · exact points_of_members hfields (hplain id hid) .member
            (fun hf hchild => points_of_decode _ _ (hordered.child? hchild) (hplain.of_member hid hf))
            hwhole (except_map_eq_error.mp hmembers)
      · cases h
        exact points_here hwhole rfl
  | .oneOf name variants =>
    rw [decode] at h
    split at h
    · rename_i fields hfields
      rcases except_bind_eq_error.mp h with hread | ⟨discriminator, hdiscriminator, h⟩
      · exact points_of_readDiscriminator hfields hwhole hread
      · split at h
        · rename_i variant id hvariant
          have hid : c.Reaches (.oneOf name variants) id :=
            .variant (List.mem_of_find?_eq_some hvariant)
          rcases except_bind_eq_error.mp h with hcheck | ⟨-, -, hmembers⟩
          · exact points_here hwhole (path_eq_nil_of_check hcheck)
          · exact points_of_members hfields (hplain id hid) (.variantMember hfields hdiscriminator hvariant)
              (fun hf hchild => points_of_decode _ _ (hordered.child? hchild) (hplain.of_member hid hf))
              hwhole (except_map_eq_error.mp hmembers)
        · cases h
          exact points_here hwhole rfl
    · cases h
      exact points_here hwhole rfl
termination_by (v.size, sizeOf type)
decreasing_by
  all_goals first
    | exact Prod.Lex.left _ _ (AttributeValue.size_child?_lt hchild)
    | exact Prod.Lex.right _ (by simp)

/-- No converter gives the values that it refuses a path. -/
def RefusesPlainly (c : Codec) : Prop :=
  ∀ converter ∈ c.converters, ∀ target v e, converter.read target v = .error e → e.path = []

theorem refusesPlainly_of_builtins (h : c.converters = Converter.builtins) : c.RefusesPlainly :=
  fun converter hmem _ _ _ hread => path_eq_nil_of_builtins (h ▸ hmem : converter ∈ Converter.builtins) hread

theorem PointsAt.own_eq_nil {path own : List PathSegment} {expected : Expected}
    (h : c.PointsAt type v e path own expected part) (hplain : c.RefusesPlainly) : own = [] := by
  by_contra hne
  obtain ⟨leaf, converter, -, hfirst, -, hread⟩ := h.own hne
  exact hne (hplain converter (List.mem_of_find?_eq_some hfirst) _ _ _ hread)

/-- **An error of reading points at what failed.** Where an attribute value cannot be read as a value of a
type, and no document that the type reaches has hooks, the path of the error leads to a part of the value;
and reading this part alone as the type that is expected there, or as the discriminator, fails for the same
cause. Nothing is left of the path then, unless a converter of the application gave the part that it
refused a path. -/
theorem decode_error_points (hordered : v.Ordered) (hplain : c.ReadsPlainly type)
    (h : c.decode type v = .error e) :
    (∃ path own expected part, c.PointsAt type v e path own expected part) ∧
      (c.RefusesPlainly → ∃ expected part, c.Expects type v e.path expected ∧
        v.follow? e.path = some part ∧ c.Refuses part ⟨[], e.cause⟩ expected) := by
  obtain ⟨path, own, expected, part, hpoints⟩ := points_of_decode type v hordered hplain h
  refine ⟨⟨path, own, expected, part, hpoints⟩, fun hconverters => ?_⟩
  obtain rfl := hpoints.own_eq_nil hconverters
  have hpath : e.path = path := hpoints.path_eq.trans (List.append_nil path)
  rw [hpath]
  exact ⟨expected, part, hpoints.expects, hpoints.leads, hpoints.refuses⟩

/-! ### Layers of shapes -/

/-- Layers of shapes. -/
def layers : Ty := .map true (.list Sample.shape)

/-- A circle, and a square of which the side is no number. -/
def wideSquare : AttributeValue :=
  .map [("front", .list [.map [("kind", .text "Circle"), ("radius", .number "0")],
    .map [("kind", .text "Square"), ("side", .text "wide")]])]

/-- What is wrong with the square. -/
def sideMismatch : Error :=
  ⟨[.field "front", .index 1, .field "side"], .typeMismatch "" "S"⟩

theorem wideSquare_ordered : wideSquare.Ordered := by
  have hradius : compareText "kind" "radius" = .lt := by decide
  have hside : compareText "kind" "side" = .lt := by decide
  simp [wideSquare, AttributeValue.Ordered, AttributeValue.itemsOrdered_iff,
    AttributeValue.fieldsOrdered_iff, Fields.Ascending, hradius, hside]

theorem layers_keepsStored :
    (tellingShapes "kind").KeepsStored (fun id => id = 7 ∨ id = 8) layers := by
  obtain ⟨hnames, htexts, hdiscriminated⟩ := tellingShapes_named "kind"
  refine ⟨⟨hnames, htexts, hdiscriminated, ?_⟩, by decide⟩
  intro v hv f hf
  fin_cases hv <;> fin_cases hf <;> decide

theorem decode_error_points_wideSquare :
    (wideSquare.Ordered ∧ (tellingShapes "kind").ReadsPlainly layers ∧
      (tellingShapes "kind").decode layers wideSquare = .error sideMismatch) ∧
    ∃ expected part,
      (tellingShapes "kind").Expects layers wideSquare sideMismatch.path expected ∧
        wideSquare.follow? sideMismatch.path = some part ∧
        (tellingShapes "kind").Refuses part ⟨[], sideMismatch.cause⟩ expected := by
  have hplain := (tellingShapes_restorable "kind").readsPlainly layers_keepsStored
  have hdecode : (tellingShapes "kind").decode layers wideSquare = .error sideMismatch := by cbv
  exact ⟨⟨wideSquare_ordered, hplain, hdecode⟩,
    (decode_error_points wideSquare_ordered hplain hdecode).2 (refusesPlainly_of_builtins rfl)⟩

end Codec

end ItemMapper
