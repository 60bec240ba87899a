import ItemMapper.Proofs.Bytes.Base64
import ItemMapper.Proofs.Computation
import ItemMapper.Proofs.Json.RoundTrip
import ItemMapper.Proofs.Values.Fields
import ItemMapper.Wire.AttributeValue

/-!
# The wire form of attribute values

What is accepted as an attribute value is an object with exactly one member, whose name is one of the
ten tags and whose value has the shape of that tag, down to the leaves; and no deeper than the reader
may go. So a value is read back as it was written, up to that depth and not beyond: a list or a map is
two containers deep, the object of its tag and the array or object under it.

A wire form may give one key of a map twice, or a byte string in another way than it is written. What is
read of it is a value whose own wire form is read as the same value, and is no deeper.

## Main definitions

* `Json.depth`: how many containers are nested in a tree.
* `AttributeValue.Wires`, `AttributeValue.Carries`: the wire forms of a value.
* `AttributeValue.Ordered`: values in whose maps the keys ascend.

## Main statements

* `AttributeValue.ofJson_eq_ok`: what is accepted.
* `AttributeValue.ofJson_toJson`: what is read of the wire form of a value.
* `AttributeValue.Wires.ordered_and_depth_le`: what is read of a wire form.
* `AttributeValue.readText_exact`: all of this, for trees and for texts.
-/

namespace ItemMapper

namespace Json

mutual
/-- How many arrays and objects are nested in the tree. -/
def depth : Json → Nat
  | array items _ => allDepth items + 1
  | object members _ => membersDepth members + 1
  | _ => 0

/-- The largest depth of the trees. -/
def allDepth : List Json → Nat
  | [] => 0
  | item :: rest => max item.depth (allDepth rest)

/-- The largest depth of the trees of the members. -/
def membersDepth : List (String × Json) → Nat
  | [] => 0
  | (_, value) :: rest => max value.depth (membersDepth rest)
end

theorem depth_tagged (tag : String) (payload : Json) :
    (tagged tag payload).depth = payload.depth + 1 := by
  rw [tagged, ofMembers, depth, membersDepth, membersDepth, Nat.max_zero]

end Json

/-! ### Reading the shapes -/

namespace Wire

variable {depth : Nat} {j : Json}

theorem text_eq_ok {value : String} : text depth j = .ok value ↔ j = .string value := by
  constructor
  · intro h
    cases j with
    | string text => exact congrArg Json.string (Except.ok.inj h)
    | _ => cases h
  · rintro rfl
    rfl

theorem truth_eq_ok {value : Bool} : truth depth j = .ok value ↔ j = .bool value := by
  constructor
  · intro h
    cases j with
    | bool flag => exact congrArg Json.bool (Except.ok.inj h)
    | _ => cases h
  · rintro rfl
    rfl

theorem readAll_text_eq_ok {closed : Bool} {items : List Json} {texts : List String} :
    readAll (text depth) closed items = .ok texts ↔
      closed = true ∧ items = texts.map Json.string := by
  induction items generalizing texts with
  | nil =>
    cases closed with
    | false => exact iff_of_false nofun fun h => Bool.false_ne_true h.1
    | true =>
      constructor
      · intro h
        cases h
        exact ⟨rfl, rfl⟩
      · rintro ⟨-, h⟩
        rw [List.map_eq_nil_iff.mp h.symm]
        rfl
  | cons item rest ih =>
    rw [readAll]
    simp only [except_bind_eq_ok, text_eq_ok, ih]
    constructor
    · rintro ⟨value, rfl, values, ⟨rfl, rfl⟩, h⟩
      cases h
      exact ⟨rfl, rfl⟩
    · rintro ⟨rfl, h⟩
      cases texts with
      | nil => cases h
      | cons value values =>
        obtain ⟨rfl, rfl⟩ := List.cons.inj h
        exact ⟨value, rfl, values, ⟨rfl, rfl⟩, rfl⟩

theorem sequence_text_eq_ok {texts : List String} :
    sequence text depth j = .ok texts ↔ j = AttributeValue.jsonTexts texts ∧ 1 ≤ depth := by
  cases j with
  | array items closed =>
    cases depth with
    | zero => exact iff_of_false nofun fun h => Nat.not_succ_le_zero 0 h.2
    | succ depth =>
      rw [sequence, readAll_text_eq_ok, AttributeValue.jsonTexts, Json.ofItems, Json.array.injEq,
        and_comm]
      exact (and_iff_left (Nat.succ_pos depth)).symm
  | _ => cases depth <;> exact iff_of_false nofun fun h => by cases h.1

/-- A result that is there if the tree is not too deep. -/
def within {α : Type} (depth needed : Nat) (value : α) : Except Error α :=
  if needed ≤ depth then .ok value else .error .malformed

theorem within_map {α β : Type} {needed : Nat} (value : α) (f : α → β) :
    (within depth needed value).map f = within depth needed (f value) := by
  unfold within
  split <;> rfl

/-- Two parts are there if neither is too deep. -/
theorem within_bind {α β γ : Type} {n m : Nat} (x : α) (y : β) (f : α → β → γ) :
    (do
      let a ← within depth n x
      let b ← within depth m y
      pure (f a b)) = within depth (max n m) (f x y) := by
  unfold within
  by_cases hn : n ≤ depth
  · by_cases hm : m ≤ depth
    · rw [if_pos hn, if_pos hm, if_pos (Nat.max_le.mpr ⟨hn, hm⟩)]
      rfl
    · rw [if_pos hn, if_neg hm, if_neg fun h => hm (Nat.max_le.mp h).2]
      rfl
  · rw [if_neg hn, if_neg fun h => hn (Nat.max_le.mp h).1]
    rfl

theorem within_bind_of_ok {α β : Type} {needed : Nat} {x : α} {y : β} {f : α → Except Error β}
    (h : f x = .ok y) : (within depth needed x >>= f) = within depth needed y := by
  unfold within
  split
  · exact h
  · rfl

theorem within_succ {α : Type} {needed : Nat} (value : α) :
    within (depth + 1) (needed + 1) value = within depth needed value := by
  unfold within
  simp only [Nat.add_le_add_iff_right]

theorem within_of_le {α : Type} {needed : Nat} (value : α) (h : needed ≤ depth) :
    within depth needed value = .ok value := if_pos h

theorem sequence_text_jsonTexts (texts : List String) :
    sequence text depth (AttributeValue.jsonTexts texts) = within depth 1 texts := by
  cases depth with
  | zero => rfl
  | succ depth =>
    rw [within_of_le texts (Nat.succ_pos depth)]
    exact sequence_text_eq_ok.mpr ⟨rfl, Nat.succ_pos depth⟩

end Wire

namespace AttributeValue

/-! ### Wire forms -/

mutual
/-- The trees that are read as a value. -/
inductive Wires : Json → AttributeValue → Prop
  | tagged {tag : String} {payload : Json} {v : AttributeValue} (carried : Carries tag payload v) :
      Wires (.tagged tag payload) v

/-- What stands under each tag. -/
inductive Carries : String → Json → AttributeValue → Prop
  | null (flag : Bool) : Carries "NULL" (.bool flag) (.null flag)
  | bool (value : Bool) : Carries "BOOL" (.bool value) (.bool value)
  | text (value : String) : Carries "S" (.string value) (.text value)
  | number (digits : String) : Carries "N" (.string digits) (.number digits)
  | binary {source : String} {bytes : Bytes} (decoded : Base64.decode source = .ok bytes) :
      Carries "B" (.string source) (.binary bytes)
  | textSet (members : List String) : Carries "SS" (jsonTexts members) (.textSet members)
  | numberSet (members : List String) : Carries "NS" (jsonTexts members) (.numberSet members)
  | binarySet {sources : List String} {members : List Bytes}
      (decoded : List.Forall₂ (fun source bytes => Base64.decode source = .ok bytes) sources
        members) :
      Carries "BS" (jsonTexts sources) (.binarySet members)
  | list {forms : List Json} {items : List AttributeValue} (held : WiresItems forms items) :
      Carries "L" (.ofItems forms) (.list items)
  | map {forms : List (String × Json)} {pairs : List (String × AttributeValue)}
      (held : WiresMembers forms pairs) :
      Carries "M" (.ofMembers forms) (.map (Fields.ofList pairs))

/-- The trees that are read as the items of a list. -/
inductive WiresItems : List Json → List AttributeValue → Prop
  | nil : WiresItems [] []
  | cons {form : Json} {item : AttributeValue} {forms : List Json} {items : List AttributeValue}
      (head : Wires form item) (tail : WiresItems forms items) :
      WiresItems (form :: forms) (item :: items)

/-- The members that are read as the entries of a map. -/
inductive WiresMembers : List (String × Json) → List (String × AttributeValue) → Prop
  | nil : WiresMembers [] []
  | cons (key : String) {form : Json} {value : AttributeValue} {forms : List (String × Json)}
      {pairs : List (String × AttributeValue)} (head : Wires form value)
      (tail : WiresMembers forms pairs) :
      WiresMembers ((key, form) :: forms) ((key, value) :: pairs)
end

theorem Carries.mem_tags {tag : String} {payload : Json} {v : AttributeValue}
    (h : Carries tag payload v) : tag ∈ tags := by
  cases h <;> decide

theorem allDepth_map_string (texts : List String) : Json.allDepth (texts.map Json.string) = 0 := by
  induction texts with
  | nil => rfl
  | cons text rest ih =>
    rw [List.map_cons, Json.allDepth, ih]
    rfl

theorem depth_jsonTexts (texts : List String) : (jsonTexts texts).depth = 1 := by
  rw [jsonTexts, Json.ofItems, Json.depth, allDepth_map_string]

theorem readBase64_eq_ok {source : String} {bytes : Bytes} :
    readBase64 source = .ok bytes ↔ Base64.decode source = .ok bytes := by
  unfold readBase64
  cases Base64.decode source with
  | ok found => exact ⟨fun h => congrArg _ (Except.ok.inj h), fun h => congrArg _ (Except.ok.inj h)⟩
  | error e => exact ⟨nofun, nofun⟩

theorem readBase64All_eq_ok {sources : List String} {members : List Bytes} :
    readBase64All sources = .ok members ↔
      List.Forall₂ (fun source bytes => Base64.decode source = .ok bytes) sources members := by
  induction sources generalizing members with
  | nil =>
    rw [List.forall₂_nil_left_iff]
    exact ⟨fun h => (Except.ok.inj h).symm, fun h => congrArg _ h.symm⟩
  | cons source rest ih =>
    rw [readBase64All]
    simp only [except_bind_eq_ok, readBase64_eq_ok, ih, List.forall₂_cons_left_iff]
    constructor
    · rintro ⟨bytes, hbytes, others, hothers, h⟩
      exact ⟨bytes, others, hbytes, hothers, (Except.ok.inj h).symm⟩
    · rintro ⟨bytes, others, hbytes, hothers, rfl⟩
      exact ⟨bytes, hbytes, others, hothers, rfl⟩

/-! ### What is accepted -/

section
variable {depth : Nat}

/-- Reading at a depth accepts the wire forms that are no deeper. -/
def Accepts (depth : Nat) : Prop :=
  ∀ j v, ofJson depth j = .ok v ↔ Wires j v ∧ j.depth ≤ depth

theorem ofItems_eq_ok (h : Accepts depth) {closed : Bool} {forms : List Json}
    {items : List AttributeValue} :
    ofItems depth closed forms = .ok items ↔
      closed = true ∧ WiresItems forms items ∧ Json.allDepth forms ≤ depth := by
  induction forms generalizing items with
  | nil =>
    rw [ofItems]
    cases closed with
    | false => exact iff_of_false nofun fun h => Bool.false_ne_true h.1
    | true =>
      constructor
      · intro h
        cases h
        exact ⟨rfl, .nil, Nat.zero_le depth⟩
      · rintro ⟨-, h, -⟩
        cases h
        rfl
  | cons form rest ih =>
    rw [ofItems]
    simp only [except_bind_eq_ok, h form, ih, Json.allDepth, Nat.max_le]
    constructor
    · rintro ⟨value, ⟨hvalue, hdepth⟩, values, ⟨hclosed, hvalues, hrest⟩, heq⟩
      cases heq
      exact ⟨hclosed, .cons hvalue hvalues, hdepth, hrest⟩
    · rintro ⟨hclosed, hvalues, hdepth, hrest⟩
      cases hvalues with
      | cons head tail => exact ⟨_, ⟨head, hdepth⟩, _, ⟨hclosed, tail, hrest⟩, rfl⟩

theorem ofMembers_eq_ok (h : Accepts depth) {closed : Bool} {forms : List (String × Json)}
    {pairs : List (String × AttributeValue)} :
    ofMembers depth closed forms = .ok pairs ↔
      closed = true ∧ WiresMembers forms pairs ∧ Json.membersDepth forms ≤ depth := by
  induction forms generalizing pairs with
  | nil =>
    rw [ofMembers]
    cases closed with
    | false => exact iff_of_false nofun fun h => Bool.false_ne_true h.1
    | true =>
      constructor
      · intro h
        cases h
        exact ⟨rfl, .nil, Nat.zero_le depth⟩
      · rintro ⟨-, h, -⟩
        cases h
        rfl
  | cons form rest ih =>
    obtain ⟨key, form⟩ := form
    rw [ofMembers]
    simp only [except_bind_eq_ok, h form, ih, Json.membersDepth, Nat.max_le]
    constructor
    · rintro ⟨value, ⟨hvalue, hdepth⟩, values, ⟨hclosed, hvalues, hrest⟩, heq⟩
      cases heq
      exact ⟨hclosed, .cons key hvalue hvalues, hdepth, hrest⟩
    · rintro ⟨hclosed, hvalues, hdepth, hrest⟩
      cases hvalues with
      | cons _ head tail => exact ⟨_, ⟨head, hdepth⟩, _, ⟨hclosed, tail, hrest⟩, rfl⟩

theorem carries_of_ofPayload (accepts : ∀ n < depth, Accepts n) {tag : String} {payload : Json}
    {v : AttributeValue} (h : ofPayload depth tag payload = .ok v) :
    Carries tag payload v ∧ payload.depth ≤ depth := by
  unfold ofPayload at h
  -- S, N, B, SS, NS, BS, BOOL, NULL, L and M; what stands under L and M is read one level down
  split at h
  · obtain ⟨value, hvalue, rfl⟩ := except_map_eq_ok.mp h
    cases Wire.text_eq_ok.mp hvalue
    exact ⟨.text value, Nat.zero_le depth⟩
  · obtain ⟨digits, hdigits, rfl⟩ := except_map_eq_ok.mp h
    cases Wire.text_eq_ok.mp hdigits
    exact ⟨.number digits, Nat.zero_le depth⟩
  · obtain ⟨source, hsource, h⟩ := except_bind_eq_ok.mp h
    obtain ⟨bytes, hbytes, rfl⟩ := except_map_eq_ok.mp h
    cases Wire.text_eq_ok.mp hsource
    exact ⟨.binary (readBase64_eq_ok.mp hbytes), Nat.zero_le depth⟩
  · obtain ⟨texts, htexts, rfl⟩ := except_map_eq_ok.mp h
    obtain ⟨rfl, hdepth⟩ := Wire.sequence_text_eq_ok.mp htexts
    exact ⟨.textSet texts, depth_jsonTexts texts ▸ hdepth⟩
  · obtain ⟨texts, htexts, rfl⟩ := except_map_eq_ok.mp h
    obtain ⟨rfl, hdepth⟩ := Wire.sequence_text_eq_ok.mp htexts
    exact ⟨.numberSet texts, depth_jsonTexts texts ▸ hdepth⟩
  · obtain ⟨sources, hsources, h⟩ := except_bind_eq_ok.mp h
    obtain ⟨members, hmembers, rfl⟩ := except_map_eq_ok.mp h
    obtain ⟨rfl, hdepth⟩ := Wire.sequence_text_eq_ok.mp hsources
    exact ⟨.binarySet (readBase64All_eq_ok.mp hmembers),
      depth_jsonTexts sources ▸ hdepth⟩
  · obtain ⟨value, hvalue, rfl⟩ := except_map_eq_ok.mp h
    cases Wire.truth_eq_ok.mp hvalue
    exact ⟨.bool value, Nat.zero_le depth⟩
  · obtain ⟨flag, hflag, rfl⟩ := except_map_eq_ok.mp h
    cases Wire.truth_eq_ok.mp hflag
    exact ⟨.null flag, Nat.zero_le depth⟩
  · split at h
    · cases h
    · obtain ⟨items, hitems, rfl⟩ := except_map_eq_ok.mp h
      obtain ⟨rfl, hheld, hdepth⟩ := (ofItems_eq_ok (accepts _ (Nat.lt_succ_self _))).mp hitems
      exact ⟨.list hheld, Nat.succ_le_succ hdepth⟩
    · cases h
  · split at h
    · cases h
    · cases h
    · obtain ⟨pairs, hpairs, rfl⟩ := except_map_eq_ok.mp h
      obtain ⟨hclosed, hheld, hdepth⟩ := (ofMembers_eq_ok (accepts _ (Nat.lt_succ_self _))).mp hpairs
      rename_i ending
      cases ending with
      | closed => exact ⟨.map hheld, Nat.succ_le_succ hdepth⟩
      | garbled | broken => cases hclosed
    · cases h
  · cases h

theorem ofPayload_of_carries (accepts : ∀ n < depth, Accepts n) {tag : String} {payload : Json}
    {v : AttributeValue} (h : Carries tag payload v) (hdepth : payload.depth ≤ depth) :
    ofPayload depth tag payload = .ok v := by
  cases h with
  | null | bool | text | number =>
    rw [ofPayload]
    rfl
  | binary decoded =>
    rw [ofPayload]
    exact except_bind_eq_ok.mpr ⟨_, rfl,
      except_map_eq_ok.mpr ⟨_, readBase64_eq_ok.mpr decoded, rfl⟩⟩
  | textSet members | numberSet members =>
    rw [depth_jsonTexts] at hdepth
    rw [ofPayload]
    exact except_map_eq_ok.mpr ⟨members, Wire.sequence_text_eq_ok.mpr ⟨rfl, hdepth⟩, rfl⟩
  | binarySet decoded =>
    rw [depth_jsonTexts] at hdepth
    rw [ofPayload]
    exact except_bind_eq_ok.mpr ⟨_, Wire.sequence_text_eq_ok.mpr ⟨rfl, hdepth⟩,
      except_map_eq_ok.mpr ⟨_, readBase64All_eq_ok.mpr decoded, rfl⟩⟩
  | list held =>
    obtain ⟨depth, rfl⟩ := Nat.exists_eq_add_one_of_ne_zero (Nat.ne_zero_of_lt hdepth)
    rw [Json.ofItems, ofPayload]
    exact except_map_eq_ok.mpr ⟨_, (ofItems_eq_ok (accepts _ (Nat.lt_succ_self _))).mpr
      ⟨rfl, held, Nat.le_of_succ_le_succ hdepth⟩, rfl⟩
  | map held =>
    obtain ⟨depth, rfl⟩ := Nat.exists_eq_add_one_of_ne_zero (Nat.ne_zero_of_lt hdepth)
    rw [Json.ofMembers, ofPayload]
    exact except_map_eq_ok.mpr ⟨_, (ofMembers_eq_ok (accepts _ (Nat.lt_succ_self _))).mpr
      ⟨rfl, held, Nat.le_of_succ_le_succ hdepth⟩, rfl⟩

theorem ofPayload_eq_ok (accepts : ∀ n < depth, Accepts n) {tag : String} {payload : Json}
    {v : AttributeValue} :
    ofPayload depth tag payload = .ok v ↔ Carries tag payload v ∧ payload.depth ≤ depth :=
  ⟨carries_of_ofPayload accepts, fun h => ofPayload_of_carries accepts h.1 h.2⟩

/-- An object with one member is read as what stands under its tag. -/
theorem ofJson_tagged (tag : String) (payload : Json) :
    ofJson (depth + 1) (.tagged tag payload) = ofPayload depth tag payload := by
  rw [Json.tagged, Json.ofMembers, ofJson]
  cases ofPayload depth tag payload <;> rfl

/-- What is read has one member. -/
theorem exists_tagged_of_ofJson {j : Json} {v : AttributeValue} (h : ofJson depth j = .ok v) :
    ∃ n tag payload, depth = n + 1 ∧ j = .tagged tag payload := by
  unfold ofJson at h
  split at h
  · cases h
  · cases h
  · cases h
  · obtain ⟨value, -, h⟩ := except_bind_eq_ok.mp h
    split at h
    · cases h
    · split at h
      next hclosed =>
        rename_i ending _ _
        cases ending with
        | closed => exact ⟨_, _, _, rfl, rfl⟩
        | garbled | broken => cases hclosed
      · cases h
  · cases h

/-- What is accepted is a wire form that is not too deep. -/
theorem accepts (depth : Nat) : Accepts depth := by
  induction depth using Nat.strongRecOn with
  | _ depth ih =>
    intro j v
    constructor
    · intro h
      obtain ⟨depth, tag, payload, rfl, rfl⟩ := exists_tagged_of_ofJson h
      rw [ofJson_tagged, ofPayload_eq_ok fun n hn => ih n (Nat.lt_succ_of_lt hn)] at h
      rw [Json.depth_tagged]
      exact ⟨.tagged h.1, Nat.succ_le_succ h.2⟩
    · rintro ⟨⟨hcarried⟩, hdepth⟩
      rw [Json.depth_tagged] at hdepth
      obtain ⟨depth, rfl⟩ := Nat.exists_eq_add_one_of_ne_zero (Nat.ne_zero_of_lt hdepth)
      rw [ofJson_tagged, ofPayload_eq_ok fun n hn => ih n (Nat.lt_succ_of_lt hn)]
      exact ⟨hcarried, Nat.le_of_succ_le_succ hdepth⟩

theorem ofJson_eq_ok {j : Json} {v : AttributeValue} :
    ofJson depth j = .ok v ↔ Wires j v ∧ j.depth ≤ depth := accepts depth j v

end

/-! ### Reading back what was written -/

mutual
/-- In all maps of the value the keys ascend. -/
def Ordered : AttributeValue → Prop
  | .list items => ItemsOrdered items
  | .map fields => Fields.Ascending fields ∧ FieldsOrdered fields
  | _ => True

/-- In all maps of the values the keys ascend. -/
def ItemsOrdered : List AttributeValue → Prop
  | [] => True
  | item :: rest => item.Ordered ∧ ItemsOrdered rest

/-- In all maps of the entries the keys ascend. -/
def FieldsOrdered : List (String × AttributeValue) → Prop
  | [] => True
  | (_, value) :: rest => value.Ordered ∧ FieldsOrdered rest
end

theorem readBase64All_encode (members : List Bytes) :
    readBase64All (members.map Base64.encode) = .ok members := by
  refine readBase64All_eq_ok.mpr (List.forall₂_map_left_iff.mpr ?_)
  exact List.forall₂_same.mpr fun bytes _ => Base64.decode_encode bytes

mutual
/-- The wire form of a value is read as the value, if that may go as deep. -/
theorem ofJson_toJson (v : AttributeValue) (h : v.Ordered) (depth : Nat) :
    ofJson depth v.toJson = Wire.within depth v.toJson.depth v := by
  cases depth with
  | zero => cases v <;> rfl
  | succ depth =>
    cases v with
    | text value =>
      rw [toJson, ofJson_tagged, Json.depth_tagged, Wire.within_succ, ofPayload]
      rfl
    | number digits =>
      rw [toJson, ofJson_tagged, Json.depth_tagged, Wire.within_succ, ofPayload]
      rfl
    | binary bytes =>
      rw [toJson, ofJson_tagged, Json.depth_tagged, Wire.within_succ, ofPayload]
      exact except_bind_eq_ok.mpr ⟨_, rfl, except_map_eq_ok.mpr
        ⟨_, readBase64_eq_ok.mpr (Base64.decode_encode bytes), rfl⟩⟩
    | bool value =>
      rw [toJson, ofJson_tagged, Json.depth_tagged, Wire.within_succ, ofPayload]
      rfl
    | null flag =>
      rw [toJson, ofJson_tagged, Json.depth_tagged, Wire.within_succ, ofPayload]
      rfl
    | textSet members =>
      rw [toJson, ofJson_tagged, Json.depth_tagged, Wire.within_succ, ofPayload,
        Wire.sequence_text_jsonTexts, Wire.within_map, depth_jsonTexts]
    | numberSet members =>
      rw [toJson, ofJson_tagged, Json.depth_tagged, Wire.within_succ, ofPayload,
        Wire.sequence_text_jsonTexts, Wire.within_map, depth_jsonTexts]
    | binarySet members =>
      rw [toJson, ofJson_tagged, Json.depth_tagged, Wire.within_succ, ofPayload,
        Wire.sequence_text_jsonTexts, depth_jsonTexts]
      exact Wire.within_bind_of_ok
        (except_map_eq_ok.mpr ⟨members, readBase64All_encode members, rfl⟩)
    | list items =>
      rw [toJson, ofJson_tagged, Json.depth_tagged, Wire.within_succ, Json.ofItems, Json.depth]
      cases depth with
      | zero => rw [ofPayload]; rfl
      | succ depth =>
        rw [ofPayload, ofItems_itemsToJson items h depth, Wire.within_map, Wire.within_succ]
    | map fields =>
      obtain ⟨hascending, hfields⟩ := h
      rw [toJson, ofJson_tagged, Json.depth_tagged, Wire.within_succ, Json.ofMembers, Json.depth]
      cases depth with
      | zero => rw [ofPayload]; rfl
      | succ depth =>
        rw [ofPayload, Ending.isClosed, ofMembers_fieldsToJson fields hfields depth,
          Wire.within_map, Wire.within_succ, Fields.ofList_eq_self hascending]

theorem ofItems_itemsToJson (items : List AttributeValue) (h : ItemsOrdered items) (depth : Nat) :
    ofItems depth true (itemsToJson items) =
      Wire.within depth (Json.allDepth (itemsToJson items)) items := by
  cases items with
  | nil => rfl
  | cons item rest =>
    rw [itemsToJson, ofItems, Json.allDepth, ofJson_toJson item h.1 depth,
      ofItems_itemsToJson rest h.2 depth]
    exact Wire.within_bind item rest List.cons

theorem ofMembers_fieldsToJson (fields : List (String × AttributeValue)) (h : FieldsOrdered fields)
    (depth : Nat) :
    ofMembers depth true (fieldsToJson fields) =
      Wire.within depth (Json.membersDepth (fieldsToJson fields)) fields := by
  cases fields with
  | nil => rfl
  | cons field rest =>
    obtain ⟨key, value⟩ := field
    rw [fieldsToJson, ofMembers, Json.membersDepth, ofJson_toJson value h.1 depth,
      ofMembers_fieldsToJson rest h.2 depth]
    exact Wire.within_bind value rest fun value rest => (key, value) :: rest
end

/-! ### What is read of a wire form -/

theorem itemsOrdered_iff {items : List AttributeValue} :
    ItemsOrdered items ↔ ∀ item ∈ items, item.Ordered := by
  induction items with
  | nil => exact iff_of_true trivial (List.forall_mem_nil _)
  | cons item rest ih => rw [ItemsOrdered, ih, List.forall_mem_cons]

theorem fieldsOrdered_iff {fields : List (String × AttributeValue)} :
    FieldsOrdered fields ↔ ∀ field ∈ fields, field.2.Ordered := by
  induction fields with
  | nil => exact iff_of_true trivial (List.forall_mem_nil _)
  | cons field rest ih =>
    obtain ⟨key, value⟩ := field
    rw [FieldsOrdered, ih, List.forall_mem_cons]

theorem allDepth_itemsToJson_le {items : List AttributeValue} {n : Nat} :
    Json.allDepth (itemsToJson items) ≤ n ↔ ∀ item ∈ items, item.toJson.depth ≤ n := by
  induction items with
  | nil => exact iff_of_true (Nat.zero_le n) (List.forall_mem_nil _)
  | cons item rest ih => rw [itemsToJson, Json.allDepth, Nat.max_le, ih, List.forall_mem_cons]

theorem membersDepth_fieldsToJson_le {fields : List (String × AttributeValue)} {n : Nat} :
    Json.membersDepth (fieldsToJson fields) ≤ n ↔ ∀ field ∈ fields, field.2.toJson.depth ≤ n := by
  induction fields with
  | nil => exact iff_of_true (Nat.zero_le n) (List.forall_mem_nil _)
  | cons field rest ih =>
    obtain ⟨key, value⟩ := field
    rw [fieldsToJson, Json.membersDepth, Nat.max_le, ih, List.forall_mem_cons]

mutual
/-- What is read of a wire form is ordered, and its own wire form is no deeper. -/
theorem Wires.ordered_and_depth_le {j : Json} {v : AttributeValue} (h : Wires j v) :
    v.Ordered ∧ v.toJson.depth ≤ j.depth := by
  cases h with
  | tagged carried =>
    rw [Json.depth_tagged]
    exact carried.ordered_and_depth_le

theorem Carries.ordered_and_depth_le {tag : String} {payload : Json} {v : AttributeValue}
    (h : Carries tag payload v) : v.Ordered ∧ v.toJson.depth ≤ payload.depth + 1 := by
  cases h with
  | null | bool | text | number | binary =>
    refine ⟨trivial, ?_⟩
    rewrite [toJson, Json.depth_tagged]
    exact Nat.le_refl 1
  | textSet members | numberSet members =>
    refine ⟨trivial, ?_⟩
    rewrite [toJson, Json.depth_tagged]
    exact Nat.le_refl _
  | binarySet decoded =>
    refine ⟨trivial, ?_⟩
    rewrite [toJson, Json.depth_tagged, depth_jsonTexts, depth_jsonTexts]
    exact Nat.le_refl 2
  | list held =>
    have hitems := held.ordered_and_depth_le
    refine ⟨itemsOrdered_iff.mpr fun item hitem => (hitems item hitem).1, ?_⟩
    rw [toJson, Json.depth_tagged]
    refine Nat.succ_le_succ (Nat.succ_le_succ ?_)
    exact allDepth_itemsToJson_le.mpr fun item hitem => (hitems item hitem).2
  | map held =>
    have hpairs := held.ordered_and_depth_le
    refine ⟨⟨Fields.ascending_ofList _, fieldsOrdered_iff.mpr fun field hfield => ?_⟩, ?_⟩
    · exact (hpairs field (Fields.mem_of_mem_ofList hfield)).1
    · rw [toJson, Json.depth_tagged]
      refine Nat.succ_le_succ (Nat.succ_le_succ ?_)
      exact membersDepth_fieldsToJson_le.mpr fun field hfield =>
        (hpairs field (Fields.mem_of_mem_ofList hfield)).2

theorem WiresItems.ordered_and_depth_le {forms : List Json} {items : List AttributeValue}
    (h : WiresItems forms items) :
    ∀ item ∈ items, item.Ordered ∧ item.toJson.depth ≤ Json.allDepth forms := by
  cases h with
  | nil => exact List.forall_mem_nil _
  | cons head tail =>
    obtain ⟨hordered, hdepth⟩ := head.ordered_and_depth_le
    refine List.forall_mem_cons.mpr ⟨⟨hordered, ?_⟩, fun item hitem => ?_⟩
    · exact Nat.le_trans hdepth (Nat.le_max_left _ _)
    · obtain ⟨hordered, hdepth⟩ := tail.ordered_and_depth_le item hitem
      exact ⟨hordered, Nat.le_trans hdepth (Nat.le_max_right _ _)⟩

theorem WiresMembers.ordered_and_depth_le {forms : List (String × Json)}
    {pairs : List (String × AttributeValue)} (h : WiresMembers forms pairs) :
    ∀ pair ∈ pairs, pair.2.Ordered ∧ pair.2.toJson.depth ≤ Json.membersDepth forms := by
  cases h with
  | nil => exact List.forall_mem_nil _
  | cons key head tail =>
    obtain ⟨hordered, hdepth⟩ := head.ordered_and_depth_le
    refine List.forall_mem_cons.mpr ⟨⟨hordered, ?_⟩, fun pair hpair => ?_⟩
    · exact Nat.le_trans hdepth (Nat.le_max_left _ _)
    · obtain ⟨hordered, hdepth⟩ := tail.ordered_and_depth_le pair hpair
      exact ⟨hordered, Nat.le_trans hdepth (Nat.le_max_right _ _)⟩
end

/-! ### Texts -/

theorem isPlain_jsonTexts (texts : List String) : (jsonTexts texts).IsPlain := by
  refine ⟨rfl, ?_⟩
  induction texts with
  | nil => trivial
  | cons text rest ih => exact ⟨trivial, ih⟩

mutual
theorem isPlain_toJson (v : AttributeValue) : v.toJson.IsPlain := by
  cases v with
  | text | number | binary | bool | null => exact ⟨rfl, trivial, trivial⟩
  | textSet members => exact ⟨rfl, isPlain_jsonTexts members, trivial⟩
  | numberSet members => exact ⟨rfl, isPlain_jsonTexts members, trivial⟩
  | binarySet members => exact ⟨rfl, isPlain_jsonTexts _, trivial⟩
  | list items => exact ⟨rfl, ⟨rfl, allPlain_itemsToJson items⟩, trivial⟩
  | map fields => exact ⟨rfl, ⟨rfl, membersPlain_fieldsToJson fields⟩, trivial⟩

theorem allPlain_itemsToJson (items : List AttributeValue) :
    Json.AllPlain (itemsToJson items) := by
  cases items with
  | nil => trivial
  | cons item rest => exact ⟨isPlain_toJson item, allPlain_itemsToJson rest⟩

theorem membersPlain_fieldsToJson (fields : List (String × AttributeValue)) :
    Json.MembersPlain (fieldsToJson fields) := by
  cases fields with
  | nil => trivial
  | cons field rest => exact ⟨isPlain_toJson field.2, membersPlain_fieldsToJson rest⟩
end

/-- The text of a value is read as the value, if that is not nested deeper than a text may be. -/
theorem readText_toJson {v : AttributeValue} (h : v.Ordered) :
    Wire.readText ofJson v.toJson.print = Wire.within Wire.depthLimit v.toJson.depth v := by
  rw [Wire.readText, Json.Document.ofText_print (isPlain_toJson v)]
  dsimp only
  rw [ofJson_toJson v h]
  exact Wire.within_bind_of_ok rfl

theorem readText_eq_ok {source : String} {v : AttributeValue} :
    Wire.readText ofJson source = .ok v ↔ ∃ j, Json.Document.ofText source = ⟨j, true⟩ ∧
      Wires j v ∧ j.depth ≤ Wire.depthLimit := by
  rw [Wire.readText]
  generalize Json.Document.ofText source = document
  obtain ⟨root, complete⟩ := document
  dsimp only
  simp only [except_bind_eq_ok, ofJson_eq_ok]
  cases complete with
  | false => exact iff_of_false (fun ⟨_, _, h⟩ => by cases h) fun ⟨_, h, _⟩ => by cases h
  | true =>
    constructor
    · rintro ⟨value, hwires, h⟩
      cases h
      exact ⟨root, rfl, hwires⟩
    · rintro ⟨j, h, hwires⟩
      cases h
      exact ⟨v, hwires, rfl⟩

/-- A value is read back as it was written, from its tree and from its text, if the reader may go as deep
as the value is nested; deeper values are refused. What is accepted is an object with exactly one
member, under one of the ten tags, with the shape of that tag; and what is read of it is read again
from its own wire form. -/
theorem readText_exact :
    (∀ v : AttributeValue, v.Ordered →
      (∀ depth, ofJson depth v.toJson = Wire.within depth v.toJson.depth v) ∧
      Wire.readText ofJson v.toJson.print = Wire.within Wire.depthLimit v.toJson.depth v) ∧
    (∀ depth j v, ofJson depth j = .ok v →
      Wires j v ∧ (∃ tag ∈ tags, ∃ payload, j = .tagged tag payload ∧ Carries tag payload v) ∧
        ofJson depth v.toJson = .ok v) ∧
    ∀ source v, Wire.readText ofJson source = .ok v →
      (∃ j, Json.Document.ofText source = ⟨j, true⟩ ∧ Wires j v) ∧
        Wire.readText ofJson v.toJson.print = .ok v := by
  refine ⟨fun v h => ⟨ofJson_toJson v h, readText_toJson h⟩, fun depth j v h => ?_,
    fun source v h => ?_⟩
  · obtain ⟨hwires, hdepth⟩ := ofJson_eq_ok.mp h
    obtain ⟨hordered, hless⟩ := hwires.ordered_and_depth_le
    refine ⟨hwires, ?_, ?_⟩
    · obtain ⟨hcarried⟩ := hwires
      exact ⟨_, hcarried.mem_tags, _, rfl, hcarried⟩
    · rw [ofJson_toJson v hordered]
      exact Wire.within_of_le v (Nat.le_trans hless hdepth)
  · obtain ⟨j, hdocument, hwires, hdepth⟩ := readText_eq_ok.mp h
    obtain ⟨hordered, hless⟩ := hwires.ordered_and_depth_le
    refine ⟨⟨j, hdocument, hwires⟩, ?_⟩
    rw [readText_toJson hordered]
    exact Wire.within_of_le v (Nat.le_trans hless hdepth)

/-- A map with an empty set, a null that is false and a byte string, whose text has a quote. -/
def sampleMap : AttributeValue :=
  .map [("a\"b", .textSet []), ("n", .list [.null false, .binarySet [[1, 2], [0]]])]

theorem readText_exact_sampleMap :
    sampleMap.Ordered ∧ Wire.readText ofJson sampleMap.toJson.print = .ok sampleMap := by
  have hkeys : Fields.Ascending [("a\"b", textSet []),
      ("n", list [.null false, .binarySet [[1, 2], [0]]])] :=
    List.pairwise_pair.mpr (by decide)
  have hordered : sampleMap.Ordered := ⟨hkeys, trivial, ⟨trivial, trivial, trivial⟩, trivial⟩
  refine ⟨hordered, ?_⟩
  rw [(readText_exact.1 sampleMap hordered).2]
  rfl

/-- Lists in lists, the innermost of which holds null. -/
def nestedLists : Nat → AttributeValue
  | 0 => .null true
  | n + 1 => .list [nestedLists n]

theorem nestedLists_ordered (n : Nat) : (nestedLists n).Ordered := by
  induction n with
  | zero => trivial
  | succ n ih => exact ⟨ih, trivial⟩

theorem depth_nestedLists (n : Nat) : (nestedLists n).toJson.depth = 2 * n + 1 := by
  induction n with
  | zero => rfl
  | succ n ih =>
    rw [nestedLists, toJson, Json.depth_tagged, itemsToJson, itemsToJson, Json.ofItems, Json.depth,
      Json.allDepth, Json.allDepth, ih, Nat.max_zero]
    omega

/-- Of lists in lists 63 are read back, and no more. -/
theorem readText_nestedLists :
    Wire.readText ofJson (nestedLists 63).toJson.print = .ok (nestedLists 63) ∧
      Wire.readText ofJson (nestedLists 64).toJson.print = .error .malformed := by
  constructor
  · rw [readText_toJson (nestedLists_ordered 63), depth_nestedLists]
    rfl
  · rw [readText_toJson (nestedLists_ordered 64), depth_nestedLists]
    rfl

end AttributeValue

end ItemMapper
