import ItemMapper.Codec.Basic

/-!
# Reading values of declared types

An attribute value is read by type. Null is read as nothing, as an empty container or as the default
of a document; a set is read as the list of its members. The path of an error leads from the root to
the value that could not be read.

Reading ends because every step goes to a smaller attribute value, or stays with the same one and
goes to a part of the type.

## Main definitions

* `Codec.decode`: the value of a type that an attribute value stands for.
-/

namespace ItemMapper

namespace AttributeValue

/-- The elements of a list or a set. -/
def elements? : AttributeValue → Option (List AttributeValue)
  | .list items => some items
  | .textSet members => some (members.map .text)
  | .numberSet members => some (members.map .number)
  | .binarySet members => some (members.map .binary)
  | _ => none

theorem size_pos (v : AttributeValue) : 0 < v.size := by
  cases v <;> unfold size <;> omega

theorem sizeItems_map {α : Type} (f : α → AttributeValue) (h : ∀ a, (f a).size = 1) (xs : List α) :
    sizeItems (xs.map f) = xs.length := by
  induction xs with
  | nil => rfl
  | cons x xs ih => simp [sizeItems, h, ih]; omega

theorem sizeItems_elements {v : AttributeValue} {items : List AttributeValue}
    (h : v.elements? = some items) : sizeItems items < v.size := by
  cases v <;> simp only [elements?, Option.some.injEq, reduceCtorEq] at h <;> subst h
  case list items => simp [size]
  case textSet ms => rw [sizeItems_map _ (fun _ => rfl)]; simp [size]
  case numberSet ms => rw [sizeItems_map _ (fun _ => rfl)]; simp [size]
  case binarySet ms => rw [sizeItems_map _ (fun _ => rfl)]; simp [size]

theorem size_asMap {v : AttributeValue} {fields : Item} (h : v.asMap? = some fields) :
    v.size = 1 + sizeFields fields := by
  cases v <;> simp_all [asMap?, size]

theorem size_get?_le {fields : Item} {name : String} {v : AttributeValue}
    (h : fields.get? name = some v) : v.size ≤ sizeFields fields := by
  induction fields with
  | nil => simp [Fields.get?] at h
  | cons entry rest ih =>
    obtain ⟨key, value⟩ := entry
    rw [Fields.get?_cons] at h
    split at h
    · cases h; simp [sizeFields]
    · have := ih h
      simp only [sizeFields]; omega

end AttributeValue

namespace Codec

/-- The name of the variant that the fields of a document carry. -/
def readDiscriminator (c : Codec) (fields : Item) : Except Error String :=
  let name := c.options.typeDiscriminator
  match fields.get? name with
  | some (.text variant) => .ok variant
  | some other => .error ((Error.typeMismatch "type discriminator" other).within (.field name))
  | none => .error (Cause.missingRequiredAttribute name)

/-- The variant whose document has a discriminator. -/
def variantOf? (c : Codec) (variants : List (String × DocumentId)) (discriminator : String) :
    Option (String × DocumentId) :=
  variants.find? fun (_, id) => c.discriminatorFor (c.info (.document id)) == some discriminator

/-- Reads a value of a type by a converter. -/
def readLeaf (c : Codec) (type : Ty) (value : AttributeValue) : Except Error Datum :=
  Converter.readBy (Converter.first? c.converters type) (c.target type) value

/-- The members of a document for which nothing is stored. -/
def initialMembers (d : Document) : List Datum := d.fields.map (·.initial)

mutual
/-- The value of a type that an attribute value stands for. -/
def decode (c : Codec) (type : Ty) (value : AttributeValue) : Except Error Datum :=
  match type with
  | .option inner =>
    if value.isAnyNull then .ok .absent else (decode c inner value).map .present
  | .boxed inner => (decode c inner value).map .boxed
  | .enumeration e => (e.read c.options value).map .enumeration
  | .list inner =>
    if value.isAnyNull then .ok (.list [])
    else
      match _h : value.elements? with
      | some items => (decodeItems c inner 0 items).map .list
      | none => .error (Error.typeMismatch "list" value)
  | .set hashed inner =>
    if value.isAnyNull then .ok (.list [])
    else
      match _h : value.elements? with
      | some items => (decodeItems c inner 0 items).map (Datum.ofMembers hashed)
      | none => .error (Error.typeMismatch "set" value)
  | .map _ inner =>
    if value.isAnyNull then .ok (.map [])
    else
      match _h : value.asMap? with
      | some fields => (decodeEntries c inner fields).map .map
      | none => .error (Error.typeMismatch "map" value)
  | .document id =>
    if value.isAnyNull then .ok (.document (initialMembers (c.documents id)))
    else
      match _h : value.asMap? with
      | some fields => do
        (c.documents id).check
        (decodeMembers c fields (c.documents id).fields).map .document
      | none => .error (Error.typeMismatch (c.documents id).typeName value)
  | .oneOf name variants =>
    match _h : value.asMap? with
    | some fields => do
      let discriminator ← c.readDiscriminator fields
      match c.variantOf? variants discriminator with
      | some (variant, id) => do
        (c.documents id).check
        (decodeMembers c fields (c.documents id).fields).map (.variant variant)
      | none => .error (Cause.typeMismatch name s!"discriminator '{discriminator}'")
    | none => .error (Error.typeMismatch name value)
  | .dynamic => .ok (.dynamic (Value.ofAttribute value))
  | .stored => .ok (.stored value)
  | .scalar s => c.readLeaf (.scalar s) value
  | .foreign name => c.readLeaf (.foreign name) value
termination_by (value.size, 1, sizeOf type)
decreasing_by
  · apply Prod.Lex.right; apply Prod.Lex.right; simp
  · apply Prod.Lex.right; apply Prod.Lex.right; simp
  · apply Prod.Lex.left; exact AttributeValue.sizeItems_elements _h
  · apply Prod.Lex.left; exact AttributeValue.sizeItems_elements _h
  · apply Prod.Lex.left; have := AttributeValue.size_asMap _h; omega
  · rw [AttributeValue.size_asMap _h]; apply Prod.Lex.right; apply Prod.Lex.left; omega
  · rw [AttributeValue.size_asMap _h]; apply Prod.Lex.right; apply Prod.Lex.left; omega

/-- The values of the elements of a list, the first of which has the given position. -/
def decodeItems (c : Codec) (inner : Ty) (position : Nat) (items : List AttributeValue) :
    Except Error (List Datum) :=
  match items with
  | [] => .ok []
  | item :: rest => do
    let value ← inside (.index position) (decode c inner item)
    let values ← decodeItems c inner (position + 1) rest
    pure (value :: values)
termination_by (AttributeValue.sizeItems items, 2, 0)
decreasing_by
  · have := AttributeValue.size_pos item
    simp only [AttributeValue.sizeItems]
    rcases Nat.eq_zero_or_pos (AttributeValue.sizeItems rest) with h | h
    · rw [h]; apply Prod.Lex.right; apply Prod.Lex.left; omega
    · apply Prod.Lex.left; omega
  · have := AttributeValue.size_pos item
    apply Prod.Lex.left; simp only [AttributeValue.sizeItems]; omega

/-- The values of the fields of a map. -/
def decodeEntries (c : Codec) (inner : Ty) (fields : List (String × AttributeValue)) :
    Except Error (List (String × Datum)) :=
  match fields with
  | [] => .ok []
  | (key, field) :: rest => do
    let value ← inside (.field key) (decode c inner field)
    let values ← decodeEntries c inner rest
    pure ((key, value) :: values)
termination_by (AttributeValue.sizeFields fields, 2, 0)
decreasing_by
  · have := AttributeValue.size_pos field
    simp only [AttributeValue.sizeFields]
    rcases Nat.eq_zero_or_pos (AttributeValue.sizeFields rest) with h | h
    · rw [h]; apply Prod.Lex.right; apply Prod.Lex.left; omega
    · apply Prod.Lex.left; omega
  · have := AttributeValue.size_pos field
    apply Prod.Lex.left; simp only [AttributeValue.sizeFields]; omega

/-- The value of a declared member of a document whose stored fields are given. A member for which
nothing is stored keeps what it holds at first, unless it is part of the key. -/
def decodeMember (c : Codec) (stored : Item) (f : Field) : Except Error Datum :=
  match _h : stored.get? (c.storedName f) with
  | none =>
    if isKey f then .error (Cause.missingRequiredAttribute (c.storedName f)) else .ok f.initial
  | some value =>
    inside (.field (c.storedName f)) <|
      match _h' : runReadHooks f.onRead value with
      | .ok read => decode c f.type read
      | .error e => .error e
termination_by (1 + AttributeValue.sizeFields stored, 0, 0)
decreasing_by
  have h₁ := AttributeValue.size_get?_le _h
  have h₂ := runReadHooks_size_le _h'
  apply Prod.Lex.left; omega

/-- The values of the declared members of a document. -/
def decodeMembers (c : Codec) (stored : Item) (fields : List Field) : Except Error (List Datum) :=
  match fields with
  | [] => .ok []
  | f :: rest => do
    let value ← decodeMember c stored f
    let values ← decodeMembers c stored rest
    pure (value :: values)
termination_by (1 + AttributeValue.sizeFields stored, 0, fields.length + 1)
decreasing_by
  · apply Prod.Lex.right; apply Prod.Lex.right; simp
  · apply Prod.Lex.right; apply Prod.Lex.right; simp
end

end Codec

end ItemMapper
