import ItemMapper.Proofs.Codec.Recursion
import ItemMapper.Proofs.Values.Literals
import ItemMapper.Proofs.Values.Reordering

/-!
# Values of types in other orders

A map by hashes and a set by hashes are visited in another order in every run. What a value of a type is
stored as does not depend on the order of any map in it, at any depth, nor on the order of any set whose
elements are settled. A set whose elements are not settled is stored in the order in which it is visited:
directly in an array where it stays a list, and elsewhere where it holds elements that no set is of or
numbers of which the texts are in a circle.

## Main definitions

* `Codec.Reorders`: values of a type that differ in the order of one set or one map, at any depth.

## Main statements

* `Codec.Reorders.piece_alike`: what is stored of a value in which a set or a map is reordered.
* `Codec.encodeWith_reordered`: values that differ in the order of sets and maps are stored alike, and
  where a set is stored alike in all orders.
-/

namespace ItemMapper

open Writer (closeArray keptMembers)
open AttributeValue (dropVoid)

namespace Codec

variable {c : Codec} {inner : Ty}

/-! ### Parts of values -/

theorem itemPieces_eq_ok {position : Nat} {items : List Datum} {pieces : List AttributeValue} :
    c.itemPieces inner position items = .ok pieces ↔
      List.Forall₂ (fun item piece => c.piece none true inner item = .ok piece) items pieces := by
  induction items generalizing position pieces with
  | nil => simp [itemPieces, eq_comm]
  | cons item rest ih =>
    rw [itemPieces, bind_cons_eq_ok, List.forall₂_cons_left_iff]
    simp only [ih]

theorem entryPieces_eq_ok {entries : List (String × Datum)}
    {pieces : List (String × AttributeValue)} :
    c.entryPieces inner entries = .ok pieces ↔
      List.Forall₂ (Stored (c.piece none false inner)) entries pieces := by
  induction entries generalizing pieces with
  | nil => simp [entryPieces, eq_comm]
  | cons entry rest ih =>
    obtain ⟨key, value⟩ := entry
    rw [entryPieces, bind_cons_eq_ok, forall₂_stored_cons_iff]
    simp only [ih]

/-! ### Reordering -/

/-- Two values of a type that differ in the order in which one set or one map in them is visited, directly
in an array or elsewhere. The elements of the set are settled there, and the keys of the map are distinct. -/
inductive Reorders (c : Codec) : Bool → Ty → Datum → Datum → Prop
  | set {inArray hashed : Bool} {inner : Ty} {items order : List Datum} (hperm : items.Perm order)
      (hsettled : ∀ pieces, c.itemPieces inner 0 items = .ok pieces → Settled inArray pieces) :
      Reorders c inArray (.set hashed inner) (.list items) (.list order)
  | map {inArray hashed : Bool} {inner : Ty} {entries order : List (String × Datum)}
      (hperm : entries.Perm order) (hkeys : (entries.map (·.1)).Nodup) :
      Reorders c inArray (.map hashed inner) (.map entries) (.map order)
  | present {inArray : Bool} {inner : Ty} {value value' : Datum}
      (h : Reorders c inArray inner value value') :
      Reorders c inArray (.option inner) (.present value) (.present value')
  | boxed {inArray : Bool} {inner : Ty} {value value' : Datum}
      (h : Reorders c inArray inner value value') :
      Reorders c inArray (.boxed inner) (.boxed value) (.boxed value')
  | item {inArray : Bool} {inner : Ty} {before after : List Datum} {value value' : Datum}
      (h : Reorders c true inner value value') :
      Reorders c inArray (.list inner) (.list (before ++ value :: after))
        (.list (before ++ value' :: after))
  | element {inArray hashed : Bool} {inner : Ty} {before after : List Datum} {value value' : Datum}
      (h : Reorders c true inner value value') :
      Reorders c inArray (.set hashed inner) (.list (before ++ value :: after))
        (.list (before ++ value' :: after))
  | entry {inArray hashed : Bool} {inner : Ty} {before after : List (String × Datum)} {key : String}
      {value value' : Datum} (h : Reorders c false inner value value') :
      Reorders c inArray (.map hashed inner) (.map (before ++ (key, value) :: after))
        (.map (before ++ (key, value') :: after))
  /-- A member of a document, which is written for the field at its place. -/
  | member {inArray : Bool} {id : DocumentId} {f : Field} {before after : List Datum}
      {value value' : Datum} (hf : (c.documents id).fields[before.length]? = some f)
      (h : Reorders c false f.type value value') :
      Reorders c inArray (.document id) (.document (before ++ value :: after))
        (.document (before ++ value' :: after))
  | variantMember {inArray : Bool} {name variant : String} {variants : List (String × DocumentId)}
      {id : DocumentId} {f : Field} {before after : List Datum} {value value' : Datum}
      (hid : variants.lookup variant = some id)
      (hf : (c.documents id).fields[before.length]? = some f)
      (h : Reorders c false f.type value value') :
      Reorders c inArray (.oneOf name variants) (.variant variant (before ++ value :: after))
        (.variant variant (before ++ value' :: after))
  | dynamic {inArray : Bool} {value value' : Value}
      (h : Value.Reorders c.options inArray value value') :
      Reorders c inArray .dynamic (.dynamic value) (.dynamic value')

/-- Members that count as null or as default together are written together. -/
theorem keepsMember_congr {value value' : Datum} (hnull : value.isNull = value'.isNull)
    (hdefault : value.isDefault = value'.isDefault) (f : Field) :
    c.keepsMember f value = c.keepsMember f value' := by
  unfold keepsMember
  rw [hnull, hdefault]

theorem memberPieces_alike {f : Field} {value value' : Datum}
    (hkeeps : c.keepsMember f value = c.keepsMember f value')
    (h : Alike (c.piece none false f.type value) (c.piece none false f.type value'))
    {fields : List Field} {before : List Datum} (hf : fields[before.length]? = some f)
    (after : List Datum) :
    Alike (c.memberPieces fields (before ++ value :: after))
      (c.memberPieces fields (before ++ value' :: after)) := by
  induction before generalizing fields with
  | nil =>
    obtain ⟨rest, rfl⟩ : ∃ rest, fields = f :: rest := by
      cases fields with
      | nil => cases hf
      | cons first rest =>
        cases hf
        exact ⟨rest, rfl⟩
    rw [List.nil_append, List.nil_append, memberPieces, memberPieces, hkeeps]
    split
    · refine Alike.bind ?_ fun _ => .refl _
      exact (h.bind fun _ => .refl _).mapError _ _
    · exact .refl _
  | cons first before ih =>
    cases fields with
    | nil => cases hf
    | cons g fields =>
      have hrest := @ih fields hf
      rw [List.cons_append, List.cons_append, memberPieces, memberPieces]
      split
      · exact (Alike.refl _).bind fun _ => hrest.bind fun _ => .refl _
      · exact hrest

namespace Reorders

variable {inArray : Bool} {type : Ty} {value value' : Datum}

theorem isEmpty_middle {α : Type} {x : α} {before after : List α} :
    (before ++ x :: after).isEmpty = false := by
  cases before <;> rfl

theorem isNull_eq (h : c.Reorders inArray type value value') : value.isNull = value'.isNull := by
  induction h with
  | present _ ih | boxed _ ih => exact ih
  | dynamic h => exact h.isNull_eq
  | _ => rfl

theorem isDefault_eq (h : c.Reorders inArray type value value') :
    value.isDefault = value'.isDefault := by
  induction h with
  | set hperm _ | map hperm _ => exact hperm.isEmpty_eq
  | boxed _ ih => exact ih
  | item | element | entry => exact isEmpty_middle.trans isEmpty_middle.symm
  | _ => rfl

theorem itemPieces_alike (h : ∀ outer, Alike (c.piece outer true inner value)
    (c.piece outer true inner value')) (before after : List Datum) :
    Alike (c.itemPieces inner 0 (before ++ value :: after))
      (c.itemPieces inner 0 (before ++ value' :: after)) := by
  intro pieces
  rw [itemPieces_eq_ok, itemPieces_eq_ok]
  exact forall₂_replace_iff
    (R := fun item piece => c.piece none true inner item = .ok piece) (h none)

/-- A value in which a set or a map is reordered is stored as before, or cannot be stored in either
order. -/
theorem piece_alike (h : c.Reorders inArray type value value') (outer : Option WriteFlags) :
    Alike (c.piece outer inArray type value) (c.piece outer inArray type value') := by
  induction h generalizing outer with
  | set hperm hsettled =>
    rw [piece, piece]
    exact .closeArray_of_perm hperm (fun _ => itemPieces_eq_ok) (fun _ => itemPieces_eq_ok) hsettled
  | map hperm hkeys =>
    rw [piece, piece]
    exact .fields_of_perm hperm hkeys (fun _ => entryPieces_eq_ok) (fun _ => entryPieces_eq_ok)
      fun fields => .map (keptMembers outer [] fields)
  | present _ ih | boxed _ ih =>
    rw [piece, piece]
    exact ih outer
  | item _ ih | element _ ih =>
    rw [piece, piece]
    exact (itemPieces_alike ih _ _).bind fun _ => .refl _
  | @entry _ _ inner _ _ _ _ _ _ ih =>
    rw [piece, piece]
    refine Alike.map (fun pieces => ?_) _
    rw [entryPieces_eq_ok, entryPieces_eq_ok]
    refine forall₂_replace_iff (R := Stored (c.piece none false inner)) fun field => ?_
    exact and_congr_right fun _ => ih none field.2
  | member hf h ih =>
    rw [piece, piece]
    refine (Alike.refl _).bind fun _ => Alike.map ?_ _
    exact memberPieces_alike (keepsMember_congr h.isNull_eq h.isDefault_eq _) (ih none) hf _
  | variantMember hid hf h ih =>
    rw [piece, piece, hid]
    refine (Alike.refl _).bind fun _ => Alike.map ?_ _
    exact memberPieces_alike (keepsMember_congr h.isNull_eq h.isDefault_eq _) (ih none) hf _
  | dynamic h =>
    rw [piece, piece]
    exact h.piece_alike _

end Reorders

/-! ### All orders -/

/-- Values that differ in the order of any number of sets and maps are stored alike. -/
theorem encodeWith_alike (h : c.ConvertersYield) {type : Ty} {value value' : Datum}
    (hreorders : Relation.ReflTransGen (c.Reorders false type) value value') (flags : WriteFlags) :
    Alike (c.encodeWith flags type value) (c.encodeWith flags type value') := by
  induction hreorders with
  | refl => exact .refl _
  | @tail middle last _ hstep ih =>
    refine ih.trans ?_
    rw [encodeWith_eq_piece h, encodeWith_eq_piece h]
    exact (hstep.piece_alike (some flags)).map _

section
variable {items order : List Datum} {pieces written : List AttributeValue}

/-- Items in another order are stored as the same in another order. -/
theorem exists_itemPieces_perm (hpieces : c.itemPieces inner 0 items = .ok pieces)
    (hperm : items.Perm order) :
    ∃ written, c.itemPieces inner 0 order = .ok written ∧ pieces.Perm written := by
  obtain ⟨written, hwritten, hsame⟩ := forall₂_perm_left hperm (itemPieces_eq_ok.mp hpieces)
  exact ⟨written, itemPieces_eq_ok.mpr hwritten, hsame⟩

/-- Every order of what items are stored as is that of the items in some order. -/
theorem exists_items_perm (hpieces : c.itemPieces inner 0 items = .ok pieces)
    (hperm : pieces.Perm written) :
    ∃ order, c.itemPieces inner 0 order = .ok written ∧ items.Perm order := by
  obtain ⟨order, horder, hsame⟩ := forall₂_perm_left hperm (itemPieces_eq_ok.mp hpieces).flip
  exact ⟨order, itemPieces_eq_ok.mpr horder.flip, hsame⟩

theorem except_map_injective {ε α β : Type} {f : α → β} (hf : Function.Injective f) :
    Function.Injective (Except.map f : Except ε α → Except ε β) := by
  rintro (e | x) (e' | y) h
  · exact congrArg _ (Except.error.inj h)
  · cases h
  · cases h
  · exact congrArg _ (hf (Except.ok.inj h))

/-- A list of one list holds that list, unless it is empty. -/
theorem eq_of_dropVoid_list {xs ys : List AttributeValue}
    (h : dropVoid [.list xs] = dropVoid [.list ys]) : xs = ys := by
  cases xs with
  | nil =>
    cases ys with
    | nil => rfl
    | cons y ys => cases h
  | cons x xs =>
    cases ys with
    | nil => cases h
    | cons y ys => exact AttributeValue.list.inj (List.cons.inj h).1

theorem encodeWith_set (h : c.ConvertersYield) (hpieces : c.itemPieces inner 0 items = .ok pieces)
    (flags : WriteFlags) (hashed : Bool) :
    c.encodeWith flags (.set hashed inner) (.list items) =
      (closeArray true false pieces).map fun piece =>
        if flags.keeps piece then some piece else none := by
  rw [encodeWith_eq_piece h, piece, hpieces]
  rfl

theorem encodeWith_list_set (h : c.ConvertersYield)
    (hpieces : c.itemPieces inner 0 items = .ok pieces) (flags : WriteFlags) (hashed : Bool) :
    c.encodeWith flags (.list (.set hashed inner)) (.list [.list items]) =
      .ok (if flags.keeps (.list (dropVoid [.list (dropVoid pieces)])) then
        some (.list (dropVoid [.list (dropVoid pieces)])) else none) := by
  rw [encodeWith_eq_piece h, piece, itemPieces, itemPieces, piece, hpieces]
  change Except.map _ ((Except.mapError _ (closeArray true true pieces) >>= _) >>= _) = _
  rw [closeArray_of_inArray]
  change Except.map _ (closeArray false false [.list (dropVoid pieces)]) = _
  rw [Writer.closeArray_eq]
  rfl

/-- A set that stands in no array is stored the same from all orders just where its elements are
settled. -/
theorem encodeWith_set_iff (h : c.ConvertersYield) (hpieces : c.itemPieces inner 0 items = .ok pieces)
    (hashed : Bool) :
    (∀ order, items.Perm order → ∀ flags, c.encodeWith flags (.set hashed inner) (.list order) =
        c.encodeWith flags (.set hashed inner) (.list items)) ↔ Settled false pieces := by
  constructor
  · intro hsame
    refine closeArray_perm_iff.mp fun written hperm => ?_
    obtain ⟨order, hwritten, horder⟩ := exists_items_perm hpieces hperm
    have hall := hsame order horder .all
    simp only [encodeWith_set h hwritten, encodeWith_set h hpieces, WriteFlags.keeps_all, if_true]
      at hall
    exact except_map_injective (Option.some_injective _) hall
  · intro hsettled order horder flags
    obtain ⟨written, hwritten, hperm⟩ := exists_itemPieces_perm hpieces horder
    rw [encodeWith_set h hwritten, encodeWith_set h hpieces, hsettled.closeArray_eq hperm]

/-- A set that stands in a list is stored the same from all orders just where its elements are settled in
an array. -/
theorem encodeWith_list_set_iff (h : c.ConvertersYield)
    (hpieces : c.itemPieces inner 0 items = .ok pieces) (hashed : Bool) :
    (∀ order, items.Perm order → ∀ flags,
        c.encodeWith flags (.list (.set hashed inner)) (.list [.list order]) =
          c.encodeWith flags (.list (.set hashed inner)) (.list [.list items])) ↔
      Settled true pieces := by
  constructor
  · intro hsame
    refine closeArray_perm_iff.mp fun written hperm => ?_
    obtain ⟨order, hwritten, horder⟩ := exists_items_perm hpieces hperm
    have hall := hsame order horder .all
    rw [encodeWith_list_set h hwritten, encodeWith_list_set h hpieces, WriteFlags.keeps_all,
      WriteFlags.keeps_all, if_pos rfl, if_pos rfl] at hall
    rw [closeArray_of_inArray, closeArray_of_inArray]
    exact congrArg (Except.ok ∘ AttributeValue.list)
      (eq_of_dropVoid_list (AttributeValue.list.inj (Option.some.inj (Except.ok.inj hall))))
  · intro hsettled order horder flags
    obtain ⟨written, hwritten, hperm⟩ := exists_itemPieces_perm hpieces horder
    have hlists := hsettled.closeArray_eq hperm
    rw [closeArray_of_inArray, closeArray_of_inArray] at hlists
    rw [encodeWith_list_set h hwritten, encodeWith_list_set h hpieces,
      AttributeValue.list.inj (Except.ok.inj hlists)]

end

/-- Values of a type that differ in the order of sets and maps, at any depth, are stored alike if the
elements of these sets are settled; and a set is stored alike from all orders only if its elements are
settled, in a list as well as elsewhere. -/
theorem encodeWith_reordered (h : c.ConvertersYield) :
    (∀ {type value value'}, Relation.ReflTransGen (c.Reorders false type) value value' →
      ∀ flags, Alike (c.encodeWith flags type value) (c.encodeWith flags type value')) ∧
    ∀ {inner items pieces}, c.itemPieces inner 0 items = .ok pieces → ∀ hashed,
      ((∀ order, items.Perm order → ∀ flags, c.encodeWith flags (.set hashed inner) (.list order) =
          c.encodeWith flags (.set hashed inner) (.list items)) ↔ Settled false pieces) ∧
      ((∀ order, items.Perm order → ∀ flags,
          c.encodeWith flags (.list (.set hashed inner)) (.list [.list order]) =
            c.encodeWith flags (.list (.set hashed inner)) (.list [.list items])) ↔
        Settled true pieces) :=
  ⟨fun hreorders flags => encodeWith_alike h hreorders flags, fun hpieces hashed =>
    ⟨encodeWith_set_iff h hpieces hashed, encodeWith_list_set_iff h hpieces hashed⟩⟩

/-- A map of sets of texts. -/
def sampleTags : Datum := .map [("all", .list [.text "x", .text "y"]), ("none", .list [])]

/-- The same map and sets, visited in another order. -/
def sampleTagsReordered : Datum := .map [("none", .list []), ("all", .list [.text "y", .text "x"])]

/-- Three numbers, of which one is the text of none and in a circle with the others. -/
def sampleNumbers : List Datum :=
  [.dynamic (.number "9"), .dynamic (.number "10"), .dynamic (.number "5x")]

/-- The map is stored alike in both orders. The set of its texts is not if it stands in a list, and the
set of the numbers is not either. -/
theorem encodeWith_reordered_sampleTags :
    bare.ConvertersYield ∧
      Relation.ReflTransGen (bare.Reorders false (.map true (.set true (.scalar .text)))) sampleTags
        sampleTagsReordered ∧
      (∀ flags, Alike (bare.encodeWith flags (.map true (.set true (.scalar .text))) sampleTags)
        (bare.encodeWith flags (.map true (.set true (.scalar .text))) sampleTagsReordered)) ∧
      (¬ ∀ order, [Datum.text "x", .text "y"].Perm order → ∀ flags,
        bare.encodeWith flags (.list (.set true (.scalar .text))) (.list [.list order]) =
          bare.encodeWith flags (.list (.set true (.scalar .text)))
            (.list [.list [.text "x", .text "y"]])) ∧
      ¬ ∀ order, sampleNumbers.Perm order → ∀ flags,
        bare.encodeWith flags (.set true .dynamic) (.list order) =
          bare.encodeWith flags (.set true .dynamic) (.list sampleNumbers) := by
  have hyield : bare.ConvertersYield := convertersYield_of_builtins rfl
  have htexts : bare.itemPieces (.scalar .text) 0 [.text "x", .text "y"] =
      .ok [.text "x", .text "y"] := rfl
  have hnumbers : bare.itemPieces .dynamic 0 sampleNumbers =
      .ok [.number "9", .number "10", .number "5x"] := rfl
  obtain ⟨halike, hexact⟩ := encodeWith_reordered hyield
  have hset : bare.Reorders false (.set true (.scalar .text)) (.list [.text "x", .text "y"])
      (.list [.text "y", .text "x"]) := by
    refine .set (List.Perm.swap _ _ _) fun pieces hpieces => ?_
    cases htexts.symm.trans hpieces
    exact settled_of_isNumber ⟨.text "x", by decide, by decide⟩ fun digits hmem => by
      simp [dropVoid] at hmem
  have hreorders : Relation.ReflTransGen
      (bare.Reorders false (.map true (.set true (.scalar .text)))) sampleTags
        sampleTagsReordered := by
    refine .tail (.single ?_) (.map (List.Perm.swap _ _ _) (by decide))
    exact @Reorders.entry _ _ _ _ [] _ _ _ _ hset
  refine ⟨hyield, hreorders, halike hreorders, ?_, ?_⟩
  · rw [(hexact htexts true).2]
    rintro (h | ⟨⟨⟩, -⟩ | ⟨⟨⟩, -⟩)
    exact absurd (h (.text "x") (by decide) (.text "y") (by decide)) (by decide)
  · rw [(hexact hnumbers true).1]
    rintro (h | ⟨-, h⟩ | ⟨-, -, h⟩)
    · exact absurd (h (.number "9") (by decide) (.number "10") (by decide)) (by decide)
    · exact absurd h (by decide)
    · refine h (by decide) "9" (by decide) "10" (by decide) "5x" (by decide) ⟨?_, ?_, ?_⟩ <;>
        decide +kernel

end Codec

end ItemMapper
