import ItemMapper.Codec.Basic
import ItemMapper.Proofs.Values.Recursion

/-!
# Literals

A constant in an expression is a dynamic value, and a member of a document is a value of its type. The
two are written by different code: the one as its kind says, the other by the converter of its type. Both
store the same, but for numbers of single precision: the dynamic value of such a number is the number of
double precision that it equals, and has the text that this one has.

For the comparison a value is spelled: its dynamic value is taken with the numbers of single precision
as texts of their own. A spelled value is written just as the value of its type is. What is stored of the
dynamic value differs from that only where the texts of a number differ.

## Main definitions

* `Datum.Convertible`: the values that have dynamic values.
* `Datum.spelled`: the dynamic value with its numbers of single precision as they are printed.
* `Ty.PrintsAlike`: whether the texts of the numbers in a value are the same in either format.

## Main statements

* `Codec.write_eq_spelled`: a value is written like the spelled one.
* `Datum.Convertible.agree_piece`: what is stored of the spelled value and of the dynamic value.
* `Codec.agree_encodeWith`: what is stored of a value and of its literal.
* `Codec.encode_toValue_iff`: where a literal is stored as the value of the type.
-/

namespace ItemMapper

/-! ### Values and their spelling -/

/-- Whether numbers with a fraction may occur in values of the type. -/
def Ty.hasFloats : Ty → Bool
  | .scalar (.float _) => true
  | .option inner | .boxed inner | .list inner | .set _ inner | .map _ inner => inner.hasFloats
  | _ => false

/-- The values of the types that have dynamic values: all but documents and values of the application's
own types. The keys of a map ascend, and no set holds numbers with a fraction, which have no order that
is total. -/
inductive Datum.Convertible : Ty → Datum → Prop
  | bool (value : Bool) : Convertible (.scalar .bool) (.bool value)
  | int (type : IntType) (value : Int) : Convertible (.scalar (.int type)) (.int value)
  | float (type : FloatType) (value : Floating) : Convertible (.scalar (.float type)) (.float value)
  | char (value : Char) : Convertible (.scalar .char) (.char value)
  | text (value : String) : Convertible (.scalar .text) (.text value)
  | binary (bytes : Bytes) : Convertible (.scalar .binary) (.binary bytes)
  | stamp (type : TextType) (value : Stamp) : Convertible (.scalar (.textual type)) (.stamp value)
  | enumeration (type : EnumType) (number : Int) :
      Convertible (.enumeration type) (.enumeration number)
  | absent (inner : Ty) : Convertible (.option inner) .absent
  | present {inner : Ty} {value : Datum} (held : Convertible inner value) :
      Convertible (.option inner) (.present value)
  | boxed {inner : Ty} {value : Datum} (held : Convertible inner value) :
      Convertible (.boxed inner) (.boxed value)
  | list {inner : Ty} {items : List Datum} (held : ∀ item ∈ items, Convertible inner item) :
      Convertible (.list inner) (.list items)
  | set (hashed : Bool) {inner : Ty} {items : List Datum}
      (held : ∀ item ∈ items, Convertible inner item) (ordered : inner.hasFloats = false) :
      Convertible (.set hashed inner) (.list items)
  | map (hashed : Bool) {inner : Ty} {entries : List (String × Datum)}
      (held : ∀ entry ∈ entries, Convertible inner entry.2) (ascending : Fields.Ascending entries) :
      Convertible (.map hashed inner) (.map entries)
  | dynamic (value : Value) : Convertible .dynamic (.dynamic value)
  | stored (value : AttributeValue) : Convertible .stored (.stored value)

/-- Whether the finite numbers of single precision in a value have the same texts in either format. -/
def Ty.PrintsAlike : Ty → Datum → Prop
  | .scalar (.float .single), .float value =>
    value.isFinite = true → value.print Floating.single = value.print Floating.double
  | .option inner, .present value | .boxed inner, .boxed value => inner.PrintsAlike value
  | .list inner, .list items => ∀ item ∈ items, inner.PrintsAlike item
  | .map _ inner, .map entries => ∀ entry ∈ entries, inner.PrintsAlike entry.2
  | _, _ => True

mutual
/-- The dynamic value of a value of a type, with the numbers of single precision as they are printed. -/
def Datum.spelled : Ty → Datum → Value
  | .scalar (.float .single), .float value =>
    if value.isFinite then .number (value.print Floating.single) else .float value
  | .option inner, .present value => spelled inner value
  | .boxed inner, .boxed value => spelled inner value
  | .list inner, .list items => .list (spelledItems inner items)
  | .set _ inner, .list items => .set (spelledItems inner items)
  | .map _ inner, .map entries => .map (spelledEntries inner entries)
  | type, value => toValue type value

/-- The items of a list or the members of a set, spelled. -/
def Datum.spelledItems (inner : Ty) : List Datum → List Value
  | [] => []
  | item :: rest => spelled inner item :: spelledItems inner rest

/-- The entries of a map, spelled. -/
def Datum.spelledEntries (inner : Ty) : List (String × Datum) → List (String × Value)
  | [] => []
  | (key, value) :: rest => (key, spelled inner value) :: spelledEntries inner rest
end

namespace Datum

theorem spelledItems_eq {inner : Ty} {items : List Datum}
    (h : ∀ item ∈ items, spelled inner item = toValue inner item) :
    spelledItems inner items = toValues inner items := by
  induction items with
  | nil => rfl
  | cons item rest ih =>
    rw [spelledItems, toValues, h item List.mem_cons_self,
      ih fun other hother => h other (List.mem_cons_of_mem item hother)]

theorem spelledEntries_eq {inner : Ty} {entries : List (String × Datum)}
    (h : ∀ entry ∈ entries, spelled inner entry.2 = toValue inner entry.2) :
    spelledEntries inner entries = toFields inner entries := by
  induction entries with
  | nil => rfl
  | cons entry rest ih =>
    rw [spelledEntries, toFields, h entry List.mem_cons_self,
      ih fun other hother => h other (List.mem_cons_of_mem entry hother)]

/-- Where there are no numbers with a fraction, the spelled value is the dynamic value. -/
theorem Convertible.spelled_eq {type : Ty} {value : Datum} (h : Convertible type value)
    (hfloats : type.hasFloats = false) : spelled type value = toValue type value := by
  induction h with
  | float => cases hfloats
  | present _ ih | boxed _ ih =>
    rw [spelled, toValue]
    exact ih hfloats
  | list _ ih =>
    rw [spelled, toValue, spelledItems_eq fun item hitem => ih item hitem hfloats]
  | set hashed _ _ ih =>
    rw [spelled, toValue, spelledItems_eq fun item hitem => ih item hitem hfloats]
  | map hashed _ _ ih =>
    rw [spelled, toValue, spelledEntries_eq fun entry hentry => ih entry hentry hfloats]
  | _ => rfl

end Datum

/-! ### Writing -/

namespace Codec

open Datum (Convertible)

variable {c : Codec}

theorem writeItems_eq_spelled {inner : Ty} {items : List Datum}
    (h : ∀ item ∈ items, c.write inner item = (item.spelled inner).write c.options)
    (position : Nat) :
    c.writeItems inner position items =
      Value.writeItems c.options position (Datum.spelledItems inner items) := by
  induction items generalizing position with
  | nil => rfl
  | cons item rest ih =>
    rw [writeItems, Datum.spelledItems, Value.writeItems, h item List.mem_cons_self,
      ih fun other hother => h other (List.mem_cons_of_mem item hother)]

theorem writeEntries_eq_spelled {inner : Ty} {entries : List (String × Datum)}
    (h : ∀ entry ∈ entries, c.write inner entry.2 = (entry.2.spelled inner).write c.options) :
    c.writeEntries inner entries =
      Value.writeFields c.options (Datum.spelledEntries inner entries) := by
  induction entries with
  | nil => rfl
  | cons entry rest ih =>
    rw [writeEntries, Datum.spelledEntries, Value.writeFields, h entry List.mem_cons_self,
      ih fun other hother => h other (List.mem_cons_of_mem entry hother)]

/-- What is not finite has the same text in either format. -/
theorem print_eq_of_not_finite {value : Floating} (h : value.isFinite = false)
    (f g : Floating.Format) : value.print f = value.print g := by
  cases value with
  | nan | infinite => rfl
  | finite => cases h

theorem writeFloat_eq_spelled (value : Floating) :
    Writer.writeFloat Floating.single value =
      (Datum.spelled (.scalar (.float .single)) (.float value)).write c.options := by
  funext w
  rw [Datum.spelled, Writer.writeFloat]
  cases hfinite : value.isFinite with
  | true => rfl
  | false =>
    change _ = Writer.writeFloat Floating.double value w
    rw [Writer.writeFloat, hfinite, print_eq_of_not_finite hfinite Floating.single Floating.double]

/-- The converters that are always there put a scalar into its slot. -/
theorem write_scalar (hc : c.converters = Converter.builtins) {type : Scalar} {value : Datum}
    {written : AttributeValue} (h : type.piece? value = some written) :
    c.write (.scalar type) value = Writer.write written := by
  rw [write, writeLeaf, hc]
  exact Converter.writeBy_builtins h _

/-- A value is written by the converters that are always there like its spelled value. -/
theorem write_eq_spelled (hc : c.converters = Converter.builtins) {type : Ty} {value : Datum}
    (h : Convertible type value) : c.write type value = (value.spelled type).write c.options := by
  induction h with
  | bool value => exact write_scalar hc rfl
  | int type value =>
    rw [write_scalar hc rfl]
    change _ = (Value.ofInt value).write c.options
    rw [Value.ofInt]
    split <;> rfl
  | float type value =>
    have hwrite : c.write (.scalar (.float type)) (.float value) =
        Writer.writeFloat type.format value := by
      rw [write, writeLeaf, hc]
      rfl
    rw [hwrite]
    cases type with
    | single => exact writeFloat_eq_spelled value
    | double => rfl
  | char value =>
    rw [write_scalar hc rfl]
    exact (Writer.writeText_eq _).symm
  | text value =>
    rw [write_scalar hc rfl]
    exact (Writer.writeText_eq _).symm
  | binary bytes =>
    rw [write_scalar hc rfl]
    exact (Writer.writeBinary_eq _).symm
  | stamp type value =>
    rw [write_scalar hc rfl]
    exact (Writer.writeText_eq _).symm
  | enumeration type number => rfl
  | absent inner => rfl
  | present _ ih | boxed _ ih =>
    rw [write, Datum.spelled]
    exact ih
  | list _ ih =>
    rw [write, Datum.spelled, Value.write, writeItems_eq_spelled ih]
  | set hashed _ _ ih =>
    rw [write, Datum.spelled, Value.write, writeItems_eq_spelled ih]
  | map hashed _ _ ih =>
    rw [write, Datum.spelled, Value.write, writeEntries_eq_spelled ih]
  | dynamic value => rfl
  | stored value => rfl

end Codec

/-! ### What is stored of a literal -/

/-- Two results that fail with the same error, or are related. -/
inductive Agree {α : Type} (R : α → α → Prop) : Except Error α → Except Error α → Prop
  | error (e : Error) : Agree R (.error e) (.error e)
  | ok {x y : α} (related : R x y) : Agree R (.ok x) (.ok y)

namespace Agree

variable {α β : Type} {R : α → α → Prop} {S : β → β → Prop} {r r' : Except Error α}

theorem refl (h : ∀ x, R x x) (r : Except Error α) : Agree R r r := by
  cases r with
  | error e => exact .error e
  | ok x => exact .ok (h x)

theorem bind (h : Agree R r r') {f g : α → Except Error β} (hfg : ∀ x y, R x y → Agree S (f x) (g y)) :
    Agree S (r >>= f) (r' >>= g) := by
  cases h with
  | error e => exact .error e
  | ok hrelated => exact hfg _ _ hrelated

theorem mapError (h : Agree R r r') (f : Error → Error) : Agree R (r.mapError f) (r'.mapError f) := by
  cases h with
  | error e => exact .error (f e)
  | ok hrelated => exact .ok hrelated

end Agree

/-- Three lists of one length that are related element by element. -/
inductive Rows {ι α : Type} (R : ι → α → α → Prop) : List ι → List α → List α → Prop
  | nil : Rows R [] [] []
  | cons {i : ι} {x y : α} {is : List ι} {xs ys : List α} :
      R i x y → Rows R is xs ys → Rows R (i :: is) (x :: xs) (y :: ys)

/-- Two elements that a filter keeps or drops together, where they are equal if and only if something is
true, as it is where they are dropped. -/
structure Paired {ι α : Type} (keep : α → Bool) (P : ι → Prop) (i : ι) (x y : α) : Prop where
  kept : keep x = keep y
  dropped : keep x = false → P i
  eq_iff : x = y ↔ P i

namespace Rows

variable {ι α : Type} {keep : α → Bool} {P : ι → Prop} {is : List ι} {xs ys : List α}

theorem mono {R S : ι → α → α → Prop} (h : Rows R is xs ys) (hRS : ∀ i x y, R i x y → S i x y) :
    Rows S is xs ys := by
  induction h with
  | nil => exact .nil
  | cons hrelated _ ih => exact .cons (hRS _ _ _ hrelated) ih

theorem filter_eq_nil (h : Rows (Paired keep P) is xs ys) :
    (xs.filter keep = [] ↔ ys.filter keep = []) ∧ (xs.filter keep = [] → ∀ i ∈ is, P i) := by
  induction h with
  | nil => exact ⟨Iff.rfl, fun _ => nofun⟩
  | @cons i x y is xs ys hpaired _ ih =>
    cases hkeep : keep x with
    | true =>
      rw [List.filter_cons_of_pos hkeep, List.filter_cons_of_pos (hpaired.kept ▸ hkeep)]
      exact ⟨⟨nofun, nofun⟩, nofun⟩
    | false =>
      have hkeep' : keep y = false := hpaired.kept ▸ hkeep
      rw [List.filter_cons_of_neg (by simp [hkeep]), List.filter_cons_of_neg (by simp [hkeep'])]
      exact ⟨ih.1, fun hnil => List.forall_mem_cons.mpr ⟨hpaired.dropped hkeep, ih.2 hnil⟩⟩

/-- What is kept of two lists is the same where it is so of each two elements. -/
theorem filter_eq_iff (h : Rows (Paired keep P) is xs ys) :
    xs.filter keep = ys.filter keep ↔ ∀ i ∈ is, P i := by
  induction h with
  | nil => exact ⟨fun _ => nofun, fun _ => rfl⟩
  | @cons i x y is xs ys hpaired _ ih =>
    rw [List.forall_mem_cons]
    cases hkeep : keep x with
    | true =>
      rw [List.filter_cons_of_pos hkeep, List.filter_cons_of_pos (hpaired.kept ▸ hkeep),
        List.cons.injEq, hpaired.eq_iff, ih]
    | false =>
      have hkeep' : keep y = false := hpaired.kept ▸ hkeep
      rw [List.filter_cons_of_neg (by simp [hkeep]), List.filter_cons_of_neg (by simp [hkeep']), ih]
      exact ⟨fun hrest => ⟨hpaired.dropped hkeep, hrest⟩, And.right⟩

end Rows

/-- Two attribute values that are null or empty together, and that are the same if and only if something
is true, as it is where they are null or empty. -/
structure AttributeValue.Near (alike : Prop) (x y : AttributeValue) : Prop where
  isNull : x.isNull = y.isNull
  isEmpty : x.isEmptyContainer = y.isEmptyContainer
  void : x.isVoid = true → alike
  eq_iff : x = y ↔ alike

namespace AttributeValue.Near

variable {alike : Prop} {x y : AttributeValue}

theorem refl (h : alike) (x : AttributeValue) : Near alike x x :=
  ⟨rfl, rfl, fun _ => h, ⟨fun _ => h, fun _ => rfl⟩⟩

theorem number (digits digits' : String) :
    Near (digits = digits') (.number digits) (.number digits') :=
  ⟨rfl, rfl, nofun, by rw [number.injEq]⟩

theorem isVoid (h : Near alike x y) : x.isVoid = y.isVoid := by
  rw [AttributeValue.isVoid, AttributeValue.isVoid, h.isNull, h.isEmpty]

theorem keeps (h : Near alike x y) (flags : WriteFlags) : flags.keeps x = flags.keeps y := by
  rw [WriteFlags.keeps, WriteFlags.keeps, h.isNull, h.isEmpty]

/-- What the flags drop is null or empty. -/
theorem of_not_keeps (h : Near alike x y) {flags : WriteFlags} (hkeeps : flags.keeps x = false) :
    alike := by
  cases hvoid : x.isVoid with
  | true => exact h.void hvoid
  | false => exact absurd (flags.keeps_of_not_isVoid hvoid) (by simp [hkeeps])

end AttributeValue.Near

namespace Datum

open AttributeValue (Near)
open Value (piece itemPieces fieldPieces)

variable {options : CodecOptions} {inner : Ty}

theorem agree_itemPieces {items : List Datum}
    (h : ∀ item ∈ items, Agree (Near (inner.PrintsAlike item))
      (piece options .none true (spelled inner item)) (piece options .none true (toValue inner item)))
    (position : Nat) :
    Agree (Rows (fun item => Near (inner.PrintsAlike item)) items)
      (itemPieces options position (spelledItems inner items))
      (itemPieces options position (toValues inner items)) := by
  induction items generalizing position with
  | nil => exact .ok .nil
  | cons item rest ih =>
    rw [spelledItems, toValues, itemPieces, itemPieces]
    have hfirst := h item List.mem_cons_self
    have hrest := ih (fun other hother => h other (List.mem_cons_of_mem item hother)) (position + 1)
    refine (hfirst.mapError _).bind fun x y hnear => hrest.bind fun xs ys hrows => ?_
    exact .ok (.cons hnear hrows)

theorem agree_fieldPieces {entries : List (String × Datum)}
    (h : ∀ entry ∈ entries, Agree (Near (inner.PrintsAlike entry.2))
      (piece options .none false (spelled inner entry.2))
      (piece options .none false (toValue inner entry.2))) :
    Agree (Rows (fun entry x y => x.1 = entry.1 ∧ y.1 = entry.1 ∧
        Near (inner.PrintsAlike entry.2) x.2 y.2) entries)
      (fieldPieces options (spelledEntries inner entries))
      (fieldPieces options (toFields inner entries)) := by
  induction entries with
  | nil => exact .ok .nil
  | cons entry rest ih =>
    rw [spelledEntries, toFields, fieldPieces, fieldPieces]
    have hfirst := h entry List.mem_cons_self
    have hrest := ih fun other hother => h other (List.mem_cons_of_mem entry hother)
    refine (hfirst.mapError _).bind fun x y hnear => hrest.bind fun xs ys hrows => ?_
    exact .ok (.cons ⟨rfl, rfl, hnear⟩ hrows)

/-- Two lists with items that are stored nearly alike. -/
theorem near_list {items : List Datum} {xs ys : List AttributeValue}
    (h : Rows (fun item => Near (inner.PrintsAlike item)) items xs ys) :
    Near (∀ item ∈ items, inner.PrintsAlike item) (.list (AttributeValue.dropVoid xs))
      (.list (AttributeValue.dropVoid ys)) := by
  have hpaired : Rows (Paired (fun x : AttributeValue => !x.isVoid) inner.PrintsAlike) items xs ys :=
    h.mono fun item x y hnear => ⟨congrArg (!·) hnear.isVoid, fun hvoid => hnear.void (by simpa using hvoid),
      hnear.eq_iff⟩
  obtain ⟨hnil, hall⟩ := hpaired.filter_eq_nil
  have hempty : ∀ xs : List AttributeValue,
      (AttributeValue.list xs).isEmptyContainer = true ↔ xs = [] := by
    intro xs
    cases xs <;> simp [AttributeValue.isEmptyContainer]
  refine ⟨rfl, ?_, fun hvoid => ?_, ?_⟩
  · rw [Bool.eq_iff_iff, hempty, hempty]
    exact hnil
  · exact hall ((hempty _).mp hvoid)
  · rw [AttributeValue.list.injEq]
    exact hpaired.filter_eq_iff

/-- Two maps with entries that are stored nearly alike. -/
theorem near_map {entries : List (String × Datum)} (hascending : Fields.Ascending entries)
    {xs ys : List (String × AttributeValue)} (flags : WriteFlags)
    (h : Rows (fun entry x y => x.1 = entry.1 ∧ y.1 = entry.1 ∧
      Near (inner.PrintsAlike entry.2) x.2 y.2) entries xs ys) :
    Near (∀ entry ∈ entries, inner.PrintsAlike entry.2)
      (.map ((Fields.ofList xs).filter fun field => flags.keeps field.2))
      (.map ((Fields.ofList ys).filter fun field => flags.keeps field.2)) := by
  have hkeys : xs.map (·.1) = entries.map (·.1) ∧ ys.map (·.1) = entries.map (·.1) := by
    clear hascending
    induction h with
    | nil => exact ⟨rfl, rfl⟩
    | cons hrow _ ih =>
      simp only [List.map_cons, hrow.1, hrow.2.1, ih.1, ih.2, and_self]
  rw [Fields.ofList_eq_self (hascending.of_keys hkeys.1),
    Fields.ofList_eq_self (hascending.of_keys hkeys.2)]
  have hpaired : Rows (Paired (fun field : String × AttributeValue => flags.keeps field.2)
      fun entry : String × Datum => inner.PrintsAlike entry.2) entries xs ys := by
    refine h.mono fun entry x y hrow => ⟨hrow.2.2.keeps flags, hrow.2.2.of_not_keeps, ?_⟩
    rw [← hrow.2.2.eq_iff, Prod.ext_iff, hrow.1, hrow.2.1, eq_self, true_and]
  obtain ⟨hnil, hall⟩ := hpaired.filter_eq_nil
  have hempty : ∀ fields : Item, (AttributeValue.map fields).isEmptyContainer = true ↔ fields = [] := by
    intro fields
    cases fields <;> simp [AttributeValue.isEmptyContainer]
  refine ⟨rfl, ?_, fun hvoid => ?_, ?_⟩
  · rw [Bool.eq_iff_iff, hempty, hempty]
    exact hnil
  · exact hall ((hempty _).mp hvoid)
  · rw [AttributeValue.map.injEq]
    exact hpaired.filter_eq_iff

theorem agree_of_eq {alike : Prop} (halike : alike) (flags : WriteFlags) (inArray : Bool)
    {value other : Value} (h : value = other) :
    Agree (Near alike) (piece options flags inArray value) (piece options flags inArray other) := by
  rw [h]
  exact .refl (Near.refl halike) _

/-- What the spelled value and the dynamic value are stored as: they fail with the same error, and are
the same where the texts of numbers are. -/
theorem Convertible.agree_piece {type : Ty} {value : Datum} (h : Convertible type value)
    (options : CodecOptions) (flags : WriteFlags) (inArray : Bool) :
    Agree (Near (type.PrintsAlike value)) (piece options flags inArray (spelled type value))
      (piece options flags inArray (toValue type value)) := by
  induction h generalizing flags inArray with
  | float type value =>
    cases type with
    | double => exact agree_of_eq trivial flags inArray rfl
    | single =>
      rw [spelled, toValue, piece]
      cases hfinite : value.isFinite with
      | false =>
        rw [if_neg Bool.false_ne_true, if_neg Bool.false_ne_true, piece, hfinite]
        exact .error _
      | true =>
        rw [if_pos rfl, if_pos rfl, piece]
        simp only [Ty.PrintsAlike, hfinite, forall_const]
        exact .ok (.number _ _)
  | present _ ih | boxed _ ih =>
    rw [spelled, toValue]
    exact ih flags inArray
  | list _ ih =>
    rw [spelled, toValue, piece, piece]
    refine (agree_itemPieces (fun item hitem => ih item hitem .none true) 0).bind fun xs ys hrows => ?_
    exact .ok (near_list hrows)
  | map hashed _ hascending ih =>
    rw [spelled, toValue, piece, piece]
    refine (agree_fieldPieces fun entry hentry => ih entry hentry .none false).bind
      fun xs ys hrows => ?_
    exact .ok (near_map hascending flags hrows)
  | @set hashed inner items held hordered =>
    have hset : Convertible (.set hashed inner) (.list items) := .set hashed held hordered
    exact agree_of_eq trivial flags inArray (hset.spelled_eq hordered)
  | _ => exact agree_of_eq trivial flags inArray rfl

end Datum

namespace Codec

variable {c : Codec}

/-- What becomes of a value and of its literal: both fail with the same error, or they are stored the
same where the texts of numbers are. -/
theorem agree_encodeWith (hc : c.converters = Converter.builtins) {type : Ty} {value : Datum}
    (h : Datum.Convertible type value) (flags : WriteFlags) :
    Agree (fun stored literal => literal = stored ↔ type.PrintsAlike value)
      (c.encodeWith flags type value)
      (c.encodeWith flags .dynamic (.dynamic (value.toValue type))) := by
  have hspelled : c.encodeWith flags type value =
      (value.spelled type).encode c.options flags := by
    rw [encodeWith, write_eq_spelled hc h, Value.encode]
  have hliteral : c.encodeWith flags .dynamic (.dynamic (value.toValue type)) =
      (value.toValue type).encode c.options flags := by rw [encodeWith, write, Value.encode]
  rw [hspelled, hliteral, Value.encode_eq_piece, Value.encode_eq_piece]
  have hagree := h.agree_piece c.options flags false
  generalize (value.spelled type).piece c.options flags false = r at hagree ⊢
  generalize (value.toValue type).piece c.options flags false = r' at hagree ⊢
  cases hagree with
  | error e => exact .error e
  | @ok x y hnear =>
    refine .ok ?_
    dsimp only
    rw [hnear.keeps flags]
    cases hkeeps : flags.keeps y with
    | true =>
      simp only [if_true, Option.some.injEq]
      exact eq_comm.trans hnear.eq_iff
    | false =>
      simp only [Bool.false_eq_true, if_false, true_iff]
      exact hnear.of_not_keeps (hnear.keeps flags ▸ hkeeps)

/-- A literal is stored as the value of its type, or neither is, exactly where the value cannot be
stored at all or the numbers of single precision in it have the same texts in either format. -/
theorem encode_toValue_iff (hc : c.converters = Converter.builtins) {type : Ty} {value : Datum}
    (h : Datum.Convertible type value) (flags : WriteFlags) :
    c.encodeWith flags .dynamic (.dynamic (value.toValue type)) = c.encodeWith flags type value ↔
      (∃ e, c.encodeWith flags type value = .error e) ∨ type.PrintsAlike value := by
  have hagree := agree_encodeWith hc h flags
  generalize c.encodeWith flags type value = stored at hagree ⊢
  generalize c.encodeWith flags .dynamic (.dynamic (value.toValue type)) = literal at hagree ⊢
  cases hagree with
  | error e => exact ⟨fun _ => .inl ⟨e, rfl⟩, fun _ => rfl⟩
  | ok hsame =>
    rw [Except.ok.injEq, hsame]
    exact ⟨.inr, fun halike => halike.resolve_left nofun⟩

/-- A codec without documents. -/
def bare : Codec where
  options := .initial
  typeName := fun _ => ""
  defaultValuesFor := none
  discriminatorFor := fun _ => none
  converters := Converter.builtins
  documents := fun _ => default

/-- The number of single precision that is nearest to a tenth. -/
def singleTenth : Floating := .finite false (13421773 * 2 ^ 1047)

/-- A tenth, which no format has exactly, beside a half, which both have. -/
def sampleSingles : Datum := .list [.float singleTenth, .float (.finite false (2 ^ 1073))]

theorem encode_toValue_iff_sampleSingles :
    bare.converters = Converter.builtins ∧
      Datum.Convertible (.list (.scalar (.float .single))) sampleSingles ∧
      (bare.encodeWith .none (.list (.scalar (.float .single))) sampleSingles).toOption =
        some (some (.list [.number "0.1", .number "0.5"])) ∧
      bare.encodeWith .none .dynamic
          (.dynamic (sampleSingles.toValue (.list (.scalar (.float .single))))) ≠
        bare.encodeWith .none (.list (.scalar (.float .single))) sampleSingles := by
  have hconvertible : Datum.Convertible (.list (.scalar (.float .single))) sampleSingles :=
    .list (List.forall_mem_cons.mpr ⟨.float .single _, List.forall_mem_singleton.mpr (.float .single _)⟩)
  have hstored : (bare.encodeWith .none (.list (.scalar (.float .single))) sampleSingles).toOption =
      some (some (.list [.number "0.1", .number "0.5"])) := by decide +kernel
  refine ⟨rfl, hconvertible, hstored, fun hsame => ?_⟩
  rcases (encode_toValue_iff rfl hconvertible .none).mp hsame with ⟨e, herror⟩ | halike
  · rw [herror] at hstored
    cases hstored
  · have htexts : singleTenth.print Floating.single = singleTenth.print Floating.double :=
      halike _ List.mem_cons_self rfl
    exact absurd htexts (by decide +kernel)

end Codec

end ItemMapper
