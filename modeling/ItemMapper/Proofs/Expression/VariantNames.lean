import ItemMapper.Codec.Decoding
import ItemMapper.Expression.Folding
import ItemMapper.Proofs.Expression.VariantLiterals

/-!
# What the name of a variant means

A text becomes a variant in three places: where an expression converts it, where a stored value is
decoded, and where it is compared with a member of an enumeration. A conversion looks for a variant that
is declared under the text, up to the case of letters. The other two first look for one that is declared
under exactly this text or is stored under it. So the three agree unless the variant that these find has
another number than the one that the conversion finds, or the conversion finds none.

## Main definitions

* `EnumType.named?`, `EnumType.declared?`: the two searches.
* `EnumType.SearchesAgree`: whether a text leads both to the same variant.
* `EnumType.NamesEverywhere`, `EnumType.NamesNowhere`: what a text means in the three places.

## Main statements

* `EnumType.namesAlike_iff`: **when a text means the same in the three places**.
* `EnumType.searchesAgree_iff_of_apart`: when it does where declared names differ in more than case.
-/

namespace ItemMapper

namespace EnumType

/-- The first variant that is declared or stored under a text. -/
def named? (e : EnumType) (naming : NamingPolicy) (text : String) : Option (String × Int) :=
  e.variants.find? fun variant => variant.1 == text || naming.apply variant.1 == text

/-- The first variant that is declared under a text, up to the case of letters. -/
def declared? (e : EnumType) (text : String) : Option (String × Int) :=
  e.variants.find? fun variant => sameIgnoringCase variant.1 text

/-- Whether a conversion finds a variant with the same number, if one is declared or stored under the
text. -/
def SearchesAgree (e : EnumType) (naming : NamingPolicy) (text : String) : Prop :=
  ∀ variant ∈ e.named? naming text, ∃ other ∈ e.declared? text, other.2 = variant.2

instance (e : EnumType) (naming : NamingPolicy) (text : String) :
    Decidable (e.SearchesAgree naming text) :=
  inferInstanceAs (Decidable (∀ variant ∈ e.named? naming text, ∃ other ∈ e.declared? text,
    other.2 = variant.2))

variable {e : EnumType} {naming : NamingPolicy} {options : CodecOptions} {text : String}
  {number : Int} {variant : String × Int}

/-! ### The searches -/

theorem numberOf?_eq (e : EnumType) (naming : NamingPolicy) (text : String) :
    e.numberOf? naming text = ((e.named? naming text).or (e.declared? text)).map Prod.snd := by
  unfold numberOf?
  split
  · rename_i name number hfound
    have hnamed : e.named? naming text = some (name, number) := hfound
    rw [hnamed]
    rfl
  · rename_i hfound
    have hnamed : e.named? naming text = none := hfound
    rw [hnamed]
    rfl

theorem read_text_eq_ok : e.read options (.text text) = .ok number ↔
    ∃ variant, (e.named? options.enumNaming text).or (e.declared? text) = some variant ∧
      variant.2 = number := by
  rw [← Option.map_eq_some_iff, ← numberOf?_eq, read_text_iff_numberOf?]

/-- A variant that is found by its name is one of the enumeration's. -/
theorem toEnum_text_eq_ok {value : Value} : Value.toEnum e (.text text) = .ok value ↔
    ∃ variant, e.declared? text = some variant ∧ value = .enumeration ⟨e, variant.2⟩ := by
  have hsearch : Value.variantNumber? e (.text text) = (e.declared? text).map Prod.snd := rfl
  rw [Value.toEnum, hsearch]
  cases hfound : e.declared? text with
  | none => simp
  | some variant =>
    have hmem : variant ∈ e.variants := List.mem_of_find?_eq_some hfound
    simp [Option.filter, isSome_name?_of_mem hmem, eq_comm]

/-- Where declared names differ in more than the case of letters, the searches agree on a text unless it
is what a variant is stored under and not what it is declared under. -/
theorem searchesAgree_iff_of_apart (hnames : (e.variants.map fun v => lowerAscii v.1).Nodup)
    (hnumbers : (e.variants.map Prod.snd).Nodup) : e.SearchesAgree naming text ↔
      ∀ variant ∈ e.named? naming text, sameIgnoringCase variant.1 text = true := by
  refine forall₂_congr fun variant hnamed => ?_
  have hmem : variant ∈ e.variants := List.mem_of_find?_eq_some hnamed
  constructor
  · rintro ⟨other, hother, hnumber⟩
    have hsame : other = variant :=
      List.inj_on_of_nodup_map hnumbers (List.mem_of_find?_eq_some hother) hmem hnumber
    exact hsame ▸ List.find?_some (p := fun v : String × Int => sameIgnoringCase v.1 text) hother
  · intro hcase
    refine ⟨variant, find?_of_nodup hnames hmem fun other _ => ?_, rfl⟩
    rw [sameIgnoringCase, eq_of_beq hcase]

/-- Names that are stored as they are declared mean the same everywhere, if they differ in more than the
case of letters. -/
theorem searchesAgree_of_identity (hnames : (e.variants.map fun v => lowerAscii v.1).Nodup)
    (hnumbers : (e.variants.map Prod.snd).Nodup) (text : String) :
    e.SearchesAgree .identity text := by
  refine (searchesAgree_iff_of_apart hnames hnumbers).mpr fun variant hnamed => ?_
  have hname := List.find?_some hnamed
  rw [NamingPolicy.apply, Bool.or_self] at hname
  rw [eq_of_beq hname]
  exact beq_self_eq_true _

/-! ### The three places -/

/-- A text stands for the variant with a number wherever it is found: it is converted to it, decoded as
it, and compared with a member as the variant itself is. -/
structure NamesEverywhere (c : Codec) (e : EnumType) (text : String) (number : Int) : Prop where
  converted : ∀ n, (Expr.enumConvert (.constant (.text text)) e).fold n =
    .ok (.constant (.enumeration ⟨e, number⟩)) n
  decoded : c.decode (.enumeration e) (.text text) = .ok (.enumeration number)
  compared : ∀ (scope : Scope) (op : BinaryOp) (member : Expr) (name : String),
    scope.options = c.options → member.hint scope = .variant ⟨name, e.variants⟩ →
      Expr.comparisonText scope op member (.constant (.text text)) =
        Expr.comparisonText scope op member (.constant (.enumeration ⟨e, number⟩))

/-- A text stands for no variant, wherever it is found. -/
structure NamesNowhere (c : Codec) (e : EnumType) (text : String) : Prop where
  converted : ∀ n, ∃ error, (Expr.enumConvert (.constant (.text text)) e).fold n = .error error n
  decoded : ∃ error, c.decode (.enumeration e) (.text text) = .error error
  compared : ∀ (scope : Scope) (op : BinaryOp) (member : Expr) (name : String),
    scope.options = c.options → member.hint scope = .variant ⟨name, e.variants⟩ →
      ∀ a, result? (Expr.comparisonText scope op member (.constant (.text text))) a = none

section
variable {c : Codec}

theorem fold_enumConvert_text (n : Nat) : (Expr.enumConvert (.constant (.text text)) e).fold n =
    FoldM.ofExcept ((Value.toEnum e (.text text)).map Expr.constant) n := rfl

theorem decode_text : c.decode (.enumeration e) (.text text) =
    (e.read c.options (.text text)).map Datum.enumeration := by rw [Codec.decode]

/-- What both searches find, a text stands for everywhere. -/
theorem namesEverywhere_of_read (hdeclared : e.declared? text = some variant)
    (hread : e.read c.options (.text text) = .ok variant.2) :
    NamesEverywhere c e text variant.2 where
  converted n := by
    rw [fold_enumConvert_text, toEnum_text_eq_ok.mpr ⟨variant, hdeclared, rfl⟩]
    rfl
  decoded := by
    rw [decode_text, hread]
    rfl
  compared scope op member name hscope hmember := by
    have hvariants : (⟨name, e.variants⟩ : EnumType).variants = e.variants := rfl
    have hliteral : (⟨name, e.variants⟩ : EnumType).read scope.options (.text text) =
        .ok variant.2 := by
      rw [hscope, read_text_congr hvariants]
      exact hread
    have hvariant : ((⟨name, e.variants⟩ : EnumType).name? variant.2).isSome = true :=
      isSome_name?_of_read hliteral
    rw [Expr.comparisonText, Expr.comparisonText, hmember,
      Expr.operand_of_denotes scope (.text hliteral),
      Expr.operand_of_denotes scope (.variant e.typeName hvariant)]
    rfl

theorem namesNowhere_of_unread {error : Error} (hdeclared : e.declared? text = none)
    (hread : e.read c.options (.text text) = .error error) : NamesNowhere c e text where
  converted n := by
    cases hconverted : Value.toEnum e (.text text) with
    | ok value =>
      obtain ⟨variant, hfound, -⟩ := toEnum_text_eq_ok.mp hconverted
      cases hdeclared.symm.trans hfound
    | error other =>
      rw [fold_enumConvert_text, hconverted]
      exact ⟨other, rfl⟩
  decoded := by
    rw [decode_text, hread]
    exact ⟨error, rfl⟩
  compared scope op member name hscope hmember a := by
    have hvariants : (⟨name, e.variants⟩ : EnumType).variants = e.variants := rfl
    cases hliteral : (⟨name, e.variants⟩ : EnumType).read scope.options (.text text) with
    | ok number =>
      rw [hscope, read_text_congr hvariants, hread] at hliteral
      cases hliteral
    | error other =>
      refine Option.eq_none_iff_forall_not_mem.mpr fun written hwritten => ?_
      obtain ⟨b, hrun⟩ := result?_eq_some.mp hwritten
      obtain ⟨l, b, -, hrun⟩ := bind_eq_ok.mp hrun
      obtain ⟨r, b, hoperand, -⟩ := bind_eq_ok.mp hrun
      rw [hmember, Expr.operand, Expr.constantText, Expr.shaped_text_of_unread hliteral] at hoperand
      cases hoperand

/-- A text that stands for one variant everywhere has its number from both searches. -/
theorem NamesEverywhere.searches (h : NamesEverywhere c e text number) :
    e.read c.options (.text text) = .ok number ∧
      ∃ variant, e.declared? text = some variant ∧ variant.2 = number := by
  constructor
  · obtain ⟨found, hread, hfound⟩ := except_map_eq_ok.mp (decode_text.symm.trans h.decoded)
    cases hfound
    exact hread
  · have hconverted := h.converted 0
    rw [fold_enumConvert_text] at hconverted
    obtain ⟨hconverted, -⟩ := FoldM.ofExcept_eq_ok.mp hconverted
    obtain ⟨value, hvalue, hconstant⟩ := except_map_eq_ok.mp hconverted
    obtain ⟨variant, hfound, rfl⟩ := toEnum_text_eq_ok.mp hvalue
    cases hconstant
    exact ⟨variant, hfound, rfl⟩

/-- **When a text means the same in the three places**: it stands for one variant in all of them or for
none in any, just if the first variant that is declared or stored under it, where there is one, has the
number of the first that is declared under it up to the case of letters. -/
theorem namesAlike_iff (c : Codec) (e : EnumType) (text : String) :
    (∃ number, NamesEverywhere c e text number) ∨ NamesNowhere c e text ↔
      e.SearchesAgree c.options.enumNaming text := by
  constructor
  · intro halike variant hnamed
    have hread : e.read c.options (.text text) = .ok variant.2 :=
      read_text_eq_ok.mpr ⟨variant, by rw [hnamed, Option.some_or], rfl⟩
    rcases halike with ⟨number, heverywhere⟩ | hnowhere
    · obtain ⟨hread', other, hother, rfl⟩ := heverywhere.searches
      exact ⟨other, hother, Except.ok.inj (hread'.symm.trans hread)⟩
    · obtain ⟨error, herror⟩ := hnowhere.decoded
      rw [decode_text, hread] at herror
      cases herror
  · intro hsame
    cases hnamed : e.named? c.options.enumNaming text with
    | some variant =>
      obtain ⟨other, hother, hnumber⟩ := hsame variant hnamed
      have hread : e.read c.options (.text text) = .ok other.2 :=
        read_text_eq_ok.mpr ⟨variant, by rw [hnamed, Option.some_or], hnumber.symm⟩
      exact .inl ⟨other.2, namesEverywhere_of_read hother hread⟩
    | none =>
      cases hdeclared : e.declared? text with
      | some other =>
        have hread : e.read c.options (.text text) = .ok other.2 :=
          read_text_eq_ok.mpr ⟨other, by rw [hnamed, Option.none_or, hdeclared], rfl⟩
        exact .inl ⟨other.2, namesEverywhere_of_read hdeclared hread⟩
      | none =>
        cases hread : e.read c.options (.text text) with
        | ok number =>
          obtain ⟨variant, hfound, -⟩ := read_text_eq_ok.mp hread
          rw [hnamed, hdeclared] at hfound
          cases hfound
        | error error => exact .inr (namesNowhere_of_unread hdeclared hread)

end

end EnumType

end ItemMapper
