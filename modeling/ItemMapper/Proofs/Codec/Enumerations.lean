import ItemMapper.Proofs.Codec.Recursion
import ItemMapper.Proofs.Codec.Scalars
import ItemMapper.Proofs.Values.Literals

/-!
# Reading variants back

A variant that is stored as its number is read back, whichever form the reader writes itself. A name is
looked for among the declared and the stored names at once, in the order of declaration. So a variant
that is stored by its name is read back unless an earlier one is declared under just that name, and
is read as that one otherwise. This only happens under naming policies that change a name again when
they are applied twice.

## Main definitions

* `EnumType.Unambiguous`: no two variants share a name, a number or a stored name.

## Main statements

* `EnumType.find?_stored`: the variant that a stored name leads to.
* `Codec.decode_variant`: **which variants are read back**.
-/

namespace ItemMapper

namespace EnumType

/-- The variants differ in their names, in their numbers, which have 64 bits, and in the names that
they are stored under, which are not empty. -/
structure Unambiguous (e : EnumType) (naming : NamingPolicy) : Prop where
  names : (e.variants.map (·.1)).Nodup
  numbers : (e.variants.map (·.2)).Nodup
  bounds : ∀ v ∈ e.variants, -(2 ^ 63) ≤ v.2 ∧ v.2 < 2 ^ 63
  stored : (e.variants.map fun v => naming.apply v.1).Nodup
  storedNamed : ∀ v ∈ e.variants, naming.apply v.1 ≠ ""

section
variable {e : EnumType} {naming : NamingPolicy} {before after : List (String × Int)} {name : String}
  {number : Int}

theorem mem_of_eq_append (hvariants : e.variants = before ++ (name, number) :: after) :
    (name, number) ∈ e.variants :=
  hvariants ▸ List.mem_append_right _ List.mem_cons_self

/-- What no two variants share, none shares with one before it. -/
theorem ne_of_mem_before {α : Type} {f : String × Int → α} (h : (e.variants.map f).Nodup)
    (hvariants : e.variants = before ++ (name, number) :: after) :
    ∀ v ∈ before, f v ≠ f (name, number) := by
  intro v hv heq
  rw [hvariants, List.map_append, List.map_cons, List.nodup_append] at h
  exact h.2.2 _ (List.mem_map_of_mem hv) _ List.mem_cons_self heq

/-- **A stored name leads to the first variant that is declared under it**, if there is one before the
variant that is stored under it. -/
theorem find?_stored (he : e.Unambiguous naming)
    (hvariants : e.variants = before ++ (name, number) :: after) :
    e.variants.find? (fun v => v.1 == naming.apply name || naming.apply v.1 == naming.apply name) =
      some ((before.find? fun v => v.1 == naming.apply name).getD (name, number)) := by
  have hbefore : before.find?
      (fun v => v.1 == naming.apply name || naming.apply v.1 == naming.apply name) =
        before.find? fun v => v.1 == naming.apply name := by
    refine List.find?_congr fun v hv => ?_
    rw [beq_false_of_ne (ne_of_mem_before he.stored hvariants v hv), Bool.or_false]
  rw [hvariants, List.find?_append, hbefore,
    List.find?_cons_of_pos (by rw [beq_self_eq_true, Bool.or_true])]
  cases before.find? fun v => v.1 == naming.apply name <;> rfl

theorem Unambiguous.name?_eq (he : e.Unambiguous naming)
    (hvariants : e.variants = before ++ (name, number) :: after) : e.name? number = some name := by
  rw [name?, find?_of_nodup he.numbers (mem_of_eq_append hvariants) fun _ _ => rfl]
  rfl

/-- What is read of a variant that is stored by its name. -/
theorem read_piece_of_name {options other : CodecOptions} (he : e.Unambiguous options.enumNaming)
    (hnaming : other.enumNaming = options.enumNaming)
    (hvariants : e.variants = before ++ (name, number) :: after)
    (hencoding : options.enumEncoding = .name) :
    e.read other (e.piece options number) =
      .ok ((before.find? fun v => v.1 == options.enumNaming.apply name).getD (name, number)).2 := by
  have hne : ¬ (options.enumNaming.apply name).isEmpty = true := fun h =>
    he.storedNamed _ (mem_of_eq_append hvariants) (String.isEmpty_iff.mp h)
  have hfind := find?_stored he hvariants
  rw [← hnaming] at hfind hne ⊢
  unfold piece stored
  rw [he.name?_eq hvariants, hencoding, ← hnaming]
  change e.read other (textPiece (other.enumNaming.apply name)) = _
  rw [textPiece, if_neg hne]
  exact read_text hfind

/-- A variant that is stored by its number is read back. -/
theorem read_piece_of_number {options : CodecOptions} (other : CodecOptions)
    (he : e.Unambiguous naming) (hvariants : e.variants = before ++ (name, number) :: after)
    (hencoding : options.enumEncoding = .number) :
    e.read other (e.piece options number) = .ok number := by
  unfold piece stored
  rw [hencoding]
  exact read_number (by rw [he.name?_eq hvariants]; rfl) (he.bounds _ (mem_of_eq_append hvariants))

/-- No variant is stored as null. -/
theorem keeps_piece (he : e.Unambiguous naming) {options : CodecOptions}
    (hnaming : options.enumNaming = naming)
    (hvariants : e.variants = before ++ (name, number) :: after) (flags : WriteFlags) :
    flags.keeps (e.piece options number) = true := by
  unfold piece stored
  rw [he.name?_eq hvariants, hnaming]
  cases options.enumEncoding with
  | name =>
    have hne : ¬ (naming.apply name).isEmpty = true := fun h =>
      he.storedNamed _ (mem_of_eq_append hvariants) (String.isEmpty_iff.mp h)
    change flags.keeps (textPiece (naming.apply name)) = true
    rw [textPiece, if_neg hne]
    rfl
  | number => rfl

end

end EnumType

namespace Codec

variable {c d : Codec} {e : EnumType} {before after : List (String × Int)} {name : String}
  {number : Int}

/-- A variant is read back where no earlier one is declared under the name that it is stored under. -/
theorem decode_piece_self (he : e.Unambiguous c.options.enumNaming)
    (hnaming : d.options.enumNaming = c.options.enumNaming)
    (hvariants : e.variants = before ++ (name, number) :: after)
    (hnone : c.options.enumEncoding = .name →
      ∀ v ∈ before, v.1 ≠ c.options.enumNaming.apply name) :
    d.decode (.enumeration e) (e.piece c.options number) = .ok (.enumeration number) := by
  rw [decode]
  cases hencoding : c.options.enumEncoding with
  | name =>
    have hfind : (before.find? fun v => v.1 == c.options.enumNaming.apply name) = none :=
      List.find?_eq_none.mpr fun v hv => by
        rw [beq_iff_eq]
        exact hnone hencoding v hv
    rw [EnumType.read_piece_of_name he hnaming hvariants hencoding, hfind]
    rfl
  | number =>
    rw [EnumType.read_piece_of_number d.options he hvariants hencoding]
    rfl

/-- An earlier variant that is declared under the name is read instead. -/
theorem decode_piece_other (he : e.Unambiguous c.options.enumNaming)
    (hnaming : d.options.enumNaming = c.options.enumNaming)
    (hvariants : e.variants = before ++ (name, number) :: after) {v : String × Int}
    (hv : v ∈ before) (hencoding : c.options.enumEncoding = .name)
    (hdeclared : v.1 = c.options.enumNaming.apply name) :
    d.decode (.enumeration e) (e.piece c.options number) = .ok (.enumeration v.2) := by
  have hnames := he.names
  rw [hvariants, List.map_append, List.nodup_append] at hnames
  have hfind : (before.find? fun v => v.1 == c.options.enumNaming.apply name) = some v :=
    find?_of_nodup hnames.1 hv fun w _ => by rw [hdeclared]
  rw [decode, EnumType.read_piece_of_name he hnaming hvariants hencoding, hfind]
  rfl

/-- **Which variants are read back.** If the variants of an enumeration and their stored names are told
apart, each variant is stored, whatever is kept, and any reader with the same naming policy for
variants reads it back, by its number always and by its name just where no earlier variant is declared
under the name that it is stored under. If one is, this earlier variant is read. A stored name that the
policy leaves as it is leads back. -/
theorem decode_variant (he : e.Unambiguous c.options.enumNaming)
    (hnaming : d.options.enumNaming = c.options.enumNaming)
    (hvariants : e.variants = before ++ (name, number) :: after) (flags : WriteFlags) :
    ∃ written,
      c.encodeWith flags (.enumeration e) (.enumeration number) = .ok (some written) ∧
        (d.decode (.enumeration e) written = .ok (.enumeration number) ↔
          (c.options.enumEncoding = .name → ∀ v ∈ before, v.1 ≠ c.options.enumNaming.apply name)) ∧
        (∀ v ∈ before, c.options.enumEncoding = .name → v.1 = c.options.enumNaming.apply name →
          d.decode (.enumeration e) written = .ok (.enumeration v.2)) ∧
        (c.options.enumNaming.apply (c.options.enumNaming.apply name) =
            c.options.enumNaming.apply name →
          d.decode (.enumeration e) written = .ok (.enumeration number)) := by
  refine ⟨e.piece c.options number, ?_,
    ⟨fun hback hencoding v hv hdeclared => ?_, decode_piece_self he hnaming hvariants⟩,
    fun v hv hencoding hdeclared => decode_piece_other he hnaming hvariants hv hencoding hdeclared,
    fun hsame => decode_piece_self he hnaming hvariants fun _ v hv hdeclared => ?_⟩
  · rw [encodeWith, write, EnumType.write_eq, (Writer.yields_write _).run_new flags]
    exact congrArg Except.ok (if_pos (EnumType.keeps_piece he rfl hvariants flags))
  · rw [decode_piece_other he hnaming hvariants hv hencoding hdeclared] at hback
    injection hback with hback
    injection hback with hnumber
    exact EnumType.ne_of_mem_before he.numbers hvariants v hv hnumber
  · refine EnumType.ne_of_mem_before he.stored hvariants v hv ?_
    rw [hdeclared]
    exact hsame

/-- An enumeration with a name that is the stored name of another variant. -/
def codes : EnumType := ⟨"Code", [("XY", 0), ("X_Y", 1), ("Z", 2)]⟩

/-- A codec that stores variants as some encoding says, their names in the style of types. -/
def inPascalCase (encoding : EnumEncoding) : Codec :=
  { bare with
    options := { CodecOptions.initial with enumNaming := .pascalCase, enumEncoding := encoding } }

theorem stored_codes :
    codes.variants.map (fun v => NamingPolicy.pascalCase.apply v.1) = ["Xy", "XY", "Z"] := by
  decide +kernel

theorem unambiguous_codes : codes.Unambiguous .pascalCase where
  names := by decide
  numbers := by decide
  bounds := by decide
  stored := by rw [stored_codes]; decide
  storedNamed v hv := by
    have hmem := List.mem_map_of_mem (f := fun v => NamingPolicy.pascalCase.apply v.1) hv
    rw [stored_codes] at hmem
    rintro hempty
    rw [hempty] at hmem
    exact absurd hmem (by decide)

/-- One variant is read as the one that is declared under its stored name, and another one as it is; the
reader itself stores numbers. -/
theorem decode_variant_codes :
    (∃ written,
      (inPascalCase .name).encodeWith .none (.enumeration codes) (.enumeration 1) =
          .ok (some written) ∧
        (inPascalCase .number).decode (.enumeration codes) written = .ok (.enumeration 0)) ∧
      ∃ written,
        (inPascalCase .name).encodeWith .none (.enumeration codes) (.enumeration 2) =
            .ok (some written) ∧
          (inPascalCase .number).decode (.enumeration codes) written = .ok (.enumeration 2) := by
  have hxy : NamingPolicy.pascalCase.apply "X_Y" = "XY" := by decide +kernel
  have hz : NamingPolicy.pascalCase.apply "Z" = "Z" := by decide +kernel
  constructor
  · have hvariants : codes.variants = [("XY", 0)] ++ ("X_Y", 1) :: [("Z", 2)] := rfl
    obtain ⟨written, hwrite, -, hother, -⟩ := decode_variant (c := inPascalCase .name)
      (d := inPascalCase .number) unambiguous_codes rfl hvariants .none
    exact ⟨written, hwrite, hother ("XY", 0) List.mem_cons_self rfl hxy.symm⟩
  · have hvariants : codes.variants = [("XY", 0), ("X_Y", 1)] ++ ("Z", 2) :: [] := rfl
    obtain ⟨written, hwrite, -, -, hsame⟩ := decode_variant (c := inPascalCase .name)
      (d := inPascalCase .number) unambiguous_codes rfl hvariants .none
    refine ⟨written, hwrite, hsame ?_⟩
    change NamingPolicy.pascalCase.apply (NamingPolicy.pascalCase.apply "Z") =
      NamingPolicy.pascalCase.apply "Z"
    rw [hz, hz]

end Codec

end ItemMapper
