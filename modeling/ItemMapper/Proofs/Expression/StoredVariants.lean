import ItemMapper.Proofs.Codec.VariantMembers
import ItemMapper.Proofs.Expression.LiteralPlaces
import ItemMapper.Proofs.Schema.Nesting

/-!
# Variants as they are stored

Where an expression names a member that is an enumeration, also an optional or a boxed one, in the document
of the expression or in one that this holds at any depth, a variant may be given by its number, by a text
that is read as the variant, or as the variant itself. At every place that the member shapes, each of them
compiles as the attribute value that the variant is stored as, and this is what a document with the variant
stores for the member.

## Main definitions

* `Session.CompilesAs`: a constant that compiles as an attribute value wherever a member shapes it.

## Main statements

* `Session.compilesAs_of_shapedAlike`: constants that are shaped to an attribute value compile as this.
* `Codec.compilesAs_stored`: **literals of variants compile as what is stored.**
-/

namespace ItemMapper

/-! ### Constants and attribute values -/

/-- Literals of a variant do not depend on what the enumeration is called. -/
theorem EnumType.Denotes.congr {d e : EnumType} {options : CodecOptions} {literal : Value} {number : Int}
    (hvariants : d.variants = e.variants) (h : e.Denotes options literal number) :
    d.Denotes options literal number := by
  have hname : ∀ number, d.name? number = e.name? number := by
    intro number
    rw [name?, name?, hvariants]
  cases h with
  | number declared => exact .number (hname number ▸ declared)
  | text read => exact .text ((read_text_congr hvariants).mpr read)
  | variant name declared =>
    rw [← hvariants]
    exact .variant name (hname number ▸ declared)

/-- An attribute value stands for itself beside any hint. -/
theorem Expr.shaped_stored (options : CodecOptions) (written : AttributeValue) (hint : Hint) :
    shaped options (.stored written) hint = .ok written := by
  have hself : Aliases.stored options (.stored written) = .ok written := by
    rw [Aliases.stored, Value.encode_eq_piece]
    simp [Value.piece, Except.map, WriteFlags.keeps_all]
  cases hint <;> exact hself

/-- An attribute value is written as its placeholder. -/
theorem Expr.operand_stored (scope : Scope) (written : AttributeValue) (hint : Hint) :
    operand scope hint (.constant (.stored written)) = Aliases.valueAlias written := by
  rw [operand, constantText, shaped_stored]
  rfl

/-- A literal of a variant is shaped as what the variant is stored as. -/
theorem EnumType.Denotes.shapedAlike {d e : EnumType} {options : CodecOptions} {literal : Value}
    {number : Int} (hvariants : d.variants = e.variants) (h : e.Denotes options literal number) :
    literal.ShapedAlike options (.variant d) (.stored (e.piece options number)) where
  shaped := by
    rw [Expr.shaped_of_denotes (h.congr hvariants), Expr.shaped_stored, piece_congr hvariants]
  single := by cases h <;> rfl
  single' := rfl

namespace Session

variable {scope : Scope} {member : Expr} {constant : Value} {written : AttributeValue}

/-- Wherever a constant stands at a place that a member shapes, in what an expression is folded to, the
expression compiles as if the attribute value stood there. -/
structure CompilesAs (scope : Scope) (member : Expr) (constant : Value) (written : AttributeValue) :
    Prop where
  condition : ∀ K, Expr.ConditionPlace member K → ∀ e s k, e.fold s.counter = .ok (K constant) k →
    condition scope e s =
      onAliases ((K (.stored written)).conditionText scope) { s with counter := k }
  keyCondition : ∀ K, Expr.ConditionPlace member K → ∀ e s k, e.fold s.counter = .ok (K constant) k →
    keyCondition scope e s =
      onAliases ((K (.stored written)).keyConditionText scope) { s with counter := k }
  update : ∀ K, Expr.UpdatePlace scope (member.hint scope) K → ∀ e s k,
    e.fold s.counter = .ok (K constant) k →
      update scope e s = onAliases ((K (.stored written)).updateText scope) { s with counter := k }

/-- What follows the folding of an expression. -/
theorem folded_bind {α : Type} {e e' : Expr} {s : Session} {k : Nat} (f : Expr → SessionM α)
    (h : e.fold s.counter = .ok e' k) : (folded e >>= f) s = f e' { s with counter := k } := by
  change EStateM.bind (folded e) f s = _
  rw [EStateM.bind, folded, h]

/-- Constants that are shaped to an attribute value compile as this. -/
theorem compilesAs_of_shapedAlike
    (h : constant.ShapedAlike scope.options (member.hint scope) (.stored written)) :
    CompilesAs scope member constant written where
  condition K hK e s k hfold := by
    rw [Session.condition, folded_bind _ hfold, hK.conditionText_eq h]
  keyCondition K hK e s k hfold := by
    rw [Session.keyCondition, folded_bind _ hfold, hK.keyConditionText_eq h]
  update K hK e s k hfold := by
    rw [Session.update, folded_bind _ hfold, hK.updateText_eq h]

end Session

/-! ### Variants -/

namespace Codec

/-- **Literals of variants compile as what is stored.** In the document of an expression, or in one that it
holds at any depth, let a member be an enumeration, also an optional or a boxed one, and let a variant have
a name that the policy does not make empty. A literal of the variant compiles, at every place that the
member shapes, as the attribute value that the variant is stored as: with the same text, and with the one
placeholder of this value. This is what the codec writes for the variant; and where no other member is
stored under the name of the member, each document with the variant is stored with it, or with what the
hooks of the member make of it. -/
theorem compilesAs_stored {c : Codec} {id owner : DocumentId} {scope : Scope} {holder : Expr}
    {name : String} {f : Field} {e : EnumType} {number : Int} {variant : String}
    (hscope : c.scope id = .ok scope) (hholder : c.Nests id holder owner) (hf : c.Finds owner name f)
    (htype : f.type.enumType? = some e) (hvariant : e.name? number = some variant)
    (hkept : c.options.enumNaming.apply variant ≠ "") :
    (∀ hint, Expr.operand scope hint (.constant (.stored (e.piece c.options number))) =
      Aliases.valueAlias (e.piece c.options number)) ∧
    (∀ literal, e.Denotes c.options literal number →
      Session.CompilesAs scope (.member holder name) literal (e.piece c.options number)) ∧
    ∀ value, f.type.HoldsVariant number value →
      c.write f.type value = Writer.write (e.piece c.options number) ∧
      ∀ members final, c.ConvertersPlace → (f, value) ∈ (c.documents owner).fields.zip members →
        c.keepsMember f value = true → c.StandsAlone f value (c.documents owner).fields members →
        runWriteHooks f.onWrite (e.piece c.options number) = .ok final → final.isVoid = false →
          c.StoresUnder owner members (c.storedName f) final := by
  refine ⟨Expr.operand_stored scope _, fun literal hliteral => ?_, fun value hvalue => ?_⟩
  · apply Session.compilesAs_of_shapedAlike
    rw [hint_of_finds hscope hholder hf htype, (scope_eq hscope).1]
    exact hliteral.shapedAlike rfl
  · exact ⟨write_of_holdsVariant hvalue htype,
      fun members final hplaces hmember hkeeps halone hhooks hvoid =>
        storesUnder_of_holdsVariant hplaces hvalue htype (EnumType.isVoid_piece hvariant hkept) hmember
          hkeeps halone hhooks hvoid⟩

/-- How a ship is rigged. -/
def rigging : EnumType := ⟨"Rigging", [("SquareRigged", 0), ("ForeAndAft", 1)]⟩

/-- The rig of a ship, which can be missing. -/
def shipRig : Field :=
  { (default : Field) with
    name := "rig", type := .option (.boxed (.enumeration rigging)), rename := some "Rig" }

/-- The ships of a fleet. -/
def fleetShips : Field :=
  { (default : Field) with name := "ships", type := .list (.document 1) }

/-- A codec for fleets of ships that stores variants in kebab case. -/
def fleetCodec : Codec :=
  { bare with
    options := { CodecOptions.initial with enumNaming := .kebabCase }
    documents := fun
      | 0 => ⟨"Fleet", [fleetShips], []⟩
      | _ => ⟨"Ship", [shipRig], []⟩ }

def fleetScope : Scope :=
  ⟨fleetCodec.options, some ⟨"Fleet", [fleetShips.member fleetCodec.typeName]⟩, fleetCodec.schemas⟩

/-- The first ship of a fleet. -/
def firstShip : Expr := .index (.member .item "ships") (.constant (.int 0))

/-- A variant as its number, as its name and as itself. -/
theorem compilesAs_stored_fleet :
    Session.CompilesAs fleetScope (.member firstShip "rig") (.int 1) (.text "fore-and-aft") ∧
      Session.CompilesAs fleetScope (.member firstShip "rig") (.text "ForeAndAft")
        (.text "fore-and-aft") ∧
      Session.CompilesAs fleetScope (.member firstShip "rig") (.enumeration ⟨rigging, 1⟩)
        (.text "fore-and-aft") ∧
      fleetCodec.StoresUnder 1 [.present (.boxed (.enumeration 1))] "Rig" (.text "fore-and-aft") := by
  have hscope : fleetCodec.scope 0 = .ok fleetScope := by rfl
  have hfleet : (fleetCodec.documents 0).schema fleetCodec.typeName =
      .ok ⟨"Fleet", [fleetShips.member fleetCodec.typeName]⟩ := by rfl
  have hship : (fleetCodec.documents 1).schema fleetCodec.typeName =
      .ok ⟨"Ship", [shipRig.member fleetCodec.typeName]⟩ := by rfl
  have hships : fleetCodec.Finds 0 "ships" fleetShips :=
    finds_name (f := fleetShips) hfleet List.mem_cons_self
  have hrig : fleetCodec.Finds 1 "rig" shipRig := finds_name (f := shipRig) hship List.mem_cons_self
  have hvariant : rigging.name? 1 = some "ForeAndAft" := by rfl
  have hname : fleetCodec.options.enumNaming.apply "ForeAndAft" = "fore-and-aft" := by decide +kernel
  have hpiece : rigging.piece fleetCodec.options 1 = .text "fore-and-aft" := by decide +kernel
  obtain ⟨-, hliterals, hstored⟩ := compilesAs_stored hscope
    (.element (.member .item hships rfl) 0) hrig rfl hvariant (by rw [hname]; decide)
  rw [hpiece] at hliterals hstored
  have hread : rigging.read fleetCodec.options (.text "ForeAndAft") = .ok 1 :=
    EnumType.read_text_iff_numberOf?.mpr (by decide +kernel)
  refine ⟨hliterals _ (.number (by rfl)), hliterals _ (.text hread),
    hliterals _ (.variant rigging.typeName (by rfl)), ?_⟩
  exact (hstored _ (.present (.boxed (.enumeration rigging)))).2 _ _
    (convertersPlace_of_builtins rfl) List.mem_cons_self rfl
    (fun other hother _ _ => List.mem_singleton.mp hother) rfl rfl

end Codec

end ItemMapper
