import ItemMapper.Proofs.Expression.Comparison
import ItemMapper.Proofs.Expression.Paths
import ItemMapper.Proofs.Key.Casting
import ItemMapper.Proofs.Schema.Nesting

/-!
# Variants in keys and in conditions

A key can be made of literals, and a condition can compare a member of the key with a literal. Where the
member is an enumeration, both take a text that is read as a variant and the number of a variant for what
the variant is stored as, and refuse other texts. They part in two places. A number of no variant is
refused by the condition, if it has 64 bits, but becomes a value of the key; and where a variant is stored
under the empty name the key lacks a value while the condition compares with null.

## Main definitions

* `Value.IsTextOrInteger`: the literals.
* `PrimaryKey.valueAt`: the value of a key at a position.
* `Session.ComparesWith`, `Session.Refuses`: what becomes of comparing a member with a literal.

## Main statements

* `PrimaryKey.castComponent_of_denotes`, `PrimaryKey.castComponent_of_undeclared`: what a literal becomes
  in a key.
* `Session.comparesWith_of_shaped`, `Session.refuses_of_shaped`: what it becomes in a condition.
* `PrimaryKey.takesAlike_iff`: **which literals keys and conditions take alike**.
-/

namespace ItemMapper

/-! ### In keys -/

/-- The type that variants have in keys. -/
def EnumEncoding.keyType : EnumEncoding → ScalarType
  | name => .text
  | number => .number

namespace PrimaryKey

variable {options : CodecOptions} {member : Member} {e : EnumType} {literal : Value} {number : Int}

theorem declaredType_of_variants (hmember : Hint.ofType (some member.type) = .variant e) :
    declaredType options member = .ok options.enumEncoding.keyType := by
  obtain ⟨hkind, -, -⟩ := Hint.ofType_eq_variant.mp hmember
  rw [declaredType, hkind]
  cases options.enumEncoding <;> rfl

theorem enumConstant_int (hmember : Hint.ofType (some member.type) = .variant e) (i : Int) :
    enumConstant options member (.int i) = .ok (.enumeration ⟨e, i⟩) := by
  obtain ⟨hkind, hname, hvariants⟩ := Hint.ofType_eq_variant.mp hmember
  rw [enumConstant, hkind, hvariants, hname]

theorem enumConstant_text (hmember : Hint.ofType (some member.type) = .variant e) (s : String) :
    enumConstant options member (.text s) =
      (e.read options (.text s)).map fun number => .enumeration ⟨e, number⟩ := by
  obtain ⟨hkind, hname, hvariants⟩ := Hint.ofType_eq_variant.mp hmember
  rw [enumConstant, hkind, hvariants, hname]

/-- A value is cast after it was written. -/
theorem castComponent_of_encode_eq {type : ScalarType} {constant : Value} {written : AttributeValue}
    (htype : declaredType options member = .ok type)
    (hconstant : enumConstant options member literal = .ok constant)
    (hwritten : constant.encode options .all = .ok (some written)) :
    castComponent options member literal =
      if written.isNull then .error ↑(Cause.missingRequiredAttribute (member.storedName options))
      else cast member.type.name type written := by
  rw [castComponent, htype, hconstant]
  simp only [bind, Except.bind, hwritten]

/-- What a variant is stored as is a value of its key's type, or null. -/
theorem cast_piece (typeName : String) (hdeclared : (e.name? number).isSome = true)
    (hkept : (e.piece options number).isNull = false) :
    ∃ component : KeyValue, component.toAttribute = e.piece options number ∧
      cast typeName options.enumEncoding.keyType (e.piece options number) = .ok component := by
  obtain ⟨name, hname⟩ := Option.isSome_iff_exists.mp hdeclared
  rw [EnumType.piece_of_declared hname] at hkept ⊢
  cases hencoding : options.enumEncoding with
  | name =>
    rw [hencoding] at hkept
    by_cases hempty : (options.enumNaming.apply name).isEmpty = true
    · simp [textPiece, hempty, AttributeValue.isNull] at hkept
    · exact ⟨.text (options.enumNaming.apply name), by simp [textPiece, hempty, KeyValue.toAttribute],
        by simp [textPiece, hempty, EnumEncoding.keyType, cast]⟩
  | number => exact ⟨.number (toString number), rfl, rfl⟩

/-- A literal of a variant becomes what the variant is stored as, and is refused if this is null. -/
theorem castComponent_of_denotes (hmember : Hint.ofType (some member.type) = .variant e)
    (h : e.Denotes options literal number) :
    ((e.piece options number).isNull = false → ∃ component : KeyValue,
      component.toAttribute = e.piece options number ∧
        castComponent options member literal = .ok component) ∧
    ((e.piece options number).isNull = true →
      castComponent options member literal =
        .error ↑(Cause.missingRequiredAttribute (member.storedName options))) := by
  have hconstant : ∃ value : EnumValue, value.type.variants = e.variants ∧ value.number = number ∧
      enumConstant options member literal = .ok (.enumeration value) := by
    cases h with
    | number _ => exact ⟨⟨e, number⟩, rfl, rfl, enumConstant_int hmember number⟩
    | text read => exact ⟨⟨e, number⟩, rfl, rfl, by rw [enumConstant_text hmember, read]; rfl⟩
    | variant name _ =>
      obtain ⟨hkind, -, hvariants⟩ := Hint.ofType_eq_variant.mp hmember
      exact ⟨⟨⟨name, e.variants⟩, number⟩, rfl, rfl, by rw [enumConstant, hkind, hvariants]⟩
  obtain ⟨value, hvariants, rfl, hconstant⟩ := hconstant
  have hcast := castComponent_of_encode_eq (declaredType_of_variants hmember) hconstant
    (Value.encode_enumeration options value)
  rw [EnumType.piece_congr hvariants] at hcast
  constructor
  · intro hkept
    obtain ⟨component, hcomponent, hpiece⟩ := cast_piece member.type.name h.declared hkept
    rw [hkept, if_neg Bool.false_ne_true, hpiece] at hcast
    exact ⟨component, hcomponent, hcast⟩
  · intro hnull
    rw [hcast, if_pos hnull]

/-- What a number of no variant becomes in a key: its digits, as a text or as a number. -/
def undeclaredNumber (options : CodecOptions) (number : Int) : KeyValue :=
  match options.enumEncoding with
  | .name => .text (toString number)
  | .number => .number (toString number)

/-- **A number of no variant becomes a value of the key**, however many digits it has. -/
theorem castComponent_of_undeclared (hmember : Hint.ofType (some member.type) = .variant e)
    (hundeclared : (e.name? number).isSome = false) :
    castComponent options member (Value.ofInt number) =
      .ok (undeclaredNumber options number) := by
  have hwritten : ∃ constant, enumConstant options member (Value.ofInt number) = .ok constant ∧
      constant.encode options .all = .ok (some (.number (toString number))) := by
    by_cases hbounds : IntType.int64.Holds number
    · rw [Value.ofInt_of_holds hbounds]
      refine ⟨_, enumConstant_int hmember number, ?_⟩
      rw [Value.encode_enumeration, EnumType.piece_of_undeclared hundeclared]
    · rw [Value.ofInt_of_not_holds hbounds]
      obtain ⟨hkind, -, hvariants⟩ := Hint.ofType_eq_variant.mp hmember
      exact ⟨.number (toString number), by rw [enumConstant, hkind, hvariants], rfl⟩
  obtain ⟨constant, hconstant, hwritten⟩ := hwritten
  rw [castComponent_of_encode_eq (declaredType_of_variants hmember) hconstant hwritten,
    undeclaredNumber]
  cases options.enumEncoding <;> rfl

theorem castComponent_of_unread {s : String} {error : Error}
    (hmember : Hint.ofType (some member.type) = .variant e)
    (h : e.read options (.text s) = .error error) :
    castComponent options member (.text s) = .error error := by
  rw [castComponent, declaredType_of_variants hmember, enumConstant_text hmember, h]
  rfl

section
variable {d : TableDescriptor} {parts : Nat → Value} {position : Nat}

/-- The value of a key for the member at a position. -/
def valueAt (key : PrimaryKey) (d : TableDescriptor) (position : Nat) : Option KeyValue :=
  if position = d.partition then some key.partition else key.sort

/-- The parts of a key for the members at other positions are cast. -/
def OthersCast (options : CodecOptions) (d : TableDescriptor) (parts : Nat → Value) (position : Nat) :
    Prop :=
  ∀ other ∈ d.keyPositions, other ≠ position →
    ∃ component, castComponent options (d.memberAt other) (parts other) = .ok component

theorem ofParts_of_castComponents {components : Nat → KeyValue}
    (h : ∀ position ∈ d.keyPositions,
      castComponent options (d.memberAt position) (parts position) = .ok (components position)) :
    ofParts options d (parts d.partition) (d.sort.map parts) =
      .ok ⟨components d.partition, d.sort.map components⟩ := by
  have hpartition := h d.partition (TableDescriptor.mem_keyPositions.mpr (.inl rfl))
  rw [ofParts, TableDescriptor.partitionMember, hpartition, TableDescriptor.sortMember?]
  cases hsort : d.sort with
  | none => rfl
  | some position =>
    simp only [bind, Except.bind, Option.map_some,
      h position (TableDescriptor.mem_keyPositions.mpr (.inr hsort))]
    rfl

/-- A literal that is cast makes a key, if the other part is cast too. -/
theorem exists_ofParts (hposition : position ∈ d.keyPositions) {component : KeyValue}
    (hcast : castComponent options (d.memberAt position) (parts position) = .ok component)
    (hothers : OthersCast options d parts position) :
    ∃ key, ofParts options d (parts d.partition) (d.sort.map parts) = .ok key ∧
      key.valueAt d position = some component := by
  have hall : ∀ other, ∃ component, other ∈ d.keyPositions →
      castComponent options (d.memberAt other) (parts other) = .ok component := by
    intro other
    by_cases hother : other ∈ d.keyPositions
    · by_cases hsame : other = position
      · subst hsame
        exact ⟨component, fun _ => hcast⟩
      · obtain ⟨value, hvalue⟩ := hothers other hother hsame
        exact ⟨value, fun _ => hvalue⟩
    · exact ⟨default, fun hmem => absurd hmem hother⟩
  obtain ⟨components, hcomponents⟩ := Classical.axiom_of_choice hall
  have hhere : components position = component := by
    have hcast' := hcomponents position hposition
    rw [hcast] at hcast'
    exact (Except.ok.inj hcast').symm
  refine ⟨_, ofParts_of_castComponents hcomponents, ?_⟩
  rw [valueAt]
  split
  · rename_i hpartition
    rw [← hpartition, hhere]
  · rename_i hpartition
    have hsort := (TableDescriptor.mem_keyPositions.mp hposition).resolve_left hpartition
    simp only [hsort, Option.map_some, hhere]

/-- A literal that is not cast makes no key. -/
theorem ofParts_eq_error (hposition : position ∈ d.keyPositions) {error : Error}
    (hcast : castComponent options (d.memberAt position) (parts position) = .error error)
    (key : PrimaryKey) :
    ofParts options d (parts d.partition) (d.sort.map parts) ≠ .ok key := by
  intro h
  obtain ⟨partition, hpartition, h⟩ := except_bind_eq_ok.mp h
  rcases TableDescriptor.mem_keyPositions.mp hposition with rfl | hsort
  · cases hcast.symm.trans hpartition
  · rw [TableDescriptor.sortMember?, hsort] at h
    obtain ⟨sort, hcast', -⟩ := except_bind_eq_ok.mp h
    cases hcast.symm.trans hcast'

end

end PrimaryKey

/-! ### In conditions -/

namespace Session

variable {scope : Scope} {name : String} {literal : Value} {written : AttributeValue} {m : Member}
  {i : Nat}

/-- Comparing a member of the item with a literal compiles to the path, the operator and a placeholder
that stands for an attribute value. -/
def ComparesWith (scope : Scope) (name : String) (literal : Value) (written : AttributeValue) : Prop :=
  ∀ (op : BinaryOp) (s : Session), op.isComparison = true → s.aliases.Tidy →
    ∃ (path : Path) (a : Aliases) (placeholder : String) (t : Session),
      (Expr.member .item name).path scope s.aliases = .ok path a ∧
        condition scope (.binary op (.member .item name) (.constant literal)) s =
          .ok s!"{path.text} {op.symbol} {placeholder}" t ∧
        t.aliases.values.get? placeholder = some written

/-- Comparing a member of the item with a literal fails. -/
def Refuses (scope : Scope) (name : String) (literal : Value) : Prop :=
  ∀ (op : BinaryOp) (s : Session), op.isComparison = true →
    result? (condition scope (.binary op (.member .item name) (.constant literal))) s = none

theorem condition_comparison {op : BinaryOp} (hop : op.isComparison = true) (s : Session) :
    condition scope (.binary op (.member .item name) (.constant literal)) s =
      onAliases (Expr.comparisonText scope op (.member .item name) (.constant literal)) s := by
  cases op with
  | and | or | add | sub | mul | div => cases hop
  | eq | ne | lt | le | gt | ge => rfl

theorem hint_member {schema : Schema} (hroot : scope.root = some schema)
    (hname : schema.lookup? name scope.options = some (i, m)) :
    (Expr.member .item name).hint scope = Hint.ofType (some m.type) := by
  have htype : (Expr.member .item name).typeOf? scope = some m.type := by
    rw [Expr.typeOf?, Expr.schemaOf?, Expr.typeNamed?, hroot, Option.bind_some, hname]
    rfl
  rw [Expr.hint, htype]
  intro operand type h
  cases h

/-- **A literal that is shaped to an attribute value is compared with it**, the order inside sets
apart. -/
theorem comparesWith_of_shaped {schema : Schema} (hroot : scope.root = some schema)
    (hname : schema.lookup? name scope.options = some (i, m))
    (hshaped : Expr.shaped scope.options literal (Hint.ofType (some m.type)) = .ok written)
    (halone : ∀ present, present.same written = true → present = written) :
    ComparesWith scope name literal written := by
  intro op s hop htidy
  have hnamed : Expr.memberNamed scope scope.root name =
      .ok (m.storedName scope.options, some m.type) := by
    rw [hroot, Expr.memberNamed, hname]
  obtain ⟨path, b, hpath⟩ := Expr.exists_memberPath hnamed none s.aliases
  obtain ⟨placeholder, b', hplaceholder, -⟩ := Aliases.valueAlias_cases b written
  have htidy' : b.Tidy :=
    ((Expr.memberPath_made scope none scope.root name).grows.of_ok hpath).tidy htidy
  obtain ⟨present, hpresent, hsame, -⟩ := Aliases.valueAlias_spec htidy' hplaceholder
  have hmember : Expr.operand scope .plain (.member .item name) s.aliases = .ok path.text b :=
    bind_eq_ok.mpr ⟨path, b, hpath, rfl⟩
  have hliteral : Expr.operand scope (Hint.ofType (some m.type)) (.constant literal) b =
      .ok placeholder b' := by
    rw [Expr.operand, Expr.constantText, hshaped]
    exact hplaceholder
  refine ⟨path, b, placeholder, { s with aliases := b' }, hpath, ?_, halone present hsame ▸ hpresent⟩
  rw [condition_comparison hop]
  refine onAliases_eq_ok.mpr ⟨b', bind_eq_ok.mpr ⟨path.text, b, hmember, ?_⟩, rfl⟩
  rw [hint_member hroot hname]
  exact bind_eq_ok.mpr ⟨placeholder, b', hliteral, rfl⟩

theorem refuses_of_shaped {schema : Schema} (hroot : scope.root = some schema)
    (hname : schema.lookup? name scope.options = some (i, m)) {error : Error}
    (hshaped : Expr.shaped scope.options literal (Hint.ofType (some m.type)) = .error error) :
    Refuses scope name literal := by
  intro op s hop
  refine Option.eq_none_iff_forall_not_mem.mpr fun text htext => ?_
  obtain ⟨t, hrun⟩ := result?_eq_some.mp htext
  rw [condition_comparison hop] at hrun
  obtain ⟨b, hrun, -⟩ := onAliases_eq_ok.mp hrun
  obtain ⟨l, b, -, hrun⟩ := bind_eq_ok.mp hrun
  obtain ⟨r, b, hoperand, -⟩ := bind_eq_ok.mp hrun
  rw [hint_member hroot hname, Expr.operand, Expr.constantText, hshaped] at hoperand
  cases hoperand

/-- A literal stands for one attribute value. -/
theorem ComparesWith.unique {other : AttributeValue} (h : ComparesWith scope name literal written)
    (h' : ComparesWith scope name literal other) : written = other := by
  obtain ⟨path, a, placeholder, t, hpath, hrun, hget⟩ := h .eq (.start 0) rfl Aliases.tidy_empty
  obtain ⟨path', a', placeholder', t', hpath', hrun', hget'⟩ :=
    h' .eq (.start 0) rfl Aliases.tidy_empty
  cases hpath.symm.trans hpath'
  have hsame := hrun.symm.trans hrun'
  injection hsame with htext hstate
  subst hstate
  have hplaceholder : placeholder = placeholder' := (String.append_right_inj _).mp htext
  rw [hplaceholder, hget'] at hget
  exact (Option.some.inj hget).symm

theorem ComparesWith.not_refuses (h : ComparesWith scope name literal written) :
    ¬ Refuses scope name literal := by
  intro hrefuses
  obtain ⟨path, a, placeholder, t, -, hrun, -⟩ := h .eq (.start 0) rfl Aliases.tidy_empty
  have hnone := hrefuses .eq (.start 0) rfl
  rw [result?, hrun] at hnone
  cases hnone

end Session

/-! ### Both -/

/-- A member of a key is found by its declared name. -/
theorem Codec.lookup?_of_descriptor {c : Codec} {id : DocumentId} {d : TableDescriptor} {scope : Scope}
    {position : Nat} (hd : c.descriptor id = .ok d) (hscope : c.scope id = .ok scope)
    (hposition : position ∈ d.keyPositions) :
    scope.options = c.options ∧ ∃ schema, scope.root = some schema ∧
      schema.lookup? (d.memberAt position).name scope.options =
        some (position, d.memberAt position) := by
  obtain ⟨schema, hschema, hd⟩ := except_bind_eq_ok.mp hd
  obtain ⟨hoptions, -, _, hschema', hroot⟩ := scope_eq hscope
  cases hschema.symm.trans hschema'
  obtain ⟨hsame, hmembers⟩ := TableDescriptor.exists_member_of_ofSchema hd
  obtain ⟨m, hm, -⟩ := hmembers position hposition
  have hmember : d.memberAt position = m := by
    rw [TableDescriptor.memberAt, hsame, List.getD_eq_getElem?_getD, hm, Option.getD_some]
  rw [hmember]
  exact ⟨hoptions, schema, hroot, Document.lookup?_of_schema hschema hm scope.options⟩

/-- The literals of texts and of integers, of which those beyond 64 bits are held as their digits. -/
def Value.IsTextOrInteger (value : Value) : Prop :=
  (∃ s, value = .text s) ∨ ∃ i, value = ofInt i

namespace PrimaryKey

/-- A key and a condition take a literal alike: it is refused by both, or becomes what one variant is stored
as in both. -/
def TakesAlike (scope : Scope) (d : TableDescriptor) (e : EnumType) (parts : Nat → Value)
    (position : Nat) : Prop :=
  (∃ key component number,
    ofParts scope.options d (parts d.partition) (d.sort.map parts) = .ok key ∧
      key.valueAt d position = some component ∧
      Session.ComparesWith scope (d.memberAt position).name (parts position) component.toAttribute ∧
      (e.name? number).isSome = true ∧ component.toAttribute = e.piece scope.options number) ∨
  (∀ key, ofParts scope.options d (parts d.partition) (d.sort.map parts) ≠ .ok key) ∧
    Session.Refuses scope (d.memberAt position).name (parts position)

section
variable {scope : Scope} {schema : Schema} {d : TableDescriptor} {e : EnumType} {parts : Nat → Value}
  {position : Nat} {number : Int}

/-- A variant is stored as a text, a number or null, which is the same as nothing else. -/
theorem eq_of_same_piece {present : AttributeValue}
    (h : present.same (e.piece scope.options number) = true) :
    present = e.piece scope.options number := by
  have hscalar : ∀ w : AttributeValue, (∃ s, w = .text s) ∨ (∃ s, w = .number s) ∨ w = .null true →
      present.same w = true → present = w := by
    rintro w (⟨s, rfl⟩ | ⟨s, rfl⟩ | rfl) h <;> cases present <;> simp_all [AttributeValue.same]
  refine hscalar _ ?_ h
  cases hdeclared : (e.name? number).isSome with
  | true =>
    obtain ⟨name, hname⟩ := Option.isSome_iff_exists.mp hdeclared
    rw [EnumType.piece_of_declared hname]
    cases scope.options.enumEncoding with
    | name =>
      dsimp only [textPiece]
      split
      · exact .inr (.inr rfl)
      · exact .inl ⟨_, rfl⟩
    | number => exact .inr (.inl ⟨_, rfl⟩)
  | false =>
    rw [EnumType.piece_of_undeclared hdeclared]
    exact .inr (.inl ⟨_, rfl⟩)

variable (hroot : scope.root = some schema)
  (hname : schema.lookup? (d.memberAt position).name scope.options =
    some (position, d.memberAt position))
  (hmember : Hint.ofType (some (d.memberAt position).type) = .variant e)

include hroot hname hmember

/-- A literal of a variant is compared with what the variant is stored as. -/
theorem comparesWith_of_denotes (h : e.Denotes scope.options (parts position) number) :
    Session.ComparesWith scope (d.memberAt position).name (parts position)
      (e.piece scope.options number) :=
  Session.comparesWith_of_shaped hroot hname (by rw [hmember, Expr.shaped_of_denotes h])
    fun _ => eq_of_same_piece

/-- A literal of a variant that is stored as null makes no key, and is compared with null. -/
theorem parts_of_null (hposition : position ∈ d.keyPositions)
    (h : e.Denotes scope.options (parts position) number)
    (hnull : (e.piece scope.options number).isNull = true) :
    (∀ key, ofParts scope.options d (parts d.partition) (d.sort.map parts) ≠ .ok key) ∧
      Session.ComparesWith scope (d.memberAt position).name (parts position) (.null true) := by
  have hpiece : e.piece scope.options number = .null true := by
    generalize e.piece scope.options number = written at hnull
    unfold AttributeValue.isNull at hnull
    split at hnull
    · rfl
    · cases hnull
  refine ⟨ofParts_eq_error hposition ((castComponent_of_denotes hmember h).2 hnull), ?_⟩
  rw [← hpiece]
  exact comparesWith_of_denotes hroot hname hmember h

/-- A number of no variant makes a key; it is refused by a comparison if it has 64 bits, and compared with
as it is otherwise. -/
theorem parts_of_undeclared (hposition : position ∈ d.keyPositions)
    (hothers : OthersCast scope.options d parts position)
    (hliteral : parts position = Value.ofInt number)
    (hundeclared : (e.name? number).isSome = false) :
    (∃ key, ofParts scope.options d (parts d.partition) (d.sort.map parts) = .ok key ∧
      key.valueAt d position = some (undeclaredNumber scope.options number)) ∧
    (IntType.int64.Holds number →
      Session.Refuses scope (d.memberAt position).name (parts position)) ∧
    (¬ IntType.int64.Holds number →
      Session.ComparesWith scope (d.memberAt position).name (parts position)
        (.number (toString number))) := by
  refine ⟨exists_ofParts hposition (hliteral ▸ castComponent_of_undeclared hmember hundeclared) hothers,
    fun hbounds => ?_, fun hbounds => ?_⟩
  · rw [hliteral, Value.ofInt_of_holds hbounds]
    obtain ⟨error, herror⟩ := Expr.shaped_int_of_undeclared hundeclared
    exact Session.refuses_of_shaped hroot hname (hmember ▸ herror)
  · rw [hliteral, Value.ofInt_of_not_holds hbounds]
    refine Session.comparesWith_of_shaped hroot hname ?_ fun present hsame => ?_
    · rw [hmember]
      rfl
    · cases present <;> simp_all [AttributeValue.same]

theorem takesAlike_of_denotes (hposition : position ∈ d.keyPositions)
    (hothers : OthersCast scope.options d parts position)
    (h : e.Denotes scope.options (parts position) number)
    (hkept : (e.piece scope.options number).isNull = false) :
    TakesAlike scope d e parts position := by
  obtain ⟨component, hpiece, hcast⟩ := (castComponent_of_denotes hmember h).1 hkept
  obtain ⟨key, hkey, hvalue⟩ := exists_ofParts hposition hcast hothers
  refine .inl ⟨key, component, number, hkey, hvalue, ?_, h.declared, hpiece⟩
  rw [hpiece]
  exact comparesWith_of_denotes hroot hname hmember h

/-- Numbers of no variant are not taken alike. -/
theorem not_takesAlike_of_undeclared (hposition : position ∈ d.keyPositions)
    (hothers : OthersCast scope.options d parts position)
    (hliteral : parts position = Value.ofInt number)
    (hundeclared : (e.name? number).isSome = false) :
    ¬ TakesAlike scope d e parts position := by
  obtain ⟨⟨key, hkey, -⟩, hrefuses, hcompares⟩ :=
    parts_of_undeclared hroot hname hmember hposition hothers hliteral hundeclared
  rintro (⟨_, component, other, -, -, hcomponent, hdeclared, hpiece⟩ | ⟨hnone, -⟩)
  · by_cases hbounds : IntType.int64.Holds number
    · exact hcomponent.not_refuses (hrefuses hbounds)
    · -- The digits would be those of another number, as this one belongs to no variant.
      have hdigits := hcomponent.unique (hcompares hbounds)
      obtain ⟨name, hvariant⟩ := Option.isSome_iff_exists.mp hdeclared
      rw [hpiece, EnumType.piece_of_declared hvariant] at hdigits
      cases hencoding : scope.options.enumEncoding with
      | name =>
        simp only [hencoding, textPiece] at hdigits
        split at hdigits <;> cases hdigits
      | number =>
        simp only [hencoding, AttributeValue.number.injEq] at hdigits
        obtain rfl := toString_int_injective hdigits
        rw [hundeclared] at hdeclared
        cases hdeclared
  · exact hnone key hkey

end

/-- **Which literals keys and conditions take alike.** Where a member of a document's key is an
enumeration and the other part of the key is cast, a text or an integer becomes in the key and in a
comparison what one variant is stored as, or is refused by both, unless it is a number of no variant or
stands for a variant that is stored as null. A number of no variant makes a key in any case, and is refused
by the comparison if it has 64 bits. A literal of a variant that is stored as null makes no key, and is
compared with null. -/
theorem takesAlike_iff {c : Codec} {id : DocumentId} {d : TableDescriptor} {scope : Scope}
    {position : Nat} {e : EnumType} {parts : Nat → Value} (hd : c.descriptor id = .ok d)
    (hscope : c.scope id = .ok scope) (hposition : position ∈ d.keyPositions)
    (hmember : Hint.ofType (some (d.memberAt position).type) = .variant e)
    (hmachine : ∀ variant ∈ e.variants, IntType.int64.Holds variant.2)
    (hliteral : (parts position).IsTextOrInteger)
    (hothers : OthersCast scope.options d parts position) :
    (TakesAlike scope d e parts position ↔
      (∀ i, parts position = Value.ofInt i → (e.name? i).isSome = true) ∧
        ∀ number, e.Denotes scope.options (parts position) number →
          (e.piece scope.options number).isNull = false) ∧
    (∀ i, parts position = Value.ofInt i → (e.name? i).isSome = false →
      (∃ key, ofParts scope.options d (parts d.partition) (d.sort.map parts) = .ok key ∧
        key.valueAt d position = some (undeclaredNumber scope.options i)) ∧
      (IntType.int64.Holds i → Session.Refuses scope (d.memberAt position).name (parts position)) ∧
      (¬ IntType.int64.Holds i →
        Session.ComparesWith scope (d.memberAt position).name (parts position)
          (.number (toString i)))) ∧
    ∀ number, e.Denotes scope.options (parts position) number →
      (e.piece scope.options number).isNull = true →
      (∀ key, ofParts scope.options d (parts d.partition) (d.sort.map parts) ≠ .ok key) ∧
        Session.ComparesWith scope (d.memberAt position).name (parts position) (.null true) := by
  obtain ⟨-, schema, hroot, hname⟩ := Codec.lookup?_of_descriptor hd hscope hposition
  have hundeclared : ∀ i, parts position = Value.ofInt i → (e.name? i).isSome = false → _ :=
    fun i => parts_of_undeclared hroot hname hmember hposition hothers
  have hnull : ∀ number, e.Denotes scope.options (parts position) number → _ → _ :=
    fun number => parts_of_null hroot hname hmember hposition
  refine ⟨⟨fun halike => ⟨fun i hi => ?_, fun number hdenotes => ?_⟩, ?_⟩, hundeclared, hnull⟩
  · by_contra hnone
    exact not_takesAlike_of_undeclared hroot hname hmember hposition hothers hi
      (Bool.eq_false_iff.mpr hnone) halike
  · by_contra hne
    obtain ⟨hrefused, hcompares⟩ := hnull number hdenotes (eq_true_of_ne_false hne)
    rcases halike with ⟨key, _, _, hkey, -⟩ | ⟨-, hrefuses⟩
    · exact hrefused key hkey
    · exact hcompares.not_refuses hrefuses
  · rintro ⟨hdeclared, hkept⟩
    have hdenotes : ∀ number, e.Denotes scope.options (parts position) number →
        TakesAlike scope d e parts position := fun number h =>
      takesAlike_of_denotes hroot hname hmember hposition hothers h (hkept number h)
    rcases hliteral with ⟨s, hs⟩ | ⟨i, hi⟩
    · cases hread : e.read scope.options (.text s) with
      | ok number => exact hdenotes number (hs ▸ .text hread)
      | error error =>
        refine .inr ⟨ofParts_eq_error hposition (hs ▸ castComponent_of_unread hmember hread), ?_⟩
        rw [hs]
        exact Session.refuses_of_shaped hroot hname
          (hmember ▸ Expr.shaped_text_of_unread hread)
    · obtain ⟨name, hvariant⟩ := Option.isSome_iff_exists.mp (hdeclared i hi)
      have hbounds := hmachine _ (EnumType.mem_of_name? hvariant)
      rw [Value.ofInt_of_holds hbounds] at hi
      exact hdenotes i (hi ▸ .number (hvariant ▸ rfl))

/-- The key of an account, whose partition is an enumeration. -/
def accountDescriptor : TableDescriptor := (sampleCodec.descriptor 13).toOption.getD default

theorem descriptor_account : sampleCodec.descriptor 13 = .ok accountDescriptor :=
  except_toOption_eq_some.mp (by decide)

theorem scope_account : sampleCodec.scope 13 =
    .ok ⟨sampleCodec.options, some accountDescriptor.schema, sampleCodec.schemas⟩ := by
  have hschema : (sampleCodec.documents 13).schema sampleCodec.typeName =
      .ok accountDescriptor.schema := except_toOption_eq_some.mp (by decide)
  rw [Codec.scope, hschema]
  rfl

/-- What an account's tier is known to be. -/
def accountTier : EnumType := ⟨"", (Sample.status "").variants⟩

/-- The parts of a key of an account. -/
def accountParts (tier : Value) : Nat → Value
  | 0 => tier
  | _ => .text "u"

theorem othersCast_account (tier : Value) :
    OthersCast sampleCodec.options accountDescriptor (accountParts tier) 0 := by
  intro other hother hne
  have hpositions : accountDescriptor.keyPositions = [0, 1] := by decide
  rw [hpositions] at hother
  have hsort : other = 1 := by simpa [hne] using hother
  subst hsort
  have hcast : castComponent sampleCodec.options (accountDescriptor.memberAt 1) (.text "u") =
      .ok (.text "u") := except_toOption_eq_some.mp (by decide)
  exact ⟨.text "u", hcast⟩

/-- The number of a variant is taken alike by a key and by a condition, and a number of no variant is
not. -/
theorem takesAlike_iff_account :
    TakesAlike ⟨sampleCodec.options, some accountDescriptor.schema, sampleCodec.schemas⟩
        accountDescriptor accountTier (accountParts (.int 2)) 0 ∧
      ¬ TakesAlike ⟨sampleCodec.options, some accountDescriptor.schema, sampleCodec.schemas⟩
        accountDescriptor accountTier (accountParts (.int 9)) 0 := by
  have hposition : 0 ∈ accountDescriptor.keyPositions := by decide
  have hmember : Hint.ofType (some (accountDescriptor.memberAt 0).type) = .variant accountTier := by
    decide
  have hmachine : ∀ variant ∈ accountTier.variants, IntType.int64.Holds variant.2 := by decide
  constructor
  · refine (takesAlike_iff descriptor_account scope_account hposition hmember hmachine
      (.inr ⟨2, rfl⟩) (othersCast_account _)).1.mpr ⟨fun i hi => ?_, fun number hdenotes => ?_⟩
    · have hbounds : IntType.int64.Holds i := by
        by_contra hbounds
        rw [Value.ofInt_of_not_holds hbounds] at hi
        cases hi
      rw [Value.ofInt_of_holds hbounds] at hi
      cases hi
      decide
    · cases hdenotes
      decide
  · intro halike
    have hdeclared := ((takesAlike_iff descriptor_account scope_account hposition hmember hmachine
      (.inr ⟨9, rfl⟩) (othersCast_account _)).1.mp halike).1 9 rfl
    exact absurd hdeclared (by decide)

end PrimaryKey

end ItemMapper
