import Mathlib.Data.List.Basic
import ItemMapper.Proofs.Codec.Vanishing

/-!
# What members hold at first

A member for which nothing is stored is read as the default of its type. Written again it is left
out as before, or is stored as nothing as before: the default counts as null where the value that was
left out does, and as a default where that does.

## Main definitions

* `Datum.CountsAs`: values that count as null, and otherwise as defaults, alike.

## Main statements

* `Codec.initial_countsAs`: the default of a type counts as the nulls and defaults of the type.
* `Codec.exists_initial_piece`: the default of a type is stored as nothing where some value is.
-/

namespace ItemMapper

/-- The values count as null alike and, where they do not, as defaults alike. -/
def Datum.CountsAs (x y : Datum) : Prop :=
  x.isNull = y.isNull ∧ (y.isNull = false → x.isDefault = y.isDefault)

/-- Whether values of the type are documents, perhaps behind pointers. -/
def Ty.isDocument : Ty → Bool
  | .document _ => true
  | .boxed inner => inner.isDocument
  | _ => false

theorem Scalar.initial_countsAs (type : Scalar) :
    type.initial.isNull = false ∧ type.initial.isDefault = true := by
  cases type with
  | textual type => cases type <;> exact ⟨rfl, rfl⟩
  | _ => exact ⟨rfl, rfl⟩

namespace Codec

variable {c : Codec} {family : DocumentId → Prop} {type : Ty} {value initial : Datum}
  {piece : AttributeValue}

/-- Whether a member is written depends only on what its value counts as. -/
theorem keepsMember_of_countsAs {x y : Datum} (h : x.CountsAs y) (f : Field) :
    c.keepsMember f x = c.keepsMember f y := by
  rw [keepsMember, keepsMember, h.1]
  cases hnull : y.isNull with
  | true => rfl
  | false => rw [h.2 hnull]

/-- A value of the sort that is left out, or that stands for itself when it is left out. -/
def LeftOutAlike (type : Ty) (value : Datum) : Prop :=
  value.isNull = true ∨ value.isDefault = true ∨ type.isDocument = true

/-- The default of a type counts as each null and each default of the type, and as each document. -/
theorem initial_countsAs (hvalue : c.HasType type value) (hinitial : c.IsInitial type initial)
    (h : LeftOutAlike type value) : initial.CountsAs value := by
  induction hvalue generalizing initial with
  | @scalar type value holds =>
    cases hinitial
    rcases h with hnull | hdefault | hdocument
    · rw [holds.isNull_eq_false] at hnull
      cases hnull
    · obtain ⟨hnull, hinitial⟩ := type.initial_countsAs
      exact ⟨hnull.trans holds.isNull_eq_false.symm, fun _ => hinitial.trans hdefault.symm⟩
    · cases hdocument
  | enumeration known =>
    obtain ⟨number, rfl, hzero⟩ := hinitial
    rcases h with hnull | hdefault | hdocument
    · cases hnull
    · cases eq_of_beq hdefault
      exact ⟨rfl, fun _ => beq_iff_eq.mpr (hzero known)⟩
    · cases hdocument
  | absent inner =>
    cases hinitial
    exact ⟨rfl, fun _ => rfl⟩
  | present held ih =>
    cases hinitial
    rcases h with hnull | hdefault | hdocument
    · refine ⟨hnull.symm, fun hne => ?_⟩
      rw [hnull] at hne
      cases hne
    · cases hdefault
    · cases hdocument
  | boxed held ih =>
    obtain ⟨pointee, rfl, hpointee⟩ := hinitial
    have hcounts := ih hpointee h
    exact hcounts
  | list held ih =>
    cases hinitial
    rcases h with hnull | hdefault | hdocument
    · cases hnull
    · exact ⟨rfl, fun _ => hdefault.symm⟩
    · cases hdocument
  | set hashed held ascending ih =>
    cases hinitial
    rcases h with hnull | hdefault | hdocument
    · cases hnull
    · exact ⟨rfl, fun _ => hdefault.symm⟩
    · cases hdocument
  | map hashed held ascending ih =>
    cases hinitial
    rcases h with hnull | hdefault | hdocument
    · cases hnull
    · exact ⟨rfl, fun _ => hdefault.symm⟩
    · cases hdocument
  | document length held ih =>
    cases hinitial
    exact ⟨rfl, fun _ => rfl⟩
  | oneOf known length held ih =>
    rcases h with hnull | hdefault | hdocument
    · cases hnull
    · cases hdefault
    · cases hdocument

/-- A member that is not written holds a null or a default. -/
theorem leftOutAlike_of_not_kept {f : Field} (h : c.keepsMember f value = false) :
    LeftOutAlike f.type value := by
  cases hnull : value.isNull with
  | true => exact .inl hnull
  | false =>
    cases hdefault : value.isDefault with
    | true => exact .inr (.inl hdefault)
    | false =>
      rw [keepsMember, hnull, hdefault] at h
      cases h

/-- Where a member is not written, its default would not be, either. -/
theorem keepsMember_initial {f : Field} (hvalue : c.HasType f.type value)
    (hinitial : c.IsInitial f.type f.initial) (h : c.keepsMember f value = false) :
    c.keepsMember f f.initial = false :=
  (keepsMember_of_countsAs (initial_countsAs hvalue hinitial (leftOutAlike_of_not_kept h)) f).trans h

theorem exists_mem_zip {α β : Type} {xs : List α} {ys : List β} (hlength : xs.length = ys.length)
    {x : α} (hx : x ∈ xs) : ∃ y, (x, y) ∈ xs.zip ys := by
  rw [← List.map_fst_zip (Nat.le_of_eq hlength)] at hx
  obtain ⟨⟨x, y⟩, hmem, rfl⟩ := List.mem_map.mp hx
  exact ⟨y, hmem⟩

/-- If nothing is stored of a member, nothing is of its default. -/
theorem leavesNothing_initial {f : Field} (hvalue : c.HasType f.type value)
    (hinitial : c.IsInitial f.type f.initial)
    (hwritten : c.keepsMember f value = true → ∃ piece, c.piece? false f.type value = some piece)
    (hnothing : c.LeavesNothing f value)
    (ih : ∀ piece, c.piece? false f.type value = some piece → piece.isVoid = true →
      ∃ piece, c.piece? false f.type f.initial = some piece ∧ piece.isVoid = true) :
    (c.keepsMember f f.initial = true → ∃ piece, c.piece? false f.type f.initial = some piece) ∧
      c.LeavesNothing f f.initial := by
  cases hkept : c.keepsMember f value with
  | false =>
    have hdropped := keepsMember_initial hvalue hinitial hkept
    exact ⟨fun hkept => absurd hkept (Bool.eq_false_iff.mp hdropped), .of_not_kept hdropped⟩
  | true =>
    obtain ⟨piece, hpiece⟩ := hwritten hkept
    obtain ⟨piece', hpiece', hvoid'⟩ := ih piece hpiece
      (hnothing piece (stored?_eq_some.mpr ⟨hkept, hpiece⟩))
    exact ⟨fun _ => ⟨piece', hpiece'⟩, .of_piece hpiece' hvoid'⟩

/-- A document of whose members nothing is stored, nor of their defaults, is stored as its default. -/
theorem exists_initial_object {fields : List Field} {members : List Datum}
    (hnames : (fields.map c.storedName).Nodup) (hlength : fields.length = members.length)
    {pieces : List (Field × AttributeValue)} (hpieces : c.memberPieces? fields members = some pieces)
    (hnothing : ∀ member ∈ fields.zip members, c.LeavesNothing member.1 member.2)
    (hinitial : ∀ f ∈ fields,
      (c.keepsMember f f.initial = true → ∃ piece, c.piece? false f.type f.initial = some piece) ∧
        c.LeavesNothing f f.initial) :
    ∃ pieces', c.memberPieces? fields (fields.map (·.initial)) = some pieces' ∧
      c.objectPiece none pieces' = c.objectPiece none pieces := by
  have hzip : fields.map (fun f => (f, f.initial)) = fields.zip (fields.map (·.initial)) :=
    List.map_prod_left_eq_zip (f := Field.initial)
  obtain ⟨pieces', hpieces'⟩ :
      ∃ pieces', c.memberPieces? fields (fields.map (·.initial)) = some pieces' := by
    refine exists_memberPieces fun member hmember hkept => ?_
    rw [← hzip] at hmember
    obtain ⟨f, hf, rfl⟩ := List.mem_map.mp hmember
    exact (hinitial f hf).1 hkept
  refine ⟨pieces', hpieces', ?_⟩
  refine objectPiece_congr hnames leavesFree_none hpieces' hpieces fun f hf => ?_
  obtain ⟨value, hmember⟩ := exists_mem_zip hlength hf
  refine ⟨f.initial, value, ?_, hmember, ?_⟩
  · rw [← hzip]
    exact List.mem_map_of_mem hf
  · rw [(hnothing _ hmember).filter_inner, (hinitial f hf).2.filter_inner]

/-- The default of a type is stored as nothing where some value of the type is, and as the same
nothing where that value is a null, a default or a document. -/
theorem exists_initial_piece (h : c.Restorable family) (htype : c.KeepsStored family type)
    (hvalue : c.HasType type value) (hinitial : c.IsInitial type initial) {inArray : Bool}
    (hpiece : c.piece? inArray type value = some piece) (hvoid : piece.isVoid = true) :
    ∃ piece', c.piece? inArray type initial = some piece' ∧ piece'.isVoid = true ∧
      (LeftOutAlike type value → piece' = piece) := by
  induction hvalue generalizing initial inArray piece with
  | @scalar type value holds =>
    cases hinitial
    rw [piece?] at hpiece ⊢
    rw [← Scalar.eq_initial_of_isVoid hpiece hvoid]
    exact ⟨piece, hpiece, hvoid, fun _ => rfl⟩
  | enumeration known =>
    cases hpiece
    rw [(EnumType.KeepsStored.piece htype known).1] at hvoid
    cases hvoid
  | absent inner =>
    cases hinitial
    exact ⟨piece, hpiece, hvoid, fun _ => rfl⟩
  | present held ih =>
    cases hinitial
    refine ⟨.null true, rfl, rfl, ?_⟩
    rintro (hnull | hdefault | hdocument)
    · rw [piece?_of_isNull (.present held) hnull] at hpiece
      exact Option.some.inj hpiece
    · cases hdefault
    · cases hdocument
  | boxed held ih =>
    obtain ⟨pointee, rfl, hpointee⟩ := hinitial
    exact ih htype hpointee hpiece hvoid
  | @list inner items held ih =>
    cases hinitial
    refine ⟨.list [], rfl, rfl, ?_⟩
    rintro (hnull | hdefault | hdocument)
    · cases hnull
    · cases List.isEmpty_iff.mp hdefault
      cases hpiece
      rfl
    · cases hdocument
  | @set hashed inner items held ascending ih =>
    cases hinitial
    have hempty : c.piece? inArray (.set hashed inner) (.list []) = some (.list []) := by
      cases inArray <;> rfl
    refine ⟨.list [], hempty, rfl, ?_⟩
    rintro (hnull | hdefault | hdocument)
    · cases hnull
    · cases List.isEmpty_iff.mp hdefault
      rw [hempty] at hpiece
      exact Option.some.inj hpiece
    · cases hdocument
  | @map hashed inner entries held ascending ih =>
    cases hinitial
    refine ⟨.map [], rfl, rfl, ?_⟩
    rintro (hnull | hdefault | hdocument)
    · cases hnull
    · cases List.isEmpty_iff.mp hdefault
      cases hpiece
      rfl
    · cases hdocument
  | @document id members length held ih =>
    cases hinitial
    rw [piece?] at hpiece
    obtain ⟨u, hcheck, hpiece⟩ := Option.bind_eq_some_iff.mp hpiece
    obtain ⟨pieces, hpieces, rfl⟩ := Option.map_eq_some_iff.mp hpiece
    have hnothing : ∀ member ∈ (c.documents id).fields.zip members,
        c.LeavesNothing member.1 member.2 :=
      fun _ hmember => leavesNothing_of_isVoid (h.names id htype) hpieces hvoid hmember
    obtain ⟨pieces', hpieces', heq⟩ := exists_initial_object (h.names id htype) length hpieces
      hnothing fun f hf => by
        obtain ⟨value, hmember⟩ := exists_mem_zip length hf
        refine leavesNothing_initial (held _ hmember) (h.initial id htype f hf)
          (exists_piece_of_kept hpieces hmember) (hnothing _ hmember) fun piece hpiece hvoid => ?_
        obtain ⟨piece', hpiece', hvoid', -⟩ := ih _ hmember (h.types id htype f hf)
          (h.initial id htype f hf) hpiece hvoid
        exact ⟨piece', hpiece', hvoid'⟩
    refine ⟨c.objectPiece none pieces, ?_, hvoid, fun _ => rfl⟩
    rw [piece?, hcheck, initialMembers, hpieces', ← heq]
    rfl
  | oneOf known length held ih =>
    rw [oneOf_isVoid h htype known hpiece] at hvoid
    cases hvoid

end Codec

end ItemMapper
