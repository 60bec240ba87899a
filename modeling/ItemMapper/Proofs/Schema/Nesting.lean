import ItemMapper.Mapper
import ItemMapper.Proofs.Expression.VariantLiterals
import ItemMapper.Proofs.Schema.Lookup

/-!
# Members of nested documents

What is known of a member in the document of an expression, or in one that this holds at any depth. A
document without faults finds its members by their names, and the schemas along an expression are those of
the documents that it leads to.

## Main definitions

* `Codec.Finds`: a member that a document has under a name.
* `Codec.Nests`: an expression that leads to a document, or to elements that are documents.

## Main statements

* `Codec.finds_name`: members are found under their declared names.
* `Codec.schemaOf?_of_nests`: the schema of the document that an expression leads to.
* `Codec.hint_of_finds`: the hint of a member that is an enumeration.
-/

namespace ItemMapper

theorem Ty.kind_of_enumType? {type : Ty} {e : EnumType} (h : type.enumType? = some e) :
    type.kind = .enumeration := by
  induction type with
  | enumeration _ => rfl
  | option inner ih | boxed inner ih => exact ih h
  | _ => cases h

namespace Codec

variable {c : Codec} {id owner : DocumentId} {scope : Scope} {holder : Expr} {name : String} {f : Field}
  {schema : Schema}

/-- A document has no faults, and under the name, declared or stored, its schema finds the member. -/
def Finds (c : Codec) (owner : DocumentId) (name : String) (f : Field) : Prop :=
  ∃ schema i, (c.documents owner).schema c.typeName = .ok schema ∧
    (c.documents owner).fields[i]? = some f ∧
    schema.lookup? name c.options = some (i, f.member c.typeName)

/-- An expression that leads from a document, through members that are, hold or list documents and through
the elements of lists, to a document or to elements that are documents. -/
inductive Nests (c : Codec) (id : DocumentId) : Expr → DocumentId → Prop
  | item : Nests c id .item id
  | member {holder : Expr} {owner inner : DocumentId} {name : String} {f : Field}
      (h : Nests c id holder owner) (hf : c.Finds owner name f)
      (hinner : f.type.document? = some inner) : Nests c id (.member holder name) inner
  | element {holder : Expr} {owner : DocumentId} (h : Nests c id holder owner) (position : Int) :
      Nests c id (.index holder (.constant (.int position))) owner

/-- A member of a document without faults is found under its declared name. -/
theorem finds_name (hschema : (c.documents owner).schema c.typeName = .ok schema)
    (hf : f ∈ (c.documents owner).fields) : c.Finds owner f.name f := by
  obtain ⟨i, hi⟩ := List.mem_iff_getElem?.mp hf
  have hmember : schema.members[i]? = some (f.member c.typeName) := by
    obtain ⟨_, -, heq⟩ := except_bind_eq_ok.mp hschema
    cases heq
    exact (List.getElem?_map ..).trans (congrArg (Option.map _) hi)
  exact ⟨schema, i, hschema, hi, Document.lookup?_of_schema hschema hmember c.options⟩

section
variable (hscope : c.scope id = .ok scope)
include hscope

theorem scope_eq : scope.options = c.options ∧ scope.schemas = c.schemas ∧
    ∃ schema, (c.documents id).schema c.typeName = .ok schema ∧ scope.root = some schema := by
  obtain ⟨schema, hschema, heq⟩ := except_bind_eq_ok.mp hscope
  cases heq
  exact ⟨rfl, rfl, schema, hschema, rfl⟩

/-- The type of a member that an expression finds is known. -/
theorem typeNamed?_of_finds (hf : c.Finds owner name f)
    (hholder : ∀ schema, (c.documents owner).schema c.typeName = .ok schema →
      holder.schemaOf? scope = some schema) :
    Expr.typeNamed? scope (holder.schemaOf? scope) name = some (f.type.info c.typeName) := by
  obtain ⟨schema, i, hschema, -, hlookup⟩ := hf
  rw [hholder schema hschema, Expr.typeNamed?, Option.bind_some, (scope_eq hscope).1, hlookup]
  rfl

/-- The schema of the document that an expression leads to is known. -/
theorem schemaOf?_of_nests (h : c.Nests id holder owner)
    (hschema : (c.documents owner).schema c.typeName = .ok schema) :
    holder.schemaOf? scope = some schema := by
  induction h generalizing schema with
  | item =>
    obtain ⟨-, -, root, hroot, heq⟩ := scope_eq hscope
    cases hroot.symm.trans hschema
    exact heq
  | member _ hf hinner ih =>
    rw [Expr.schemaOf?, typeNamed?_of_finds hscope hf fun _ => ih, Option.bind_some]
    change Option.bind (Ty.document? _) scope.schemas = _
    rw [hinner, (scope_eq hscope).2.1, Option.bind_some, schemas, hschema]
    rfl
  | element _ _ ih => exact ih hschema

/-- **The hint that a member gives which is an enumeration.** -/
theorem hint_of_finds {e : EnumType} (hholder : c.Nests id holder owner) (hf : c.Finds owner name f)
    (htype : f.type.enumType? = some e) :
    Expr.hint scope (.member holder name) = .variant ⟨c.typeName f.type, e.variants⟩ := by
  have hknown : (Expr.member holder name).typeOf? scope = some (f.type.info c.typeName) :=
    typeNamed?_of_finds hscope hf fun _ => schemaOf?_of_nests hscope hholder
  change Hint.ofType ((Expr.member holder name).typeOf? scope) = _
  rw [hknown, Hint.ofType_eq_variant]
  exact ⟨Ty.kind_of_enumType? htype, rfl, congrArg (Option.map EnumType.variants) htype⟩

end

end Codec

end ItemMapper
