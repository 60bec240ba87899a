import ItemMapper.Schema.Basic

/-!
# Declaring documents

A document is declared member by member, each with a list of modifiers. Faults of a declaration are
kept and reported when the schema is asked for: a name for an index where the member has no part in
one, and a member that is declared twice.

## Main definitions

* `WriteHook`, `ReadHook`: what the application does to stored values.
* `Field`, `Document`: a declared member with its type, and a declared document.
* `Document.declare`: the document of a list of declarations.
* `Document.schema`: the schema of a document, or its faults.
-/

namespace ItemMapper

mutual
/-- How many values an attribute value consists of. -/
def AttributeValue.size : AttributeValue → Nat
  | .list items => 1 + AttributeValue.sizeItems items
  | .map fields => 1 + AttributeValue.sizeFields fields
  | .textSet members | .numberSet members => 1 + members.length
  | .binarySet members => 1 + members.length
  | _ => 1

/-- How many values a list consists of. -/
def AttributeValue.sizeItems : List AttributeValue → Nat
  | [] => 0
  | item :: rest => item.size + AttributeValue.sizeItems rest

/-- How many values the fields of a map consist of. -/
def AttributeValue.sizeFields : List (String × AttributeValue) → Nat
  | [] => 0
  | (_, value) :: rest => value.size + AttributeValue.sizeFields rest
end

/-- What is done to a value after it has been encoded. -/
abbrev WriteHook := AttributeValue → Except Error AttributeValue

/-- What is done to a stored value before it is decoded. It may not make the value larger, so that
decoding a document that contains itself comes to an end. -/
structure ReadHook where
  run : AttributeValue → Except Error AttributeValue
  size_le : ∀ v w, run v = .ok w → w.size ≤ v.size

/-- Runs hooks one after the other. -/
def runWriteHooks : List WriteHook → AttributeValue → Except Error AttributeValue
  | [], value => .ok value
  | hook :: rest, value => hook value >>= runWriteHooks rest

/-- Runs hooks one after the other. -/
def runReadHooks : List ReadHook → AttributeValue → Except Error AttributeValue
  | [], value => .ok value
  | hook :: rest, value => hook.run value >>= runReadHooks rest

theorem runReadHooks_size_le {hooks : List ReadHook} {v w : AttributeValue}
    (h : runReadHooks hooks v = .ok w) : w.size ≤ v.size := by
  induction hooks generalizing v with
  | nil => cases h; exact Nat.le_refl _
  | cons hook rest ih =>
    match hv : hook.run v with
    | .error e => simp [runReadHooks, hv, bind, Except.bind] at h
    | .ok u =>
      simp only [runReadHooks, hv, bind, Except.bind] at h
      exact Nat.le_trans (ih h) (hook.size_le v u hv)

/-- A declared member: what its schema says, its type, what it holds where nothing is stored, and
its hooks. -/
structure Field where
  name : String
  type : Ty
  initial : Datum
  rename : Option String
  roles : List KeyRole
  version : Bool
  persistNull : Option Bool
  persistDefault : Option Bool
  onWrite : List WriteHook
  onRead : List ReadHook

instance : Inhabited Field := ⟨⟨"", default, default, none, [], false, none, none, [], []⟩⟩

/-- A modifier of a declaration. -/
inductive Modifier where
  | rename (name : String)
  | role (kind : IndexKind) (part : KeyPart) (ordinal : Nat)
  /-- A name for the index of the latest role in an index. -/
  | indexName (name : String)
  | version
  | persistNull (persist : Bool)
  | persistDefault (persist : Bool)
  | onWrite (hook : WriteHook)
  | onRead (hook : ReadHook)

/-- Names the index of the latest role that is not one in the table's own key. -/
def nameLatestIndex? (name : String) (roles : List KeyRole) : Option (List KeyRole) :=
  let reversed := roles.reverse
  match reversed.findIdx? (·.kind != .primary) with
  | some i => some (reversed.modify i fun role => { role with indexName := some name }).reverse
  | none => none

/-- The declaration after one more modifier, and the faults so far. -/
def Field.modify (state : Field × List String) (modifier : Modifier) : Field × List String :=
  let (f, faults) := state
  match modifier with
  | .rename name => ({ f with rename := some name }, faults)
  | .role kind part ordinal => ({ f with roles := f.roles ++ [⟨kind, part, ordinal, none⟩] }, faults)
  | .indexName name =>
    match nameLatestIndex? name f.roles with
    | some roles => ({ f with roles := roles }, faults)
    | none => (f, faults ++ [s!"index name '{name}' on '{f.name}' has no secondary index role"])
  | .version => ({ f with version := true }, faults)
  | .persistNull persist => ({ f with persistNull := some persist }, faults)
  | .persistDefault persist => ({ f with persistDefault := some persist }, faults)
  | .onWrite hook => ({ f with onWrite := f.onWrite ++ [hook] }, faults)
  | .onRead hook => ({ f with onRead := f.onRead ++ [hook] }, faults)

/-- A member as it is declared. -/
structure Declaration where
  name : String
  type : Ty
  initial : Datum
  modifiers : List Modifier

/-- The member of a declaration, and its faults. -/
def Declaration.field (d : Declaration) : Field × List String :=
  d.modifiers.foldl Field.modify
    (⟨d.name, d.type, d.initial, none, [], false, none, none, [], []⟩, [])

/-- A declared document. -/
structure Document where
  typeName : String
  fields : List Field
  /-- The faults that the modifiers of the members have. -/
  faults : List String

instance : Inhabited Document := ⟨⟨"", [], []⟩⟩

namespace Document

/-- The document of a list of declarations. -/
def declare (typeName : String) (declarations : List Declaration) : Document :=
  let declared := declarations.map Declaration.field
  ⟨typeName, declared.map (·.1), declared.flatMap (·.2)⟩

/-- The names that come again after the names in `seen` or after themselves. -/
def repeated (seen : List String) : List String → List String
  | [] => []
  | name :: rest =>
    if seen.contains name then name :: repeated seen rest else repeated (name :: seen) rest

/-- All faults of the declaration. -/
def allFaults (d : Document) : List String :=
  d.faults ++ (repeated [] (d.fields.map (·.name))).map fun name =>
    s!"member '{name}' declared twice"

/-- Asks that the declaration has no faults. -/
def check (d : Document) : Except Error Unit :=
  if d.allFaults.isEmpty then .ok ()
  else .error (Cause.invalidMetadata d.typeName ("; ".intercalate d.allFaults))

end Document

/-- Facts about a type. -/
def Ty.info (typeName : Ty → String) (type : Ty) : TypeInfo :=
  ⟨typeName type, type.kind, type.enumType?.map (·.variants), type.document?⟩

/-- What the schema says about a declared member. -/
def Field.member (typeName : Ty → String) (f : Field) : Member :=
  ⟨f.name, f.rename, f.roles, f.version, f.persistNull, f.persistDefault, f.type.info typeName⟩

/-- The schema of a document, or its faults. -/
def Document.schema (typeName : Ty → String) (d : Document) : Except Error Schema := do
  d.check
  pure ⟨d.typeName, d.fields.map (Field.member typeName)⟩

end ItemMapper
