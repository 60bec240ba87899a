import ItemMapper.Codec.Basic
import ItemMapper.Table.Descriptor
import ItemMapper.Wire.Value

/-!
# Schemas as JSON

A schema may be read from a tree, without a declaration behind it. The schemas of the documents that
its members hold stand inside it; reading numbers them in the order in which they end. Schemas and
table descriptors are also written, for inspection.

## Main definitions

* `Schema.ofJson?`: the schema of a tree, with those inside it.
* `Codec.schemaToJson`: the schema of a declared document.
* `TableDescriptor.toJson`: the keys and indexes of a table.
-/

namespace ItemMapper

/-- The words for the kinds of keys. -/
def IndexKind.words : List (String × IndexKind) :=
  [("primary", primary), ("local", localIndex), ("global", globalIndex)]

/-- The word for a kind of keys. -/
def IndexKind.name : IndexKind → String
  | primary => "primary"
  | localIndex => "local"
  | globalIndex => "global"

/-- The words for the halves of a key. -/
def KeyPart.words : List (String × KeyPart) := [("partition", partition), ("sort", sort)]

/-- The word for a half of a key. -/
def KeyPart.name : KeyPart → String
  | partition => "partition"
  | sort => "sort"

/-- The kinds. -/
def Kind.all : List Kind :=
  [null, bool, text, number, binary, enumeration, list, set, map, document, dynamic]

/-- The kind of a name. -/
def Kind.ofName? (name : String) : Option Kind := all.find? (·.name == name)

namespace KeyRole

/-- The tree of a role. -/
def toJson (role : KeyRole) : Json :=
  .ofItems
    [.string role.kind.name, .string role.part.name, .ofNat role.ordinal,
     .ofOption .string role.indexName]

/-- The role of a tree, which may leave out the name of the index. -/
def ofJson? : Json → Option KeyRole
  | .array (.string kind :: .string part :: ordinal :: rest) _ => do
    let kind ← IndexKind.words.lookup kind
    let part ← KeyPart.words.lookup part
    let ordinal ← ordinal.nat?
    pure ⟨kind, part, ordinal, rest.head?.bind Json.text?⟩
  | _ => none

end KeyRole

/-- The member of a tree, apart from the document that it holds. -/
def Member.ofJson? (j : Json) (document : Option DocumentId) : Option Member := do
  let name ← j.textField? "name"
  let kind ← (j.textField? "kind").bind Kind.ofName?
  let roles ← (← j.itemsField? "roles").mapM KeyRole.ofJson?
  let variants ← match j.field? "enum" with
    | some (.array items closed) => (EnumType.variantsOfJson? (.array items closed)).map some
    | _ => some none
  pure
    { name := name
      rename := j.textField? "rename"
      roles := roles
      version := ((j.field? "version").bind Json.truth?).getD false
      persistNull := none
      persistDefault := none
      type := ⟨(j.textField? "type").getD "T", kind, variants, document⟩ }

namespace Schema

mutual
/-- The schema of a tree, and the schemas inside it after those that are known. -/
def ofJson? (known : List Schema) : Json → Option (Schema × List Schema)
  | .object fields ending => do
    let typeName ← (Json.object fields ending).textField? "type"
    let (members, known) ← membersField? known fields
    pure (⟨typeName, members⟩, known)
  | _ => none

/-- The members of an object that is the tree of a schema. -/
def membersField? (known : List Schema) :
    List (String × Json) → Option (List Member × List Schema)
  | [] => some ([], known)
  | (name, value) :: rest =>
    match name, value with
    | "members", .array items _ => membersOf? known items
    | _, _ => membersField? known rest

/-- The members of trees. -/
def membersOf? (known : List Schema) : List Json → Option (List Member × List Schema)
  | [] => some ([], known)
  | .object fields ending :: rest => do
    let (document, known) ← documentField? known fields
    let member ← Member.ofJson? (.object fields ending) document
    let (others, known) ← membersOf? known rest
    pure (member :: others, known)
  | _ => none

/-- The document that a member holds whose tree is an object. -/
def documentField? (known : List Schema) :
    List (String × Json) → Option (Option DocumentId × List Schema)
  | [] => some (none, known)
  | (name, value) :: rest =>
    match name, value with
    | "schema", .object fields ending => do
      let (schema, known) ← ofJson? known (.object fields ending)
      pure (some known.length, known ++ [schema])
    | _, _ => documentField? known rest
end

end Schema

/-- The tree of a declared member under the options of a codec. -/
def Codec.memberToJson (c : Codec) (f : Field) (m : Member) : Json :=
  let document := m.type.document.bind c.schemas
  .ofMembers
    [("name", .string m.name), ("attribute", .string m.attributeName),
     ("resolved", .string (m.storedName c.options)), ("renamed", .bool m.rename.isSome),
     ("is_key", .bool m.isKey), ("persist_null", .ofOption .bool m.persistNull),
     ("persist_default", .ofOption .bool m.persistDefault),
     ("hooks", .ofItems [.ofNat f.onWrite.length, .ofNat f.onRead.length]),
     ("kind", .string m.type.kind.name), ("type", .string m.type.name),
     ("enum", .ofOption EnumType.variantsToJson m.type.variants),
     ("schema", .ofOption .string (document.map (·.typeName))), ("version", .bool m.version),
     ("default_kept", .bool (c.keepsDefault m.type)),
     ("roles", .ofItems (m.roles.map KeyRole.toJson))]

/-- The tree of the schema of a declared document. -/
def Codec.schemaToJson (c : Codec) (id : DocumentId) : Except Error Json := do
  let schema ← (c.documents id).schema c.typeName
  let members := ((c.documents id).fields.zip schema.members).map fun (f, m) => c.memberToJson f m
  pure (.ofMembers [("type", .string schema.typeName), ("members", .ofItems members)])

namespace TableDescriptor

/-- The tree of the name of the member at a position. -/
def nameToJson (d : TableDescriptor) (position : Nat) : Json := .string (d.memberAt position).name

/-- The tree of the member at a position, if there is one. -/
def placeToJson (d : TableDescriptor) (position : Option Nat) : Json :=
  .ofItems [.ofOption .ofNat position, .ofOption d.nameToJson position]

/-- The trees of the local indexes with the given ordinals. -/
def localsToJson (d : TableDescriptor) (ordinals : List Nat) : List Json :=
  ordinals.filterMap fun o => (d.localSort? o).map fun i =>
    .ofItems [.ofNat o, d.nameToJson i, .ofOption .string (d.localIndexName? o)]

/-- The trees of the global indexes with the given ordinals. -/
def globalsToJson (d : TableDescriptor) (ordinals : List Nat) : List Json :=
  ordinals.filterMap fun o => (d.globalPartition? o).map fun i =>
    .ofItems
      [.ofNat o, d.nameToJson i, .ofOption d.nameToJson (d.globalSort? o),
       .ofOption .string (d.globalIndexName? o)]

/-- The tree of the keys and indexes of a table. -/
def toJson (d : TableDescriptor) : Json :=
  let ordinals := List.range 256
  .ofMembers
    [("type", .string d.schema.typeName), ("partition", d.placeToJson (some d.partition)),
     ("sort", d.placeToJson d.sort), ("version", .ofOption d.nameToJson d.version),
     ("local", .ofItems (d.localsToJson ordinals)), ("global", .ofItems (d.globalsToJson ordinals))]

end TableDescriptor

end ItemMapper
