import ItemMapper.Codec.Decoding
import ItemMapper.Sample.Hooks

/-!
# Sample documents

The documents of an application: customers with their addresses, events, accounts and orders with keys
and indexes of all sorts, documents that contain themselves or one of several others, and a few whose
declarations are faulty. They give examples for every part of the library.

## Main definitions

* `Sample.status`, `Sample.tricky`, `Sample.nozero`: enumerations.
* `Sample.shape`: one of several documents.
* `Sample.documents`: the catalogue of documents.
-/

namespace ItemMapper.Sample

/-- The enumerations and documents are called by their short names after the application's `home`. -/
abbrev Home := String

/-- The states of an order. -/
def status (home : Home) : EnumType :=
  ⟨home ++ "Status", [("Pending", 0), ("InReview", 1), ("Active", 2)]⟩

/-- An enumeration whose names differ only in case. -/
def tricky (home : Home) : EnumType :=
  ⟨home ++ "Tricky",
    [("HTTPError", -1), ("httperror", 7), ("snake_like", 3), ("V2Beta", 9223372036854775807)]⟩

/-- An enumeration without the number zero. -/
def nozero (home : Home) : EnumType := ⟨home ++ "NoZero", [("One", 1), ("Two", 2)]⟩

/-- The names of the documents, as requests and as messages call them. The number of a document is its
place here. -/
def names : List (String × String) :=
  [("record", "Record"), ("everything", "Everything"), ("address", "Address"),
   ("customer", "Customer"), ("policy", "Policy"), ("inner", "Inner"), ("audited", "Audited"),
   ("circle", "Circle"), ("square", "Square"), ("drawing", "Drawing"), ("tree", "Tree"),
   ("event", "Event"), ("blob", "Blob"), ("account", "Account"), ("reading", "Reading"),
   ("chunk", "Chunk"), ("coded", "Coded"), ("hookkey", "HookKey"), ("flagkey", "FlagKey"),
   ("dynkey", "DynKey"), ("nokey", "NoKey"), ("sortonly", "SortOnly"),
   ("broken_name", "BrokenName"), ("twice", "Twice"), ("empty", "EmptyDoc"), ("order", "Order")]

/-- The number of the document that a request names. -/
def number? (name : String) : Option DocumentId := names.findIdx? (·.1 == name)

/-- How messages call the document with a number. -/
def typeNameOf (home : Home) (id : DocumentId) : String := home ++ (names.getD id ("", "")).2

/-- A circle or a square. -/
def shape : Ty := .oneOf "Shape" [("Circle", 7), ("Square", 8)]

/-- The texts. -/
def text : Ty := .scalar .text

/-- The truth values. -/
def truth : Ty := .scalar .bool

/-- The integers of a type. -/
def int (type : IntType) : Ty := .scalar (.int type)

/-- The floating-point numbers. -/
def float : Ty := .scalar (.float .double)

/-- The byte strings. -/
def bytes : Ty := .scalar .binary

/-- The moments. -/
def moment : Ty := .scalar (.textual .instant)

/-- What a member holds at first whose type is no document: nothing, zero, or the first variant. -/
def initialOf : Ty → Datum
  | .scalar type => type.initial
  | .enumeration type => .enumeration ((type.variants.head?.map (·.2)).getD 0)
  | .boxed inner => .boxed (initialOf inner)
  | .list _ | .set _ _ => .list []
  | .map _ _ => .map []
  | .dynamic => .dynamic .null
  | .stored => .stored (.null true)
  | .foreign _ => .foreign ""
  | .option _ | .document _ | .oneOf _ _ => .absent

/-- A member that is declared with modifiers. -/
def member (name : String) (type : Ty) (modifiers : List Modifier) : Declaration :=
  ⟨name, type, initialOf type, modifiers⟩

/-- Makes a member the partition of the table's own key. -/
def partitionKey : Modifier := .role .primary .partition 0

/-- Makes a member the sort of the table's own key. -/
def sortKey : Modifier := .role .primary .sort 0

/-- The document with a number. -/
def document (home : Home) (id : DocumentId) (members : List Declaration) : Document :=
  .declare (typeNameOf home id) members

/-- Members whose nulls and defaults are kept. -/
def inner (home : Home) : Document :=
  document home 5
    [member "a" (.option (int .int32)) [.persistNull true],
     member "b" (int .int32) [.persistDefault true], member "c" text []]

/-- A member that holds such a document. -/
def innerMember (home : Home) (name : String) (modifiers : List Modifier) : Declaration :=
  ⟨name, .document 5, .document (Codec.initialMembers (inner home)), modifiers⟩

/-- A document with a member of every sort. -/
def everything (home : Home) : Document :=
  document home 1
    [member "flag" truth [], member "small" (int .int8) [], member "big" (int .nat64) [],
     member "ratio" float [], member "letter" (.scalar .char) [], member "blob" bytes [],
     member "numbers" (.list (int .int32)) [], member "ids" (.set false (int .int64)) [],
     member "labels" (.map true text) [], member "nested" (.option (.boxed (.document 0))) [],
     member "priority" (.enumeration (status home)) [], member "at" (.option moment) [],
     member "day" (.option (.scalar (.textual .date))) [],
     member "elapsed" (.scalar (.textual .signedSpan)) [],
     member "token" (.scalar (.textual .uuid)) []]

/-- A customer. -/
def customer (home : Home) : Document :=
  document home 3
    [member "id" text [partitionKey], member "display_name" text [],
     member "age" (int .nat32) [], member "notes" (.option text) [],
     member "avatar" bytes [.rename "Pic"], member "address" (.option (.document 2)) [],
     member "history" (.list (.document 2)) [],
     member "status" (.enumeration (status home)) [], member "tags" (.set true text) [],
     member "extra" (.option .dynamic) [], member "raw" (.option .stored) []]

/-- A document whose members say what becomes of nulls and defaults. -/
def policy (home : Home) : Document :=
  document home 4
    [member "id" text [partitionKey], member "null_on" (.option text) [.persistNull true],
     member "null_off" (.option (int .int32)) [.persistNull false],
     member "def_on" (int .int32) [.persistDefault true],
     member "def_off" (.enumeration (status home)) [.persistDefault false],
     member "def_list" (.list (int .int32)) [.persistDefault true],
     member "both" (.option (.list text)) [.persistNull true, .persistDefault false],
     member "plain" text [], innerMember home "inner" [.persistDefault true],
     member "kind" (.enumeration (nozero home)) []]

/-- A document whose members have hooks. -/
def audited (home : Home) : Document :=
  document home 6
    [member "id" text [partitionKey],
     member "secret" text [.onWrite (onText reversed), .onRead reverse],
     member "chain" text
      [.onWrite (onText banged), .onWrite (onText reversed), .onRead reverse, .onRead unbang],
     member "boxed" (.option (int .int64)) [.onWrite wrap, .onRead unwrap, .persistNull true],
     member "gone" (int .int32) [.onWrite nullify],
     innerMember home "wrapped_doc" [.onWrite wrap, .onRead unwrap],
     member "stop" truth [.onWrite refuseWrite], member "halt" truth [.onRead refuse]]

/-- An order, with two indexes of its own partition. -/
def order (home : Home) : Document :=
  document home 25
    [member "customer" text [partitionKey], member "placed_at" text [sortKey],
     member "total" (int .int64) [.role .localIndex .sort 1, .rename "Total"],
     member "region" text [.role .globalIndex .partition 1],
     member "status" text
      [.role .globalIndex .sort 1, .role .globalIndex .sort 2, .indexName "by-status"],
     member "revision" (int .nat32) [.version], member "shipTo" (.option (.document 2)) []]

/-- The documents in the order of their numbers. -/
def catalogue (home : Home) : List Document :=
  [document home 0
    [member "name" text [.rename "Name"], member "tags" (.set false text) [.rename "Tags"],
     member "notes" (.option text) [.rename "Notes"]],
   everything home,
   document home 2
    [member "street" text [], member "lines" (.list text) [],
     member "geo_point" (.map false float) []],
   customer home, policy home, inner home, audited home,
   document home 7 [member "radius" float []],
   document home 8 [member "side" float [], member "label" (.option text) [.rename "$type"]],
   document home 9 [member "shapes" (.list shape) [], member "main" (.option shape) []],
   document home 10 [member "value" (int .int64) [], member "children" (.list (.document 10)) []],
   document home 11
    [member "stream" text [partitionKey], member "seq" (int .nat64) [sortKey, .rename "Seq"],
     member "payload" text []],
   document home 12 [member "digest" bytes [partitionKey]],
   document home 13
    [member "tier" (.enumeration (status home)) [partitionKey], member "user_id" text [sortKey]],
   document home 14
    [member "sensor" (int .int64) [partitionKey], member "at" moment [sortKey],
     member "value" float []],
   document home 15 [member "name" text [partitionKey], member "part" bytes [sortKey]],
   document home 16
    [member "code" text [partitionKey, .onWrite (onText banged), .onRead unbang],
     member "level" (.option float) [sortKey]],
   document home 17 [member "id" text [partitionKey, .onWrite wrap]],
   document home 18 [member "flag" truth [partitionKey]],
   document home 19 [member "any" (.option .dynamic) [partitionKey]],
   document home 20 [member "a" text []],
   document home 21 [member "a" text [sortKey]],
   document home 22
    [member "a" (int .int32) [.indexName "nope"],
     member "b" (int .int32) [partitionKey, .indexName "also"]],
   document home 23
    [member "a" (int .int32) [.indexName "nope"], member "a" (int .int32) [],
     member "a" (int .int32) []],
   document home 24 [], order home]

/-- The document with a number. -/
def documents (home : Home) (id : DocumentId) : Document := (catalogue home).getD id default

end ItemMapper.Sample
