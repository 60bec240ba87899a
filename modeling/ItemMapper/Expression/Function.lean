import ItemMapper.Config.Naming
import ItemMapper.Error

/-!
# Functions of the store

The functions that conditions and updates call, and the actions that updates consist of. Each is
written after a template.

## Main definitions

* `UpdateVerb`: the keywords of the clauses of an update.
* `StoreFunction`: the functions and actions, with their templates and numbers of arguments.
-/

namespace ItemMapper

/-- What the clauses of an update begin with. -/
inductive UpdateVerb where
  | set
  | remove
  | add
  | delete
deriving DecidableEq, Repr, Inhabited

namespace UpdateVerb

/-- The verbs. -/
def all : List UpdateVerb := [set, remove, add, delete]

/-- The keyword of the verb. -/
def keyword : UpdateVerb → String
  | set => "SET"
  | remove => "REMOVE"
  | add => "ADD"
  | delete => "DELETE"

/-- The verb that a word is the keyword of, in letters of either case. -/
def ofWord? (word : String) : Option UpdateVerb :=
  all.find? fun verb => sameIgnoringCase verb.keyword word

end UpdateVerb

/-- The functions that the store knows, and the actions of updates. -/
inductive StoreFunction where
  | attributeExists
  | attributeNotExists
  | attributeType
  | beginsWith
  | contains
  /-- Yields a number. -/
  | size
  | between
  /-- Takes any number of candidates. -/
  | isIn
  | set
  | remove
  | add
  | delete
  /-- Stands in the value of a `set` only. -/
  | ifNotExists
  /-- Stands in the value of a `set` only. -/
  | listAppend
deriving DecidableEq, Repr, Inhabited

namespace StoreFunction

/-- How messages call the function. -/
def name : StoreFunction → String
  | attributeExists => "attribute_exists"
  | attributeNotExists => "attribute_not_exists"
  | attributeType => "attribute_type"
  | beginsWith => "begins_with"
  | contains => "contains"
  | size => "size"
  | between => "between"
  | isIn => "in"
  | set => "set"
  | remove => "remove"
  | add => "add"
  | delete => "delete"
  | ifNotExists => "if_not_exists"
  | listAppend => "list_append"

/-- How a call is written: a number between braces stands for the argument at that position, a star for
all arguments after those. -/
def template : StoreFunction → String
  | attributeExists => "attribute_exists(\x7b0\x7d)"
  | attributeNotExists => "attribute_not_exists(\x7b0\x7d)"
  | attributeType => "attribute_type(\x7b0\x7d, \x7b1\x7d)"
  | beginsWith => "begins_with(\x7b0\x7d, \x7b1\x7d)"
  | contains => "contains(\x7b0\x7d, \x7b1\x7d)"
  | size => "size(\x7b0\x7d)"
  | between => "\x7b0\x7d BETWEEN \x7b1\x7d AND \x7b2\x7d"
  | isIn => "\x7b0\x7d IN (\x7b*\x7d)"
  | set => "\x7b0\x7d = \x7b1\x7d"
  | remove => "\x7b0\x7d"
  | add | delete => "\x7b0\x7d \x7b1\x7d"
  | ifNotExists => "if_not_exists(\x7b0\x7d, \x7b1\x7d)"
  | listAppend => "list_append(\x7b0\x7d, \x7b1\x7d)"

/-- How many arguments the function takes, or at least takes. -/
def arity : StoreFunction → Nat
  | attributeExists | attributeNotExists | size | remove => 1
  | between => 3
  | _ => 2

/-- Whether the function takes more arguments than its arity. -/
def isVariadic : StoreFunction → Bool
  | isIn => true
  | _ => false

/-- The verb of the clause that an action belongs to. -/
def verb? : StoreFunction → Option UpdateVerb
  | set => some .set
  | remove => some .remove
  | add => some .add
  | delete => some .delete
  | _ => none

/-- Whether the function yields a truth value. -/
def isPredicate : StoreFunction → Bool
  | attributeExists | attributeNotExists | attributeType | beginsWith | contains | between
  | isIn => true
  | _ => false

/-- Whether the function stands in the value of a `set` only. -/
def isSetOperand : StoreFunction → Bool
  | ifNotExists | listAppend => true
  | _ => false

/-- Whether the first argument has to be a path. -/
def wantsPath : StoreFunction → Bool
  | between | isIn => false
  | _ => true

/-- Whether the function takes a number of arguments. -/
def takes (f : StoreFunction) (count : Nat) : Bool :=
  if f.isVariadic then f.arity ≤ count else count == f.arity

/-- Complains about a number of arguments that the function does not take. -/
def checkArity (f : StoreFunction) (count : Nat) : Except Error Unit :=
  if f.takes count then .ok ()
  else .error (Error.unsupported s!"call {f.name}" s!"expected {f.arity} argument(s), got {count}")

end StoreFunction

end ItemMapper
