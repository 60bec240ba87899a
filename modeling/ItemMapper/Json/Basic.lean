/-!
# JSON trees

A JSON text is read into a tree that keeps the order and the repetitions of object members. A text
that stops being JSON still has a tree, up to the place where it stops: the value that could not be
read is `broken`, and the arrays and objects around that place are not closed. So a reader that
walks the tree in the order of the text meets first whichever fault comes first in the text.

An escape of half a surrogate pair is JSON but denotes no character. A string with one is `garbled`,
and of an object with such a key only the members before that key are kept: who needs the keys
fails there, and who skips the object does not.

## Main definitions

* `Json`: the trees.
* `Ending`: how the members of an object end.
* `Json.isWhole`: whether the text of the tree was JSON to its end.
-/

namespace ItemMapper

/-- How the members of an object end. -/
inductive Ending where
  /-- With the closing brace. -/
  | closed
  /-- With a key that has an escape which denotes no character; the text goes on up to the closing
  brace. -/
  | garbled
  /-- Where the text stops being JSON. -/
  | broken
deriving DecidableEq, Repr, Inhabited

/-- Whether the members end with the closing brace. -/
def Ending.isClosed : Ending → Bool
  | closed => true
  | _ => false

/-- A JSON value, or the part of one that could be read. -/
inductive Json where
  | null
  | bool (value : Bool)
  /-- A number, by its text. -/
  | number (text : String)
  | string (text : String)
  | array (items : List Json) (closed : Bool)
  | object (members : List (String × Json)) (ending : Ending)
  /-- An object with something else than a string in place of its first key; what follows that is not
  read. -/
  | unkeyed (key : Json)
  /-- A string with an escape that denotes no character. -/
  | garbled
  /-- The place where the text stops being JSON. -/
  | broken
deriving Repr, Inhabited

namespace Json

mutual
/-- Whether the text of the value was JSON to its end. -/
def isWhole : Json → Bool
  | array items closed => closed && allWhole items
  | object members ending => ending != .broken && membersWhole members
  | unkeyed _ | broken => false
  | _ => true

/-- Whether the texts of all the values were JSON to their ends. -/
def allWhole : List Json → Bool
  | [] => true
  | item :: rest => isWhole item && allWhole rest

/-- Whether the texts of all the members were JSON to their ends. -/
def membersWhole : List (String × Json) → Bool
  | [] => true
  | (_, value) :: rest => isWhole value && membersWhole rest
end

/-- An array of the given items. -/
def ofItems (items : List Json) : Json := array items true

/-- An object of the given members. -/
def ofMembers (members : List (String × Json)) : Json := object members .closed

/-- The object with one member. -/
def tagged (tag : String) (payload : Json) : Json := .ofMembers [(tag, payload)]

end Json

end ItemMapper
