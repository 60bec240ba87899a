import ItemMapper.Unicode.Alphanumeric
import ItemMapper.Unicode.LetterCase

/-!
# The words of a name

A name is cut into words at every character that is neither a letter nor a number, before an
upper-case letter that follows a lower-case one, and before the last upper-case letter of a run
that a lower-case letter ends. Characters without case belong to the word they stand in and leave
the case of what precedes them in force.

## Main definitions

* `nameWords`: the words of a name, in order.
* `lowerWord`, `capitalWord`: a word in lower case, or with a capital.
* `camelCase`, `pascalCase`, `snakeCase`, `kebabCase`: the name in a style.
-/

namespace ItemMapper

open Unicode (isAlphanumeric isLower isUpper toLower toUpper)

/-- The case of the last cased character since the last cut. -/
inductive WordMode where
  /-- No cased character yet. -/
  | boundary
  | lower
  | upper
deriving DecidableEq, Repr

/-- The words of a run of letters and numbers; `current` is the word so far, in reverse. -/
def splitCased (current : List Char) (mode : WordMode) : List Char → List (List Char)
  | [] => []
  | [c] => [(c :: current).reverse]
  | c :: next :: rest =>
    let nextMode := if isLower c then .lower else if isUpper c then .upper else mode
    if nextMode = .lower ∧ isUpper next then
      (c :: current).reverse :: splitCased [] .boundary (next :: rest)
    else if mode = .upper ∧ isUpper c ∧ isLower next then
      current.reverse :: splitCased [c] .boundary (next :: rest)
    else splitCased (c :: current) nextMode (next :: rest)

/-- The runs of letters and numbers between the other characters; runs may be empty. -/
def alphanumericRuns (current : List Char) : List Char → List (List Char)
  | [] => [current.reverse]
  | c :: rest =>
    if isAlphanumeric c then alphanumericRuns (c :: current) rest
    else current.reverse :: alphanumericRuns [] rest

/-- The words of a name. -/
def nameWords (name : String) : List (List Char) :=
  (alphanumericRuns [] name.toList).flatMap (splitCased [] .boundary)

/-- A word in lower case; a capital sigma that ends it becomes a final sigma. -/
def lowerWord : List Char → List Char
  | [] => []
  | [c] => if c = 'Σ' then ['ς'] else toLower c
  | c :: rest => toLower c ++ lowerWord rest

/-- A word with its first character in upper case and the rest in lower case. -/
def capitalWord : List Char → List Char
  | [] => []
  | c :: rest => toUpper c ++ lowerWord rest

/-- `firstName`. -/
def camelCase (name : String) : String :=
  match nameWords name with
  | [] => ""
  | first :: rest => String.ofList (lowerWord first ++ rest.flatMap capitalWord)

/-- `FirstName`. -/
def pascalCase (name : String) : String :=
  String.ofList ((nameWords name).flatMap capitalWord)

/-- `first_name`. -/
def snakeCase (name : String) : String :=
  String.ofList (['_'].intercalate ((nameWords name).map lowerWord))

/-- `first-name`. -/
def kebabCase (name : String) : String :=
  String.ofList (['-'].intercalate ((nameWords name).map lowerWord))

end ItemMapper
