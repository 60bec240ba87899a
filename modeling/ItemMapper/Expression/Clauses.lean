import ItemMapper.Expression.Function
import ItemMapper.Unicode.Blank

/-!
# The text of updates

An update is a text of clauses, each a verb and what it does. The clauses are found by their verbs:
words between blanks that stand outside all parentheses and brackets.

## Main definitions

* `Clauses.verbs`: the verbs of a text and where they stand.
* `Clauses.push`: a text with one more action.
* `Clauses.split`: the clauses of a text.
-/

namespace ItemMapper.Clauses

/-- A verb at a position of a text. -/
structure Occurrence where
  start : Nat
  /-- The position after the verb. -/
  stop : Nat
  verb : UpdateVerb
deriving DecidableEq, Repr

/-- The words of a text and their positions; `position` is where the text starts, and `word` the
beginning of a word that goes on there, read backwards. -/
def words (position : Nat) (word : List Char) : List Char → List (Nat × List Char)
  | [] => if word.isEmpty then [] else [(position - word.length, word.reverse)]
  | c :: rest =>
    if Unicode.isBlank c then
      if word.isEmpty then words (position + 1) [] rest
      else (position - word.length, word.reverse) :: words (position + 1) [] rest
    else words (position + 1) (c :: word) rest

/-- How deep parentheses and brackets are nested after a word. -/
def depthAfter (depth : Int) (word : List Char) : Int :=
  word.foldl (fun depth c =>
    if c = '(' ∨ c = '[' then depth + 1
    else if c = ')' ∨ c = ']' then depth - 1
    else depth) depth

/-- The verbs among words, the first of which stands at a depth of parentheses. -/
def verbsAmong (depth : Int) : List (Nat × List Char) → List Occurrence
  | [] => []
  | (start, word) :: rest =>
    match if depth = 0 then UpdateVerb.ofWord? (String.ofList word) else none with
    | some verb => ⟨start, start + word.length, verb⟩ :: verbsAmong depth rest
    | none => verbsAmong (depthAfter depth word) rest

/-- The verbs of a text. -/
def verbs (text : List Char) : List Occurrence := verbsAmong 0 (words 0 [] text)

/-- How many characters stay where blanks at the end are dropped. -/
def trimmedLength (text : List Char) : Nat := (text.reverse.dropWhile Unicode.isBlank).length

/-- Where the clause with a verb ends, if there is one; blanks in front of the next verb do not belong
to it. -/
def endOf? (text : List Char) (verb : UpdateVerb) : List Occurrence → Option Nat
  | [] => none
  | occurrence :: rest =>
    if occurrence.verb = verb then
      match rest with
      | next :: _ => some (trimmedLength (text.take next.start))
      | [] => some text.length
    else endOf? text verb rest

/-- The text with one more action: at the end of the clause with its verb, or in a new clause. -/
def push (text : List Char) (verb : UpdateVerb) (action : List Char) : List Char :=
  match endOf? text verb (verbs text) with
  | some stop => text.take stop ++ ", ".toList ++ action ++ text.drop stop
  | none =>
    (if text.isEmpty then [] else text ++ [' ']) ++ verb.keyword.toList ++ ' ' :: action

/-- The clauses that begin with the given verbs. -/
def bodies (text : List Char) : List Occurrence → Except Error (List (UpdateVerb × List Char))
  | [] => .ok []
  | occurrence :: rest => do
    let stop := (rest.head?.map (·.start)).getD text.length
    let body := Unicode.trimChars ((text.take stop).drop occurrence.stop)
    if body.isEmpty then
      .error (Error.unsupported "raw expression" s!"empty {occurrence.verb.keyword} clause")
    else do
      let others ← bodies text rest
      pure ((occurrence.verb, body) :: others)

/-- The clauses of a text, which has to begin with a verb. -/
def split (text : List Char) : Except Error (List (UpdateVerb × List Char)) :=
  let found := verbs text
  let leading := text.take ((found.head?.map (·.start)).getD text.length)
  if found.isEmpty ∨ !leading.all Unicode.isBlank then
    .error (Error.unsupported "raw expression"
      "update text must start with SET, REMOVE, ADD or DELETE")
  else bodies text found

end ItemMapper.Clauses
