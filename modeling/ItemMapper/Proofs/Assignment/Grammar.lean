import ItemMapper.Proofs.Condition.Grammar

/-!
# The store's grammar of SET

How the store reads what an action of SET assigns. The value is a row of terms with + and - between
them, which are put together from the left: a - b - c is (a - b) - c, and only parentheses group
otherwise. A term is an operand as in conditions, an `if_not_exists`, a `list_append`, or a value
between parentheses.

## Main definitions

* `SetValue`: what an attribute is set to.
* `SetValue.Alike`: being the same up to the order inside sets.
* `Assignment.read?`: the assignment that a text spells.
-/

namespace ItemMapper

/-- What stands between two terms. -/
inductive Sign where
  | plus
  | minus
deriving DecidableEq, Repr

namespace Sign

/-- The operator of the sign. -/
def op : Sign → BinaryOp
  | plus => .add
  | minus => .sub

/-- The sign that an operator is. -/
def ofOp? : BinaryOp → Option Sign
  | .add => some plus
  | .sub => some minus
  | _ => none

end Sign

/-- What an attribute is set to. -/
inductive SetValue where
  | operand (operand : Operand)
  | calculation (sign : Sign) (left right : SetValue)
  /-- What a path leads to, and something else if there is nothing. -/
  | ifNotExists (steps : List Step) (fallback : SetValue)
  | listAppend (first second : SetValue)
deriving DecidableEq, Repr

/-- Values that are equal up to the order inside sets. -/
inductive SetValue.Alike : SetValue → SetValue → Prop
  | operand {x y : Operand} : x.Alike y → Alike (.operand x) (.operand y)
  | calculation {sign : Sign} {l l' r r' : SetValue} : Alike l l' → Alike r r' →
      Alike (.calculation sign l r) (.calculation sign l' r')
  | ifNotExists {steps : List Step} {v w : SetValue} : Alike v w →
      Alike (.ifNotExists steps v) (.ifNotExists steps w)
  | listAppend {l l' r r' : SetValue} : Alike l l' → Alike r r' →
      Alike (.listAppend l r) (.listAppend l' r')

/-- An action of SET. -/
structure Assignment where
  target : List Step
  value : SetValue
deriving DecidableEq, Repr

namespace Assignment

open Condition

/-- The token of a lexeme, if it is one; in a SET the signs are operators too. -/
def token? (names : Fields String) (values : Fields AttributeValue) (lexeme : List Char) :
    Option Token :=
  match lexeme with
  | ['+'] => some (.operator .add)
  | ['-'] => some (.operator .sub)
  | lexeme => Lexer.token? names values lexeme

/-- The tokens of a text, if all its lexemes are tokens. -/
def tokens? (names : Fields String) (values : Fields AttributeValue) (text : List Char) :
    Option (List Token) :=
  (Lexer.lexemes text).mapM (token? names values)

/-- The sign that a token is. -/
def sign? : Token → Option Sign
  | .operator op => Sign.ofOp? op
  | _ => none

/-- Reads terms behind a value, at most as many as `bound`, and puts them together from the left. -/
def readTerms (term : Reader SetValue) : Nat → SetValue → Reader SetValue
  | 0, value => fun tokens => some (value, tokens)
  | bound + 1, value => fun tokens =>
    match tokens with
    | [] => some (value, [])
    | token :: rest =>
      match sign? token with
      | some sign => do
        let (next, rest) ← term rest
        readTerms term bound (.calculation sign value next) rest
      | none => some (value, token :: rest)

/-- Reads a row of terms, at most as many as `bound` behind the first. -/
def readRow (term : Reader SetValue) (bound : Nat) : Reader SetValue := fun tokens => do
  let (first, rest) ← term tokens
  readTerms term bound first rest

/-- Reads a row of terms. -/
def readValue (term : Reader SetValue) : Reader SetValue := fun tokens =>
  readRow term tokens.length tokens

/-- Reads a term; calls and parentheses are nested at most as deep as `bound`. -/
def readTerm : Nat → Reader SetValue
  | 0 => fun _ => none
  | bound + 1 => fun tokens =>
    match tokens with
    | .mark .opening :: rest => readClosed (readValue (readTerm bound)) rest
    | .word word :: .mark .opening :: rest =>
      if word = StoreFunction.ifNotExists.name then do
        match ← readPath rest with
        | (steps, .mark .comma :: rest) => do
          let (fallback, rest) ← readClosed (readValue (readTerm bound)) rest
          some (.ifNotExists steps fallback, rest)
        | _ => none
      else if word = StoreFunction.listAppend.name then do
        match ← readValue (readTerm bound) rest with
        | (first, .mark .comma :: rest) => do
          let (second, rest) ← readClosed (readValue (readTerm bound)) rest
          some (.listAppend first second, rest)
        | _ => none
      else (readOperand (.word word :: .mark .opening :: rest)).map fun (operand, rest) =>
        (.operand operand, rest)
    | tokens => (readOperand tokens).map fun (operand, rest) => (.operand operand, rest)

/-- The assignment that tokens spell, all of them. -/
def ofTokens? (tokens : List Token) : Option Assignment :=
  match readPath tokens with
  | some (target, .operator .eq :: rest) =>
    match readValue (readTerm rest.length) rest with
    | some (value, []) => some ⟨target, value⟩
    | _ => none
  | _ => none

/-- The assignment that a text spells, its placeholders replaced by what they stand for. -/
def read? (names : Fields String) (values : Fields AttributeValue) (text : List Char) :
    Option Assignment :=
  (tokens? names values text).bind ofTokens?

end Assignment

end ItemMapper
