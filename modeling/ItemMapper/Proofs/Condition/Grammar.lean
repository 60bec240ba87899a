import Mathlib.Data.List.Forall2
import ItemMapper.Attribute.Basic
import ItemMapper.Expression.Function
import ItemMapper.Expression.Operator
import ItemMapper.Expression.Reserved
import ItemMapper.Number.Decimal
import ItemMapper.Order.Fields
import ItemMapper.Unicode.Blank

/-!
# The store's grammar of conditions

How the store reads the text of a condition. The text is cut into lexemes at blanks and marks; a
lexeme that is a placeholder is replaced by the name or the value that the tables give it. NOT binds
tighter than AND, and AND tighter than OR; parentheses group. An atom is a comparison, a BETWEEN, an
IN or a call of a function.

## Main definitions

* `Condition`: what a condition says.
* `Condition.Alike`: saying the same, up to the grouping of chains of one operator and the order
  inside sets.
* `Lexer.tokens?`: the tokens of a text.
* `Condition.read?`: the condition that a text spells.
-/

namespace ItemMapper

/-- One step of a path. -/
inductive Step where
  /-- To a member, by its stored name. -/
  | member (name : String)
  /-- To an element of a list. -/
  | element (position : Nat)
deriving DecidableEq, Repr

/-- What a condition compares and calls functions with. -/
inductive Operand where
  | path (steps : List Step)
  /-- The size of what a path leads to. -/
  | size (steps : List Step)
  | value (value : AttributeValue)
deriving DecidableEq, Repr

/-- A condition on an item. -/
inductive Condition where
  | comparison (op : BinaryOp) (left right : Operand)
  /-- A call of a function; BETWEEN and IN are functions of all their operands. -/
  | call (function : StoreFunction) (args : List Operand)
  | not (inner : Condition)
  /-- Two conditions joined by AND or OR. -/
  | join (op : BinaryOp) (left right : Condition)
deriving DecidableEq, Repr

/-- Operands that are equal up to the order inside sets. -/
inductive Operand.Alike : Operand → Operand → Prop
  | path (steps : List Step) : Alike (.path steps) (.path steps)
  | size (steps : List Step) : Alike (.size steps) (.size steps)
  | value {v w : AttributeValue} : v.same w = true → Alike (.value v) (.value w)

/-- Conditions that are equal up to the order inside sets and the grouping of chains of one logical
operator. -/
inductive Condition.Alike : Condition → Condition → Prop
  | comparison {op : BinaryOp} {l l' r r' : Operand} :
      l.Alike l' → r.Alike r' → Alike (.comparison op l r) (.comparison op l' r')
  | call {function : StoreFunction} {args args' : List Operand} :
      List.Forall₂ Operand.Alike args args' → Alike (.call function args) (.call function args')
  | not {c d : Condition} : Alike c d → Alike (.not c) (.not d)
  | join {op : BinaryOp} {c c' d d' : Condition} :
      Alike c c' → Alike d d' → Alike (.join op c d) (.join op c' d')
  | regroup (op : BinaryOp) (b c d : Condition) :
      Alike (.join op b (.join op c d)) (.join op (.join op b c) d)
  | trans {b c d : Condition} : Alike b c → Alike c d → Alike b d

/-- The words of the grammar that are no names. -/
inductive Keyword where
  | and
  | or
  | not
  | between
  | isIn
deriving DecidableEq, Repr

namespace Keyword

/-- The keywords. -/
def all : List Keyword := [and, or, not, between, isIn]

/-- How the keyword is written. -/
def text : Keyword → String
  | and => "AND"
  | or => "OR"
  | not => "NOT"
  | between => "BETWEEN"
  | isIn => "IN"

/-- The keyword that a word is, in letters of either case. -/
def ofWord? (word : String) : Option Keyword :=
  all.find? fun keyword => sameIgnoringCase keyword.text word

end Keyword

/-- The characters that are units of the grammar by themselves. -/
inductive Mark where
  | opening
  | closing
  | openBracket
  | closeBracket
  | comma
  | dot
deriving DecidableEq, Repr

namespace Mark

/-- The marks. -/
def all : List Mark := [opening, closing, openBracket, closeBracket, comma, dot]

/-- The character of the mark. -/
def char : Mark → Char
  | opening => '('
  | closing => ')'
  | openBracket => '['
  | closeBracket => ']'
  | comma => ','
  | dot => '.'

/-- The mark that a character is. -/
def ofChar? (c : Char) : Option Mark := all.find? fun mark => mark.char == c

end Mark

/-- A unit of the grammar. -/
inductive Token where
  | keyword (keyword : Keyword)
  /-- A bare name, the name of a function, or the position of an element. -/
  | word (text : String)
  /-- A placeholder for a name, replaced by the name. -/
  | name (name : String)
  /-- A placeholder for a value, replaced by the value. -/
  | value (value : AttributeValue)
  | operator (op : BinaryOp)
  | mark (mark : Mark)
deriving DecidableEq, Repr

namespace Lexer

/-- The sorts of characters. -/
inductive CharSort where
  /-- Stands in words and placeholders. -/
  | word
  /-- Stands in operators. -/
  | operator
  | blank
  /-- Stands by itself. -/
  | mark
deriving DecidableEq, Repr

/-- The sort of a character. -/
def sortOf (c : Char) : CharSort :=
  if c.isAlphanum || c = '_' || c = '#' || c = ':' then .word
  else if c = '=' || c = '<' || c = '>' then .operator
  else if Unicode.isBlank c then .blank
  else .mark

/-- Puts a character in front of the first lexeme. -/
def prepend (c : Char) : List (List Char) → List (List Char)
  | [] => [[c]]
  | lexeme :: rest => (c :: lexeme) :: rest

/-- Whether a lexeme goes on from a character to the next one. -/
def goesOn (c : Char) : List Char → Bool
  | [] => false
  | d :: _ => sortOf d == sortOf c

/-- The lexemes of a text: maximal runs of word characters, maximal runs of operator characters, and
marks. -/
def lexemes : List Char → List (List Char)
  | [] => []
  | c :: rest =>
    match sortOf c with
    | .blank => lexemes rest
    | .mark => [c] :: lexemes rest
    | .word | .operator => if goesOn c rest then prepend c (lexemes rest) else [c] :: lexemes rest

/-- The operator that is written in some way. -/
def operator? (text : String) : Option BinaryOp :=
  [BinaryOp.eq, .ne, .lt, .le, .gt, .ge].find? fun op => op.symbol == text

/-- The token of a word without a mark in front. -/
def wordToken (word : String) : Token :=
  match Keyword.ofWord? word with
  | some keyword => .keyword keyword
  | none => .word word

/-- The token of a lexeme, if it is one. Placeholders have to stand for something. -/
def token? (names : Fields String) (values : Fields AttributeValue) (lexeme : List Char) :
    Option Token :=
  match lexeme with
  | [] => none
  | c :: _ =>
    let text := String.ofList lexeme
    if c = '#' then (names.get? text).map .name
    else if c = ':' then (values.get? text).map .value
    else
      match sortOf c with
      | .word => some (wordToken text)
      | .operator => (operator? text).map .operator
      | .mark => (Mark.ofChar? c).map .mark
      | .blank => none

/-- The tokens of a text, if all its lexemes are tokens. -/
def tokens? (names : Fields String) (values : Fields AttributeValue) (text : List Char) :
    Option (List Token) :=
  (lexemes text).mapM (token? names values)

end Lexer

namespace Condition

/-- Reads something from the front of a list of tokens. -/
abbrev Reader (α : Type) := List Token → Option (α × List Token)

/-- The name that a token is, if it may stand in a path. -/
def name? : Token → Option String
  | .name name => some name
  | .word word => if needsAlias word then none else some word
  | _ => none

/-- The steps of a path after the first, as far as they go. -/
def readSteps : List Token → List Step × List Token
  | .mark .dot :: token :: rest =>
    match name? token with
    | some name =>
      let read := readSteps rest
      (.member name :: read.1, read.2)
    | none => ([], .mark .dot :: token :: rest)
  | .mark .openBracket :: .word digits :: .mark .closeBracket :: rest =>
    match readNat? digits with
    | some position =>
      let read := readSteps rest
      (.element position :: read.1, read.2)
    | none => ([], .mark .openBracket :: .word digits :: .mark .closeBracket :: rest)
  | tokens => ([], tokens)

/-- Reads a path. -/
def readPath : Reader (List Step)
  | [] => none
  | token :: rest =>
    (name? token).map fun name =>
      let read := readSteps rest
      (.member name :: read.1, read.2)

/-- Reads what has a closing parenthesis behind it. -/
def readClosed {α : Type} (reader : Reader α) : Reader α := fun tokens =>
  match reader tokens with
  | some (x, .mark .closing :: rest) => some (x, rest)
  | _ => none

/-- Reads an operand. -/
def readOperand : Reader Operand
  | .value value :: rest => some (.value value, rest)
  | .word word :: .mark .opening :: rest =>
    if word = StoreFunction.size.name then
      (readClosed readPath rest).map fun (steps, rest) => (.size steps, rest)
    else none
  | tokens => (readPath tokens).map fun (steps, rest) => (.path steps, rest)

/-- Reads operands with commas between them, at most as many as `bound`. -/
def readOperands : Nat → Reader (List Operand)
  | 0 => fun _ => none
  | bound + 1 => fun tokens => do
    let (operand, rest) ← readOperand tokens
    match rest with
    | .mark .comma :: rest => do
      let (operands, rest) ← readOperands bound rest
      some (operand :: operands, rest)
    | rest => some ([operand], rest)

/-- Reads operands between parentheses, the first of which has been read. -/
def readArguments : Reader (List Operand) := fun tokens =>
  readClosed (readOperands tokens.length) tokens

/-- The function that is called by a name and yields a truth value. -/
def function? (name : String) : Option StoreFunction :=
  [StoreFunction.attributeExists, .attributeNotExists, .attributeType, .beginsWith, .contains].find?
    fun function => function.name == name

/-- Reads what follows the first operand of an atom. -/
def readRelation (operand : Operand) : Reader Condition
  | .operator op :: rest => do
    let (right, rest) ← readOperand rest
    some (.comparison op operand right, rest)
  | .keyword .between :: rest => do
    let (low, rest) ← readOperand rest
    match rest with
    | .keyword .and :: rest => do
      let (high, rest) ← readOperand rest
      some (.call .between [operand, low, high], rest)
    | _ => none
  | .keyword .isIn :: .mark .opening :: rest => do
    let (candidates, rest) ← readArguments rest
    some (.call .isIn (operand :: candidates), rest)
  | _ => none

/-- Reads an atom. -/
def readAtom : Reader Condition := fun tokens =>
  match tokens with
  | .word word :: .mark .opening :: rest =>
    match function? word with
    | some function => do
      let (args, rest) ← readArguments rest
      if function.takes args.length then some (.call function args, rest) else none
    | none => do
      let (operand, rest) ← readOperand tokens
      readRelation operand rest
  | tokens => do
    let (operand, rest) ← readOperand tokens
    readRelation operand rest

/-- Reads conditions with one logical operator between them, at most as many as `bound`. -/
def readChain (op : BinaryOp) (keyword : Keyword) (item : Reader Condition) : Nat → Reader Condition
  | 0 => fun _ => none
  | bound + 1 => fun tokens => do
    let (left, rest) ← item tokens
    match rest with
    | .keyword found :: rest' =>
      if found = keyword then do
        let (right, rest) ← readChain op keyword item bound rest'
        some (.join op left right, rest)
      else some (left, rest)
    | rest => some (left, rest)

/-- Reads conditions joined by OR, each of them conditions joined by AND. -/
def readDisjunction (item : Reader Condition) : Reader Condition := fun tokens =>
  readChain .or .or (fun tokens => readChain .and .and item tokens.length tokens)
    tokens.length tokens

/-- Reads an atom, a negation or a condition between parentheses; negations and parentheses are nested
at most as deep as `bound`. -/
def readNegation : Nat → Reader Condition
  | 0 => fun _ => none
  | bound + 1 => fun tokens =>
    match tokens with
    | .keyword .not :: rest => do
      let (inner, rest) ← readNegation bound rest
      some (.not inner, rest)
    | .mark .opening :: rest => readClosed (readDisjunction (readNegation bound)) rest
    | tokens => readAtom tokens

/-- The condition that tokens spell, all of them. -/
def ofTokens? (tokens : List Token) : Option Condition :=
  match readDisjunction (readNegation tokens.length) tokens with
  | some (condition, []) => some condition
  | _ => none

/-- The condition that a text spells, its placeholders replaced by what they stand for. -/
def read? (names : Fields String) (values : Fields AttributeValue) (text : String) :
    Option Condition :=
  (Lexer.tokens? names values text.toList).bind ofTokens?

end Condition

end ItemMapper
