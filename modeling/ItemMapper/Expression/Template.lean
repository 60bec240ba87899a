import ItemMapper.Error
import ItemMapper.Number.Decimal

/-!
# Templates

A template is a text with placeholders between braces. A number is the position of an argument; a
star stands for the arguments after the last position that was used so far, with commas between
them.

## Main definitions

* `Template.pieces`: a template, taken apart.
* `Template.render`: a template with its arguments.
-/

namespace ItemMapper.Template

/-- A part of a template. -/
inductive Piece where
  | plain (c : Char)
  /-- What stands between two braces. -/
  | placeholder (content : String)
  /-- An opening brace without a closing one. -/
  | unclosed
deriving DecidableEq, Repr

mutual
/-- The parts of a template. -/
def pieces : List Char → List Piece
  | [] => []
  | c :: rest => if c = '\x7b' then placeholderPieces [] rest else .plain c :: pieces rest

/-- The parts of a template whose last opening brace is followed by the given characters, read
backwards. -/
def placeholderPieces (content : List Char) : List Char → List Piece
  | [] => [.unclosed]
  | c :: rest =>
    if c = '\x7d' then .placeholder (String.ofList content.reverse) :: pieces rest
    else placeholderPieces (c :: content) rest
end

/-- The text of a placeholder after one for the positions below `used`, and the positions used then. -/
def renderPlaceholder (args : List String) (used : Nat) (content : String) :
    Except Error (String × Nat) :=
  if content = "*" then .ok (", ".intercalate (args.drop used), used)
  else
    match (readNat? content).filter (· < 2 ^ 64) with
    | none => .error (Error.unsupported "template" ("bad placeholder '\x7b" ++ content ++ "\x7d'"))
    | some position =>
      match args[position]? with
      | some arg => .ok (arg, max used (position + 1))
      | none =>
        .error (Error.unsupported "template"
          ("placeholder \x7b" ++ toString position ++ "\x7d has no argument"))

/-- The text of the parts of a template, after parts that used the positions below `used`. -/
def renderPieces (template : String) (args : List String) (used : Nat) :
    List Piece → Except Error String
  | [] => .ok ""
  | .plain c :: rest => do
    let text ← renderPieces template args used rest
    pure (c.toString ++ text)
  | .placeholder content :: rest => do
    let (text, used) ← renderPlaceholder args used content
    let others ← renderPieces template args used rest
    pure (text ++ others)
  | .unclosed :: _ =>
    .error (Error.unsupported "template" s!"unterminated placeholder in '{template}'")

/-- The template with its arguments. -/
def render (template : String) (args : List String) : Except Error String :=
  renderPieces template args 0 (pieces template.toList)

end ItemMapper.Template
