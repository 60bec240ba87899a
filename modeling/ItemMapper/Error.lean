import ItemMapper.Attribute.Basic
import ItemMapper.Text.Quoted

/-!
# Errors

Every failure has a cause and a path: the steps from the root of a value to the part that failed,
outermost first. A path grows at its front while the error leaves nested values.

## Main definitions

* `PathSegment`, `renderPath`: the steps of a path and its text.
* `Cause`, `Cause.message`: what went wrong.
* `Error`, `Error.within`, `Error.message`: a cause with its path.
-/

namespace ItemMapper

/-- One step into a value. -/
inductive PathSegment where
  /-- Into the value under a name. -/
  | field (name : String)
  /-- Into the element at a position. -/
  | index (position : Nat)
deriving DecidableEq, Repr

/-- Whether a character may stand inside a plain name. -/
def isNameChar (c : Char) : Bool := c.isAlphanum || c = '_'

/-- Whether a name is made of ASCII letters, digits and underscores and starts with no digit. -/
def isPlainName (name : String) : Bool :=
  match name.toList with
  | [] => false
  | c :: rest => (c.isAlpha || c = '_') && rest.all isNameChar

/-- The text of a step: plain names follow a dot, other names stand quoted between brackets. -/
def PathSegment.text : PathSegment → String
  | field name => if isPlainName name then "." ++ name else "[" ++ quoted name ++ "]"
  | index position => s!"[{position}]"

/-- The text of a path, from the root on. -/
def renderPath (path : List PathSegment) : String :=
  "$" ++ String.join (path.map PathSegment.text)

/-- What went wrong. -/
inductive Cause where
  | unsupportedType (typeName reason : String)
  | unsupportedExpression (node reason : String)
  | missingRequiredAttribute (name : String)
  | invalidSetContents (message : String)
  | ambiguousIndex (typeName message : String)
  /-- Two members that no key or index holds together. -/
  | keyIndexMismatch (partition sort : String)
  | malformedKeyText (text reason : String)
  | typeMismatch (expected actual : String)
  | invalidNumber (text target : String)
  | invalidMetadata (typeName message : String)
  | unknownMember (typeName member : String)
  | aliasConflict (placeholder : String)
  /-- A call that the state of a writer does not allow. -/
  | writer (message : String)
  /-- A failure of the application's own code. -/
  | custom (message : String)
deriving DecidableEq, Repr, Inhabited

/-- The description of a cause. -/
def Cause.message : Cause → String
  | unsupportedType typeName reason => s!"unsupported type {typeName}: {reason}"
  | unsupportedExpression node reason => s!"unsupported expression {node}: {reason}"
  | missingRequiredAttribute name => s!"missing required attribute '{name}'"
  | invalidSetContents message => s!"invalid set contents: {message}"
  | ambiguousIndex typeName message => s!"ambiguous index declaration on {typeName}: {message}"
  | keyIndexMismatch partition sort =>
    s!"'{partition}' and '{sort}' are not part of the same key/index"
  | malformedKeyText text reason => s!"malformed key text '{text}': {reason}"
  | typeMismatch expected actual => s!"cannot convert {actual} to {expected}"
  | invalidNumber text target => s!"invalid number '{text}' for {target}"
  | invalidMetadata typeName message => s!"invalid metadata on {typeName}: {message}"
  | unknownMember typeName member => s!"{typeName} has no member '{member}'"
  | aliasConflict placeholder => s!"alias '{placeholder}' is already bound to a different value"
  | writer message => s!"writer error: {message}"
  | custom message => message

/-- A cause and the path to the part of the value that failed. -/
structure Error where
  path : List PathSegment
  cause : Cause
deriving DecidableEq, Repr, Inhabited

namespace Error

instance : Coe Cause Error := ⟨fun cause => ⟨[], cause⟩⟩

/-- The error seen from outside the step that leads to it. -/
def within (error : Error) (segment : PathSegment) : Error :=
  { error with path := segment :: error.path }

/-- The description, which names the path if there is one. -/
def message (error : Error) : String :=
  if error.path.isEmpty then error.cause.message
  else s!"at {renderPath error.path}: {error.cause.message}"

/-- An attribute value of the wrong type. -/
def typeMismatch (expected : String) (actual : AttributeValue) : Error :=
  ⟨[], .typeMismatch expected actual.tag⟩

/-- A node that an expression may not hold. -/
def unsupported (node reason : String) : Error := ⟨[], .unsupportedExpression node reason⟩

/-- A call that the state of a writer does not allow. -/
def writer (message : String) : Error := ⟨[], .writer message⟩

end Error

/-- The result with an error seen from outside a step. -/
def inside {α : Type} (segment : PathSegment) (result : Except Error α) : Except Error α :=
  result.mapError (·.within segment)

end ItemMapper
