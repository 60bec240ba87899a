import ItemMapper.Text.Words

/-!
# Naming policies

How the name of a member or of an enumeration's variant is turned into its stored name.

## Main definitions

* `NamingPolicy.apply`: the stored name.
* `NamingPolicy.ofText`: a policy from a setting's text.
* `shortTypeName`: the last part of the full name of a type.
-/

namespace ItemMapper

/-- How stored names are derived. -/
inductive NamingPolicy where
  | identity
  | camelCase
  | pascalCase
  | snakeCase
  | kebabCase
deriving DecidableEq, Repr, Inhabited

/-- The text with its ASCII letters in lower case. -/
def lowerAscii (text : String) : String := text.map Char.toLower

/-- Equality up to the case of ASCII letters. -/
def sameIgnoringCase (a b : String) : Bool := lowerAscii a == lowerAscii b

namespace NamingPolicy

/-- The stored name for a declared one. -/
def apply : NamingPolicy → String → String
  | identity, name => name
  | camelCase, name => ItemMapper.camelCase name
  | pascalCase, name => ItemMapper.pascalCase name
  | snakeCase, name => ItemMapper.snakeCase name
  | kebabCase, name => ItemMapper.kebabCase name

/-- The names that settings know, without case, underscores and hyphens. -/
def aliases : List (String × NamingPolicy) :=
  [("identity", identity), ("none", identity), ("camel", camelCase), ("camelcase", camelCase),
   ("pascal", pascalCase), ("pascalcase", pascalCase), ("snake", snakeCase),
   ("snakecase", snakeCase), ("kebab", kebabCase), ("kebabcase", kebabCase),
   ("hyphen", kebabCase)]

/-- A policy from the text of a setting, or a complaint about the text. -/
def ofText (text : String) : Except String NamingPolicy :=
  let key := String.ofList ((lowerAscii text).toList.filter fun c => c ≠ '_' && c ≠ '-')
  match aliases.lookup key with
  | some policy => .ok policy
  | none => .error s!"unknown naming policy '{key}'"

/-- The words for the policies on the wire. -/
def words : List (String × NamingPolicy) :=
  [("identity", identity), ("camel-case", camelCase), ("pascal-case", pascalCase),
   ("snake-case", snakeCase), ("kebab-case", kebabCase)]

/-- The word for the policy on the wire. -/
def name : NamingPolicy → String
  | identity => "identity"
  | camelCase => "camel-case"
  | pascalCase => "pascal-case"
  | snakeCase => "snake-case"
  | kebabCase => "kebab-case"

end NamingPolicy

/-- The characters before the first `::`. -/
def beforeSeparator : List Char → List Char
  | [] => []
  | ':' :: ':' :: _ => []
  | c :: rest => c :: beforeSeparator rest

/-- The last part of the full name of a type, without its parameters. -/
def shortTypeName (full : String) : String :=
  String.ofList (beforeSeparator (full.toList.takeWhile (· ≠ '<')).reverse).reverse

end ItemMapper
