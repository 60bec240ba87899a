/-!
# White space

The characters with the Unicode property White_Space, trimming them from both ends of a text, and
cutting a text into the words between them.

## Main definitions

* `isBlank`: whether a character is white space.
* `trim`: a text without the white space at its ends.
-/

namespace ItemMapper.Unicode

/-- Whether the character is white space. -/
def isBlank (c : Char) : Bool :=
  let code := c.toNat
  (0x9 ≤ code && code ≤ 0xD) || code = 0x20 || code = 0x85 || code = 0xA0 || code = 0x1680 ||
    (0x2000 ≤ code && code ≤ 0x200A) || code = 0x2028 || code = 0x2029 || code = 0x202F ||
    code = 0x205F || code = 0x3000

/-- The characters without the white space at either end. -/
def trimChars (cs : List Char) : List Char :=
  ((cs.dropWhile isBlank).reverse.dropWhile isBlank).reverse

/-- The text without the white space at either end. -/
def trim (text : String) : String := String.ofList (trimChars text.toList)

end ItemMapper.Unicode
