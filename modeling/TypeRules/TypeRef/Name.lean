import TypeRules.Text.Cut
import TypeRules.Text.Word

/-! # Type names

A type is named by segments with dots between them, or by the wildcard `?`.  The braces
and the minus among the characters of a segment admit the package placeholder in names.

* `isTypeName` decides which texts are type names.
* `primitiveNames`, `plainName` and `wildcardName` are the names with a meaning of their own.
-/

namespace TypeRules

open Text

/-! ## The pattern -/

/-- The pieces of a dotted text, each with a first character from one class and all others
from a second one. -/
def isDotted (first next : Char → Bool) (cs : List Char) : Bool :=
  (splitAll '.' cs).all fun segment =>
    match segment with
    | [] => false
    | c :: rest => first c && rest.all next

/-- The first character of an identifier: an ASCII letter, `_` or `$`. -/
def isIdentifierStart (c : Char) : Bool := c.isAlpha || c == '_' || c == '$'

def isIdentifierNext (c : Char) : Bool := isWord c || c == '$'

/-- The first character of a segment of a type name. -/
def isNameStart (c : Char) : Bool := isIdentifierStart c || c == '\x7b'

/-- A later character of a segment of a type name. -/
def isNameNext (c : Char) : Bool :=
  isIdentifierNext c || c == '\x7b' || c == '\x7d' || c == '-'

def isTypeName (cs : List Char) : Bool :=
  cs == ['?'] || isDotted isNameStart isNameNext cs

/-! ## Names with a meaning -/

def primitiveNames : List String :=
  ["byte", "short", "int", "long", "float", "double", "boolean", "char"]

/-- The target that stands for "no other type than the one at hand". -/
def plainName : String := "plain"

def wildcardName : String := "?"

end TypeRules
