import TypeRules.Text.Blank
import TypeRules.Text.Cut

/-! # Sources

What a rule applies to is named by a type with an optional format, written `type:format`.
Queries name the type at hand in the same way.

* `Source.read` cuts such a text at its first colon.
* `Source.readRule` is the reading for the left side of a rule, where a text with a slash is
  a content type and has no format.
* `Source.textOf` writes name and format.
-/

namespace TypeRules

open Text

structure Source where
  name : String
  format : Option String
  deriving DecidableEq, Repr, Inhabited

namespace Source

/-- A text that is empty counts as missing. -/
def formatOf (cs : List Char) : Option String :=
  if cs.isEmpty then none else some (String.ofList cs)

def read (cs : List Char) : Source :=
  match cutAt? (· == ':') cs with
  | some (name, format) => ⟨String.ofList (trim name), formatOf (trim format)⟩
  | none => ⟨String.ofList (trim cs), none⟩

/-- Reads the left side of a rule: a text with a slash is a name as a whole. -/
def readRule (cs : List Char) : Source :=
  if cs.contains '/' then ⟨String.ofList (trim cs), none⟩ else read cs

/-- A name and a format, either of which may be missing, as they are written in a rule. -/
def textOf (name format : Option String) : String :=
  name.getD "" ++ (match format with | some format => ":" ++ format | none => "")

end Source

end TypeRules
