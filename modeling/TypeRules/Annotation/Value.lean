import TypeRules.Text.Blank
import TypeRules.Text.Cut
import TypeRules.TypeRef.Name

/-! # Parameter values of annotations

A value is kept as the text to be written behind the key, together with the type that has
to be imported for it.

* `ParameterValue` — a literal, a class reference or a qualified constant.
* `ParameterValue.read` classifies a text.  What it moves into the import is the path up to
  the first segment that begins with a capital; text and import together give the text back.
-/

namespace TypeRules

open Text

inductive ParameterValue where
  | simple (text : String)
  | classRef (text : String) (imported : Option String)
  | qualified (text : String) (imported : Option String)
  deriving DecidableEq, Repr, Inhabited

namespace ParameterValue

def text : ParameterValue → String
  | simple text => text
  | classRef text _ => text
  | qualified text _ => text

def imported : ParameterValue → Option String
  | simple _ => none
  | classRef _ imported => imported
  | qualified _ imported => imported

/-! ## Classification -/

def classSuffix : List Char := ".class".toList

/-- Two or more identifiers with dots between them. -/
def isQualified (cs : List Char) : Bool :=
  cs.contains '.' && isDotted isIdentifierStart isIdentifierNext cs

/-- A segment of a dotted text that names a type: it begins with an ASCII capital. -/
def isTypeSegment (segment : List Char) : Bool :=
  match segment with
  | [] => false
  | c :: _ => c.isUpper

/-- Reads a class reference from the text before `.class`: the path before its last segment
moves into the import. -/
def ofClass (path : List Char) : ParameterValue :=
  match cutAtLast? '.' path with
  | some (_, last) =>
    classRef (String.ofList (last ++ classSuffix)) (some (String.ofList path))
  | none => classRef (String.ofList (path ++ classSuffix)) none

/-- Reads a dotted text: what stands before the first segment that names a type moves into
the import, unless nothing does. -/
def ofQualified (cs : List Char) : ParameterValue :=
  let segments := splitAll '.' cs
  let front := segments.takeWhile fun segment => !isTypeSegment segment
  match front, segments.dropWhile fun segment => !isTypeSegment segment with
  | _ :: _, type :: rest =>
    qualified (String.ofList (joinWith ['.'] (type :: rest)))
      (some (String.ofList (joinWith ['.'] (front ++ [type]))))
  | _, _ => qualified (String.ofList cs) none

def read (text : List Char) : ParameterValue :=
  let cs := trim text
  if cs.head? = some '"' then simple (String.ofList cs)
  else
    match withoutSuffix? classSuffix cs with
    | some path => ofClass path
    | none => if isQualified cs then ofQualified cs else simple (String.ofList cs)

end ParameterValue

end TypeRules
