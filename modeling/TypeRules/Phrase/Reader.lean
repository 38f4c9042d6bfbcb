import TypeRules.Annotation.Reader
import TypeRules.Phrase
import TypeRules.TypeRef.Reader

/-! # Reading phrases

A rule text is cut at its first exposed operator.  The parts are read on their own, each
with any blanks around it.

* `Operator.cut?` finds the operator.
* `Target.read` reads a target type with the array marker.
* `Phrase.cutAnnotation` separates an annotation from the target behind it.
* `Phrase.read` reads a whole rule text.
-/

namespace TypeRules

open Text

/-! ## Operators -/

/-- What stands between the source of a rule and the rest. -/
inductive Operator where
  | map
  | annotate
  | implement
  deriving DecidableEq, Repr

namespace Operator

def implementWord : List Char := " implement ".toList

/-- The operator at the beginning of a text, and the text behind it. -/
def atStart? : List Char → Option (Operator × List Char)
  | '=' :: '>' :: rest => some (map, rest)
  | '=' :: '+' :: rest => some (implement, rest)
  | '@' :: rest => some (annotate, rest)
  | cs => (withoutPrefix? implementWord cs).map fun rest => (implement, rest)

/-- The first exposed operator of a text, with the text before and behind it. -/
def cut? (cs : List Char) : Option (List Char × Operator × List Char) := do
  let (left, rest) ← cutTop? (fun cs => (atStart? cs).isSome) cs
  let (operator, right) ← atStart? rest
  return (left, operator, right)

end Operator

/-! ## Targets -/

def arrayMarker : List Char := "[]".toList

/-- Reads a target type.  It is primitive if it has the name of a primitive type and no
arguments, and only then it may be marked as an array. -/
def Target.read (cs : List Char) : Except ReadFault Target := do
  let text := trim cs
  let base := withoutSuffix? arrayMarker text
  let type ← TypeRef.read (base.getD text)
  let primitive := type.args.isEmpty && primitiveNames.contains type.name
  if base.isSome && !primitive then throw .arrayOfReference
  return ⟨type, primitive, base.isSome⟩

/-! ## Phrases -/

namespace Phrase

/-- Whether a target begins behind this place: there is a blank, and neither type arguments
nor parameters follow it. -/
def startsTarget (cs : List Char) : Bool :=
  match cs with
  | [] => false
  | c :: _ =>
    isBlank c &&
      match trimStart cs with
      | [] => false
      | d :: _ => d != '<' && d != '('

/-- Separates an annotation from the target type behind it. -/
def cutAnnotation (cs : List Char) : Option (List Char) × List Char :=
  match cutTop? startsTarget cs with
  | some (front, back) => (some (trim front), trim back)
  | none => (none, cs)

/-- Whether a text without an operator is a target type: it is dotted, has arguments, or is
one of the names that stand for themselves. -/
def looksLikeType (cs : List Char) : Bool :=
  let base := (withoutSuffix? arrayMarker cs).getD cs
  base.contains '.' || base.contains '<' || String.ofList base == plainName ||
    primitiveNames.contains (String.ofList base)

def readSides (source : Source) (operator : Operator) (right : List Char) :
    Except ReadFault Phrase :=
  match operator with
  | .map => do
    let (front, back) := cutAnnotation right
    let annotation ← front.mapM Annotation.read
    return map source annotation (← Target.read back)
  | .annotate => do return annotate source (← Annotation.read right)
  | .implement => do return implement source (← TypeRef.read right)

/-- Reads a text without an operator, which has no blanks around it. -/
def readBare (cs : List Char) : Except ReadFault Phrase :=
  if looksLikeType cs then (Target.read cs).map target else .ok (name (String.ofList cs))

/-- Reads a text, and tells the reason if that fails. -/
def readText (text : String) : Except Error Phrase :=
  let cs := trim text.toList
  if cs.isEmpty then .error (.unreadable text .empty)
  else
    match Operator.cut? cs with
    -- A text without an operator is quoted without the blanks around it.
    | none => (readBare cs).mapError (.unreadable (String.ofList cs))
    | some (left, operator, right) =>
      if (trim left).isEmpty then .error (.unreadable text .missingSource)
      else if (trim right).isEmpty then .error (.unreadable text .missingTarget)
      else
        (readSides (Source.readRule (trim left)) operator (trim right)).mapError
          (.unreadable text)

end Phrase

end TypeRules
