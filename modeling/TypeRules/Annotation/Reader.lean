import TypeRules.Annotation
import TypeRules.TypeRef.Reader

/-! # Reading annotations

An annotation is written `name` or `name(key = value, key = value)`, where a parameter may
also be a value alone.

* `Annotation.readParameter` reads one parameter.
* `Annotation.read` reads a whole annotation; it opens the first parenthesis and wants its
  partner at the very end.
-/

namespace TypeRules.Annotation

open Text

/-- Reads one parameter: a key and a value around the first exposed equals sign, or a value
alone under the empty key. -/
def readParameter (cs : List Char) : Except ReadFault (String × ParameterValue) :=
  let (key, value) :=
    match cutTopAt? '=' cs with
    | some (key, value) => (trim key, trim value)
    | none => ([], trim cs)
  if value.isEmpty then .error .emptyParameter
  else .ok (String.ofList key, ParameterValue.read value)

/-- Reads parameters into an annotation, one after the other. -/
def readParameters : Annotation → List (List Char) → Except ReadFault Annotation
  | a, [] => .ok a
  | a, piece :: pieces => do
    let (key, value) ← readParameter piece
    readParameters (a.set key value) pieces

def read (cs : List Char) : Except ReadFault Annotation :=
  match cutAt? (· == '(') (trim cs) with
  | none => (TypeRef.readName cs).map ofName
  | some (name, rest) =>
    match withoutSuffix? [')'] (trimEnd rest) with
    | none => .error .unbalancedParameters
    | some inner => do
      let name ← TypeRef.readName name
      if (trim inner).isEmpty then return ofName name
      readParameters (ofName name) (splitTop ',' inner)

end TypeRules.Annotation
