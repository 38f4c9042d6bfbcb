import TypeRules.Annotation.Value
import TypeRules.TypeRef

/-! # Annotations

An annotation is a type name with parameters, which keep the order they were first written
in.  A parameter without a key has the empty key.

* `Annotation.set` gives a parameter a value.
* `Annotation.text` writes it as `io.Bar(a = 1, b = 2)`.
-/

namespace TypeRules

structure Annotation where
  typeName : String
  parameters : List (String × ParameterValue)
  deriving DecidableEq, Repr, Inhabited

namespace Annotation

def ofName (typeName : String) : Annotation := ⟨typeName, []⟩

/-- The parameters with one more; a key that is there already keeps its place and takes the
new value. -/
def setIn (key : String) (value : ParameterValue) :
    List (String × ParameterValue) → List (String × ParameterValue)
  | [] => [(key, value)]
  | (k, v) :: rest => if k = key then (key, value) :: rest else (k, v) :: setIn key value rest

def set (a : Annotation) (key : String) (value : ParameterValue) : Annotation :=
  { a with parameters := setIn key value a.parameters }

def parameterText : String × ParameterValue → String
  | (key, value) => if key = "" then value.text else key ++ " = " ++ value.text

/-- The annotation as it is written in a rule. -/
def text (a : Annotation) : String :=
  if a.parameters.isEmpty then a.typeName
  else a.typeName ++ "(" ++ ", ".intercalate (a.parameters.map parameterText) ++ ")"

/-- The annotation with the base package in place of the placeholder in its name.  Its
parameters are texts of their own and stay. -/
def settle (base : String) (a : Annotation) : Annotation :=
  { a with typeName := TypeRef.settleName base a.typeName }

end Annotation

end TypeRules
