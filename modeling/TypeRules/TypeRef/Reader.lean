import TypeRules.Error
import TypeRules.Text.Blank
import TypeRules.Text.Nesting
import TypeRules.TypeRef

/-! # Reading references to types

A reference is written `name` or `name<arg, arg>`, with any blanks around names,
arguments and brackets.

* `TypeRef.readName` accepts a type name.
* `TypeRef.read` accepts a reference; it opens the first angle bracket, wants its partner at
  the very end, and reads what is between as arguments.
-/

namespace TypeRules.TypeRef

open Text

def readName (cs : List Char) : Except ReadFault String :=
  let name := String.ofList (trim cs)
  if isTypeName (trim cs) then .ok name else .error (.invalidTypeName name)

/-- The text behind the first angle bracket is shorter than the text with it. -/
theorem length_lt_of_mem_args {cs name rest inner arg : List Char}
    (hopen : cutAt? (· == '<') (trim cs) = some (name, rest))
    (hclose : withoutSuffix? ['>'] rest = some inner) (harg : arg ∈ splitTop ',' inner) :
    arg.length < cs.length := by
  obtain ⟨c, _, htrim, _⟩ := eq_of_cutAt? hopen
  have h₁ := length_trim_le cs
  have h₂ := congrArg List.length htrim
  have h₃ := congrArg List.length (eq_of_withoutSuffix? hclose)
  have h₄ := length_le_of_mem_splitTop harg
  simp only [List.length_append, List.length_cons] at h₂ h₃
  omega

/-- Reads a reference.  Arguments are read before the name in front of them. -/
def read (cs : List Char) : Except ReadFault TypeRef :=
  match _hopen : cutAt? (· == '<') (trim cs) with
  | none => (readName cs).map ofName
  | some (name, rest) =>
    match _hclose : withoutSuffix? ['>'] rest with
    | none => .error .unbalancedGenerics
    | some inner => do
      let args ← (splitTop ',' inner).attach.mapM fun ⟨arg, _⟩ => read arg
      let name ← readName name
      return mk name args
termination_by cs.length
decreasing_by exact length_lt_of_mem_args _hopen _hclose (by assumption)

end TypeRules.TypeRef
