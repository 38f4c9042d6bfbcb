import TypeRules.Annotation
import TypeRules.Source
import TypeRules.TypeRef

/-! # Phrases

A `Phrase` is what one rule text says, before its place in a document is known: a bare name
or type, or a source with an operator.

* `source => target`, where an annotation may precede the target,
* `source @ annotation`,
* `source =+ type`, also written `source implement type`.
-/

namespace TypeRules

/-- A target type.  An array is marked apart, since only primitive types have arrays. -/
structure Target where
  type : TypeRef
  primitive : Bool
  array : Bool
  deriving DecidableEq, Repr

inductive Phrase where
  /-- A name that is not recognisably a type. -/
  | name (text : String)
  | target (target : Target)
  | map : Source → Option Annotation → Target → Phrase
  | annotate : Source → Annotation → Phrase
  | implement : Source → TypeRef → Phrase
  deriving DecidableEq, Repr

namespace Phrase

/-- The source of a phrase with an operator. -/
def source? : Phrase → Option Source
  | map source _ _ => some source
  | annotate source _ => some source
  | implement source _ => some source
  | _ => none

def annotation? : Phrase → Option Annotation
  | map _ annotation _ => annotation
  | annotate _ annotation => some annotation
  | _ => none

/-- The target or interface type, if the phrase has one. -/
def type? : Phrase → Option TypeRef
  | target t => some t.type
  | map _ _ t => some t.type
  | implement _ type => some type
  | _ => none

end Phrase

end TypeRules
