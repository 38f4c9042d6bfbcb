import TypeRules.Query
import TypeRules.Rule

/-! # Matchers

Whether a rule applies to a query.  Each matcher is for one kind of rule and accepts no other.

* `Matcher.accepts` decides for all kinds.
* `Query.coversPath` and `Query.coversMethod` decide which endpoint a query is about.

A fact that is missing in the query equals no name that a rule has.  Formats are compared
as they are: a rule without a format is for queries without one.
-/

namespace TypeRules

def arraySource : String := "array"

def objectSource : String := "object"

namespace Query

/-- Whether a path is the one of the query. -/
def coversPath (q : Query) (path : String) : Bool := q.path == some path

/-- Whether path and method are the ones of the query. -/
def coversMethod (q : Query) (path : String) (method : HttpMethod) : Bool :=
  q.coversPath path && q.method == some method

/-- A type rule applies to its source by name; failing that, to primitive types by type, or
else, if its source is `array`, to arrays of any format. -/
def acceptsType (q : Query) (r : TypeRule) : Bool :=
  let fits := r.sourceFormat == q.format
  let is (fact : Option String) := r.sourceName.isSome && r.sourceName == fact && fits
  is q.name || (if q.primitive then is q.type else q.array && r.sourceName == some arraySource)

/-- An annotation rule applies to its source by name or by type; and for `object`, if the
query allows that, in any format. -/
def acceptsAnnotation (q : Query) (r : AnnotationRule) : Bool :=
  let fits := r.source.format == q.format
  (q.name == some r.source.name && fits) || (q.type == some r.source.name && fits) ||
    (q.allowObject && r.source.name == objectSource)

/-- An interface rule applies to its source by name or by type, and for `object` if the query
allows that. -/
def acceptsInterface (q : Query) (r : InterfaceRule) : Bool :=
  q.name == some r.source || q.type == some r.source ||
    (q.allowObject && r.source == objectSource)

end Query

/-! ## Matchers by kind of rule -/

inductive Matcher where
  | type
  | annotate
  | interface
  | parameterName
  | annotateParameter
  | contentType
  | addParameter
  | dropParameter
  deriving DecidableEq, Repr

namespace Matcher

/-- Whether the rule is of the matcher's kind and applies to the query. -/
def accepts (m : Matcher) (q : Query) (r : Rule) : Bool :=
  match m, r with
  | type, .type r => q.acceptsType r
  | annotate, .annotate r => q.acceptsAnnotation r
  | interface, .interface r => q.acceptsInterface r
  | parameterName, .name r => q.name == some r.parameter
  | annotateParameter, .annotateName r => q.name == some r.name
  | contentType, .content r => q.contentType == some r.contentType
  | addParameter, .add _ => true
  | dropParameter, .drop _ => true
  | _, _ => false

end Matcher

end TypeRules
