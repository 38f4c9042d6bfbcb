import TypeRules.HttpMethod
import TypeRules.Json
import TypeRules.Rule

/-! # Rules as JSON

The JSON form of rules and of their parts.  Fields have a fixed order.

* `Rule.fields` are the fields of a rule, `Rule.toJson` is the object of them.
* `Rule.kindName` names the kind of a rule, `Rule.toTaggedJson` puts it in front.
-/

namespace TypeRules

/-! ## Parts -/

mutual

def TypeRef.toJson : TypeRef → Json
  | .mk name args =>
    .object [("type_name", .string name), ("generics", .array (TypeRef.argsToJson args))]

def TypeRef.argsToJson : List TypeRef → List Json
  | [] => []
  | a :: as => a.toJson :: TypeRef.argsToJson as

end

/-- A parameter value with its kind; a literal has no import. -/
def ParameterValue.toJson : ParameterValue → Json
  | .simple text => .object [("kind", .string "simple"), ("value", .string text)]
  | .classRef text imported =>
    .object [("kind", .string "class"), ("value", .string text), ("import", .ofText imported)]
  | .qualified text imported =>
    .object
      [("kind", .string "qualified"), ("value", .string text), ("import", .ofText imported)]

/-- An annotation with its parameters as fields of one object. -/
def Annotation.toJson (a : Annotation) : Json :=
  .object
    [("type_name", .string a.typeName),
     ("parameters", .object (a.parameters.map fun (key, value) => (key, value.toJson)))]

/-! ## Rules -/

def TypeRule.fields (r : TypeRule) : List (String × Json) :=
  [("source_type_name", .ofText r.sourceName), ("source_type_format", .ofText r.sourceFormat),
   ("target", r.target.toJson), ("primitive", .bool r.primitive),
   ("primitive_array", .bool r.primitiveArray)]

def TypeRule.toJson (r : TypeRule) : Json := .object r.fields

def NameAnnotationRule.fields (r : NameAnnotationRule) : List (String × Json) :=
  [("name", .string r.name), ("annotation", r.annotation.toJson)]

def NameAnnotationRule.toJson (r : NameAnnotationRule) : Json := .object r.fields

def Rule.fields : Rule → List (String × Json)
  | .type r => r.fields
  | .name r => [("parameter_name", .string r.parameter), ("mapping", r.mapping.toJson)]
  | .content r => [("content_type", .string r.contentType), ("mapping", r.mapping.toJson)]
  | .annotate r =>
    [("source_type_name", .string r.source.name), ("source_type_format", .ofText r.source.format),
     ("annotation", r.annotation.toJson)]
  | .annotateName r => r.fields
  | .interface r => [("source_type_name", .string r.source), ("target", r.type.toJson)]
  | .add r =>
    [("parameter_name", .string r.parameter), ("mapping", r.mapping.toJson),
     ("annotation", .ofOption (r.annotation.map Annotation.toJson))]
  | .drop r => [("parameter_name", .string r.parameter)]

def Rule.toJson (r : Rule) : Json := .object r.fields

/-- The name of the kind of a rule. -/
def Rule.kindName : Rule → String
  | .type _ => "type"
  | .name _ => "name"
  | .content _ => "content-type"
  | .annotate _ => "annotation"
  | .annotateName _ => "annotation-name"
  | .interface _ => "interface"
  | .add _ => "add-parameter"
  | .drop _ => "drop-parameter"

/-- A rule as an object that also tells its kind. -/
def Rule.toTaggedJson (r : Rule) : Json := .object (("rule", .string r.kindName) :: r.fields)

/-! ## Settings -/

def ResultRule.toJson (r : ResultRule) : Json :=
  .object [("source_type_name", .ofText r.source), ("target", r.target.toJson)]

def NullRule.toJson (r : NullRule) : Json :=
  .object [("target", r.target.toJson), ("undefined", .ofText r.initial)]

end TypeRules
