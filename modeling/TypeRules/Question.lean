import TypeRules.Lookup
import TypeRules.Rule.Json

/-! # Questions

A `Question` is one lookup, by a name that people can type.  Whatever a lookup finds is shown
in two ways: as lines of text, and as JSON values.

* `Question.all` lists the questions, `Question.ofName?` finds one by its name.
* `Config.answer` runs the lookup.
-/

namespace TypeRules

/-! ## Names -/

inductive Question where
  | single (lookup : SingleLookup)
  | setting (setting : Setting)
  | stacked (lookup : StackedLookup)
  | nearest (lookup : NearestLookup)
  | exclude
  | extension
  deriving DecidableEq, Repr

namespace Question

def named : List (String × Question) :=
  [("type", .single .type),
   ("schema", .single .schema),
   ("parameter", .single .parameter),
   ("parameter-name", .single .parameterName),
   ("content-type", .single .contentType),
   ("result", .setting .result),
   ("result-style", .setting .resultStyle),
   ("result-status", .setting .resultStatus),
   ("single", .setting .single),
   ("multi", .setting .multi),
   ("null", .setting .nullable),
   ("body-style", .setting .bodyStyle),
   ("annotations", .stacked .annotations),
   ("schema-annotations", .stacked .schemaAnnotations),
   ("parameter-annotations", .stacked .parameterAnnotations),
   ("parameter-name-annotations", .stacked .parameterNameAnnotations),
   ("interfaces", .stacked .interfaces),
   ("parameter-interfaces", .stacked .parameterInterfaces),
   ("add-parameters", .nearest .addParameters),
   ("drop-parameters", .nearest .dropParameters),
   ("exclude", .exclude),
   ("extension", .extension)]

def all : List Question := named.map Prod.snd

def ofName? (name : String) : Option Question := named.lookup name

end Question

/-! ## Findings -/

/-- Something that was found, as text and as JSON. -/
structure Finding where
  text : String
  json : Json

def Finding.ofRule (r : Rule) : Finding := ⟨r.text, r.toJson⟩

def Finding.ofBool (b : Bool) : Finding := ⟨if b then "true" else "false", .bool b⟩

/-- A rule of an extension that was found. -/
def Finding.ofNameAnnotation (r : NameAnnotationRule) : Finding := ⟨r.text, r.toJson⟩

def Setting.valueJson : (s : Setting) → s.Value → Json
  | result, v => ResultRule.toJson v
  | resultStyle, v => .string (ResultStyle.text v)
  | resultStatus, v => .bool v
  | single, v => TypeRule.toJson v
  | multi, v => TypeRule.toJson v
  | nullable, v => NullRule.toJson v
  | bodyStyle, v => .string (BodyStyle.text v)

/-- A value of a setting that was found. -/
def Finding.ofSetting (s : Setting) (v : s.Value) : Finding := ⟨s.valueText v, s.valueJson v⟩

/-! ## Answers -/

/-- The same answer with its value seen in another way. -/
def Answer.map {α β : Type} (f : α → β) (a : Answer α) : Answer β := ⟨f a.value, a.trace⟩

/-- A question about a query.  The question about an extension is about its name and some
values instead. -/
structure Request where
  question : Question
  query : Query
  extension : Option String
  values : List String

def Config.answer (c : Config) (r : Request) : Answer (Except Error (List Finding)) :=
  match r.question with
  | .single l =>
    (c.single l r.query).map fun found =>
      match found with
      | .ok rule => .ok (rule.toList.map Finding.ofRule)
      | .error ambiguity => .error (.ambiguous ambiguity)
  | .setting s => (c.setting s r.query).map fun v => .ok (v.toList.map (Finding.ofSetting s))
  | .stacked l => (c.stacked l r.query).map fun rules => .ok (rules.map Finding.ofRule)
  | .nearest l => (c.nearest l r.query).map fun rules => .ok (rules.map Finding.ofRule)
  | .exclude => (c.excludes r.query).map fun b => .ok [Finding.ofBool b]
  | .extension =>
    match r.extension with
    | none => ⟨.error .noExtension, none⟩
    | some name =>
      (c.extension name r.values).map fun rules => .ok (rules.map Finding.ofNameAnnotation)

end TypeRules
