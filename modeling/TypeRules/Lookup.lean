import TypeRules.Options
import TypeRules.Repository

/-! # Lookups

A lookup walks the levels that concern a query and answers with rules or with a setting.
There are five manners of walking:

* `SingleLookup` — the most specific level with a match decides and must have only one;
* `StackedLookup` — all matches of all levels, the least specific level first;
* `NearestLookup` — all matches of the most specific level that has any;
* `Setting` — the value at the most specific level that has one;
* the lookup of an extension, which has a list of rules of its own.

Each is a `Recorder`, so that it can leave a trace; answers have the base package in place of
the placeholder, traces show rules as they are written.
-/

namespace TypeRules

/-! ## Answers -/

/-- A repository with the options of the run. -/
structure Config where
  repository : Repository
  options : Options
  deriving DecidableEq, Repr

def Config.empty : Config := ⟨Repository.empty, Options.default⟩

/-- The value that was found, and the trace if one was wanted. -/
structure Answer (α : Type) where
  value : α
  trace : Option Trace

/-- Runs a lookup, recording it if the options say so. -/
def Options.traced {α : Type} (o : Options) (title : String) (q : Query) (lookup : Recorder α) :
    Answer α :=
  let (value, recording) := lookup.run (if o.tracing.enabled then some [] else none)
  ⟨value, recording.map fun steps => ⟨title, q.text, steps⟩⟩

/-! ## Rules of one level -/

/-- What a lookup of rules looks for: the beginning of its trace, the kind of rule it names in
messages, the list it looks into, the test for rules, and the kind of rule it picks out. -/
structure RuleLookup where
  title : String
  kind : String
  bucket : Bucket
  matcher : Matcher
  selects : RuleKind
  deriving DecidableEq, Repr

namespace RuleLookup

/-- The place of a level's list in a trace. -/
def place (l : RuleLookup) (scope : Scope) : List Container :=
  scope.place ++ [l.bucket.container l.kind]

/-- The rules of a level that are found.  What is recorded is the verdict of the matcher; only
then the rules that it accepts are picked out by kind. -/
def examine (l : RuleLookup) (q : Query) (entry : Scope × Level) : Recorder (List Rule) := do
  record (l.place entry.1) []
  let accepted ← filterRecorded (l.place entry.1) Rule.text (l.matcher.accepts q)
    (entry.2.bucket l.bucket)
  return accepted.filterMap (Rule.ofKind? l.selects)

/-! ## Walks -/

/-- The only match of the first level that has matches. -/
def single (l : RuleLookup) (q : Query) :
    List (Scope × Level) → Recorder (Except Ambiguity (Option Rule))
  | [] => return .ok none
  | entry :: rest => do
    match ← l.examine q entry with
    -- Only a level without any match is passed over.
    | [] => single l q rest
    | [rule] => return .ok (some rule)
    | rules => return .error ⟨l.kind, entry.1.text, q.text, rules.map Rule.text⟩

/-- The matches of all levels, one after the other. -/
def stacked (l : RuleLookup) (q : Query) : List (Scope × Level) → Recorder (List Rule)
  | [] => return []
  | entry :: rest => do
    let found ← l.examine q entry
    return found ++ (← stacked l q rest)

/-- The matches of the first level that has matches. -/
def nearest (l : RuleLookup) (q : Query) : List (Scope × Level) → Recorder (List Rule)
  | [] => return []
  | entry :: rest => do
    match ← l.examine q entry with
    | [] => nearest l q rest
    | rules => return rules

end RuleLookup

/-! ## Single-winner lookups -/

inductive SingleLookup where
  | type
  | schema
  | parameter
  | parameterName
  | contentType
  deriving DecidableEq, Repr

def SingleLookup.rules : SingleLookup → RuleLookup
  | type => ⟨"looking for type mapping of", "type", .types, .type, .type⟩
  | schema => ⟨"looking for schema type mapping of", "schema", .schemas, .type, .type⟩
  | parameter => ⟨"looking for parameter type mapping of", "type", .parameters, .type, .type⟩
  | parameterName =>
    ⟨"looking for parameter name mapping of", "name", .parameters, .parameterName, .name⟩
  | contentType =>
    ⟨"looking for content type mapping of", "content type", .responses, .contentType, .content⟩

/-- The rule for a query, at most one, or the rules that compete. -/
def Config.single (c : Config) (l : SingleLookup) (q : Query) :
    Answer (Except Ambiguity (Option Rule)) :=
  c.options.traced l.rules.title q do
    let found ← l.rules.single q (c.repository.chain q)
    return found.map fun rule => rule.map (Rule.settle c.options.basePackage)

/-! ## Stacking lookups -/

inductive StackedLookup where
  | annotations
  | schemaAnnotations
  | parameterAnnotations
  | parameterNameAnnotations
  | interfaces
  | parameterInterfaces
  deriving DecidableEq, Repr

def StackedLookup.rules : StackedLookup → RuleLookup
  | annotations =>
    ⟨"looking for annotation type mappings of", "annotation", .types, .annotate, .annotate⟩
  | schemaAnnotations =>
    ⟨"looking for annotation schema mappings of", "annotation", .schemas, .annotate, .annotate⟩
  | parameterAnnotations =>
    ⟨"looking for parameter annotation mappings of", "annotation", .parameters, .annotate,
      .annotate⟩
  | parameterNameAnnotations =>
    ⟨"looking for parameter name annotation mappings of", "annotation name", .parameters,
      .annotateParameter, .annotateName⟩
  | interfaces =>
    ⟨"looking for interface mappings of", "interface", .types, .interface, .interface⟩
  | parameterInterfaces =>
    ⟨"looking for parameter interface mappings of", "interface", .parameters, .interface,
      .interface⟩

/-- The rules for a query, those of the least specific level first. -/
def Config.stacked (c : Config) (l : StackedLookup) (q : Query) : Answer (List Rule) :=
  c.options.traced l.rules.title q do
    let found ← l.rules.stacked q (c.repository.chain q).reverse
    return found.map (Rule.settle c.options.basePackage)

/-! ## Overriding lookups -/

/-- Lookups in which a level hides the less specific ones. -/
inductive NearestLookup where
  | addParameters
  | dropParameters
  deriving DecidableEq, Repr

def NearestLookup.rules : NearestLookup → RuleLookup
  | addParameters =>
    ⟨"looking for additional parameters of", "add", .parameters, .addParameter, .add⟩
  | dropParameters =>
    ⟨"looking for dropped parameters of", "drop", .parameters, .dropParameter, .drop⟩

/-- The rules of the most specific level that has any. -/
def Config.nearest (c : Config) (l : NearestLookup) (q : Query) : Answer (List Rule) :=
  c.options.traced l.rules.title q do
    let found ← l.rules.nearest q (c.repository.chain q)
    return found.map (Rule.settle c.options.basePackage)

/-! ## Settings -/

/-- The beginning of the trace of a setting. -/
def Setting.title : Setting → String
  | result => "looking for result mapping of"
  | resultStyle => "looking for result style of"
  | resultStatus => "looking for result status of"
  | single => "looking for single mapping of"
  | multi => "looking for multi mapping of"
  | nullable => "looking for null mapping of"
  | bodyStyle => "looking for body style of"

/-- The value at the first level that has one; it is recorded. -/
def Setting.first (s : Setting) : List (Scope × Level) → Recorder (Option s.Value)
  | [] => return none
  | (scope, level) :: rest =>
    match level.get s with
    | none => first s rest
    | some v => do
      record scope.place [.leaf (s.name ++ ": " ++ s.valueText v) true]
      return some v

/-- The value of a setting for a query. -/
def Config.setting (c : Config) (s : Setting) (q : Query) : Answer (Option s.Value) :=
  c.options.traced s.title q do
    let found ← s.first (c.repository.chain q)
    return found.map (s.settle c.options.basePackage)

/-! ## Exclusion -/

def recordExcludes : List (Scope × Level) → Recorder Unit
  | [] => return ()
  | (scope, level) :: rest => do
    if level.exclude then record scope.place [.leaf "exclude: true" true]
    recordExcludes rest

/-- Whether the endpoint of a query is left out. -/
def Config.excludes (c : Config) (q : Query) : Answer Bool :=
  c.options.traced "looking for exclude of" q do
    let excluded := c.repository.excludes q
    if excluded then recordExcludes (c.repository.chain q)
    return excluded

/-! ## Extensions -/

/-- The rules of an extension for one value after the other; every rule is recorded for every
value. -/
def extensionMatches (name : String) (rules : List NameAnnotationRule) :
    List String → Recorder (List NameAnnotationRule)
  | [] => return []
  | value :: values => do
    let found ← filterRecorded [.extension name] NameAnnotationRule.text
      (fun rule => rule.name == value) rules
    return found ++ (← extensionMatches name rules values)

/-- The annotation rules of an extension for some values, in the order of the values. -/
def Config.extension (c : Config) (name : String) (values : List String) :
    Answer (List NameAnnotationRule) :=
  c.options.traced "looking for extension annotations of"
      (Query.empty.withName (", ".intercalate values)) do
    record [.extension name] []
    let found ← extensionMatches name (c.repository.extension name) values
    return found.map fun rule =>
      { rule with annotation := rule.annotation.settle c.options.basePackage }

end TypeRules
