import TypeRules.Document
import TypeRules.Level
import TypeRules.Phrase.Reader

/-! # Rules of a document

Every place of a document takes rule texts of a certain shape.  A text is read as a phrase,
and the place makes a rule of it or refuses it.

* `ResultRule.read`, `TypeRule.readWrapper` and `NullRule.read` are for settings.
* `Entry.typeRule`, `ParameterEntry.rule`, `Entry.contentRule` and `NameAnnotationRule.read`
  are for the entries of lists.
* `Clauses.level` makes a level of all that a block says about its scope.
-/

namespace TypeRules

open Text

/-! ## Targets -/

/-- Reads a type argument that is given apart. -/
def readGeneric (text : String) : Except Error TypeRef := do
  match ← Phrase.readText text with
  | .target target => return target.type
  | .name name =>
    if name = wildcardName then return .ofName name else throw (.misplaced text .generic)
  | _ => throw (.misplaced text .generic)

/-- A type with the arguments that are given apart, unless it has arguments itself. -/
def TypeRef.applyTo (type : TypeRef) (generics : List String) : Except Error TypeRef :=
  if type.args.isEmpty then (generics.mapM readGeneric).map (TypeRef.mk type.name)
  else .ok type

def Target.rule (target : Target) (source : Option Source) (generics : List String) :
    Except Error TypeRule := do
  let type ← target.type.applyTo generics
  return ⟨source.map Source.name, source.bind Source.format, type, target.primitive, target.array⟩

/-! ## Settings -/

/-- Reads an envelope: a target, or one that takes the place of plain responses. -/
def ResultRule.read (text : String) : Except Error ResultRule := do
  match ← Phrase.readText text with
  | .target target => return ⟨none, target.type⟩
  | .map source _ target =>
    if source.name = plainName then return ⟨some plainName, target.type⟩
    else throw (.misplaced text .result)
  | _ => throw (.misplaced text .result)

/-- Reads a wrapper of single values or collections.  Its source is the name of its place. -/
def TypeRule.readWrapper (position : Position) (text : String) : Except Error TypeRule := do
  match ← Phrase.readText text with
  | .target target =>
    if target.primitive then throw (.misplaced text position)
    else return ⟨some position.text, none, target.type, false, false⟩
  | _ => throw (.misplaced text position)

/-- What separates a null wrapper from its initialiser. -/
def initialSeparator : List Char := " = ".toList

/-- Reads a null wrapper, with an initialiser or without one. -/
def NullRule.read (text : String) : Except Error NullRule := do
  let (front, initial) := match cutAtPhrase? initialSeparator text.toList with
    | some (front, back) => (String.ofList front, some (String.ofList (trim back)))
    | none => (text, none)
  match ← Phrase.readText front with
  | .target target => return ⟨target.type, initial⟩
  | _ => throw (.misplaced text .nullable)

/-! ## Entries -/

/-- The rule of an entry about types or schemas. -/
def Entry.typeRule (e : Entry) : Except Error Rule := do
  match ← Phrase.readText e.rule with
  | .map source none target => return .type (← target.rule (some source) e.generics)
  | .annotate source annotation => return .annotate ⟨source, annotation⟩
  | .implement source type => return .interface ⟨source.name, ← type.applyTo e.generics⟩
  | _ => throw (.misplaced e.rule .type)

/-- The rule of an entry about a parameter of some name. -/
def Entry.nameRule (e : Entry) : Except Error Rule := do
  match ← Phrase.readText e.rule with
  | .map source none target =>
    return .name ⟨source.name, ← target.rule (some ⟨source.name, none⟩) e.generics⟩
  | .annotate source annotation => return .annotateName ⟨source.name, annotation⟩
  | _ => throw (.misplaced e.rule .parameterName)

/-- The rule of an entry about an additional parameter. -/
def Entry.addRule (e : Entry) : Except Error Rule := do
  match ← Phrase.readText e.rule with
  | .map source annotation target =>
    return .add ⟨source.name, ← target.rule none e.generics, annotation⟩
  | _ => throw (.misplaced e.rule .addParameter)

/-- The rule about a parameter to do without. -/
def DropRule.read (text : String) : Except Error DropRule :=
  let parameter := trimString text
  if parameter = "" then .error (.misplaced text .dropParameter) else .ok ⟨parameter⟩

def ParameterEntry.rule : ParameterEntry → Except Error Rule
  | name entry => entry.nameRule
  | add entry => entry.addRule
  | drop parameter => (DropRule.read parameter).map .drop
  | type entry => entry.typeRule

def Entry.contentRule (e : Entry) : Except Error Rule := do
  match ← Phrase.readText e.rule with
  | .map source none target => return .content ⟨source.name, ← target.rule none e.generics⟩
  | _ => throw (.misplaced e.rule .response)

def NameAnnotationRule.read (text : String) : Except Error NameAnnotationRule := do
  match ← Phrase.readText text with
  | .annotate source annotation => return ⟨source.name, annotation⟩
  | _ => throw (.misplaced text .extension)

/-! ## Levels -/

/-- The level of a scope; the first rule that is refused decides in case of errors. -/
def Clauses.level (c : Clauses) : Except Error Level := do
  let result ← c.result.mapM ResultRule.read
  let single ← c.single.mapM (TypeRule.readWrapper .single)
  let multi ← c.multi.mapM (TypeRule.readWrapper .multi)
  let nullable ← c.nullable.mapM NullRule.read
  let types ← c.types.mapM Entry.typeRule
  let schemas ← c.schemas.mapM Entry.typeRule
  let parameters ← c.parameters.mapM ParameterEntry.rule
  let responses ← c.responses.mapM Entry.contentRule
  return {
    result, single, multi, nullable, types, schemas, parameters, responses
    resultStyle := c.resultStyle
    resultStatus := c.resultStatus
    bodyStyle := c.bodyStyle
    exclude := c.exclude }

end TypeRules
