import TypeRules.Annotation
import TypeRules.Error
import TypeRules.Source
import TypeRules.TypeRef

/-! # Rules

A document consists of rules of eight kinds, which stand in lists, and of settings, of which
a level has at most one each.  Every rule

* has a `text`, which is how it is shown,
* can be settled: its type names get the base package in place of the placeholder.

The settings with a type of their own are the result envelope (`ResultRule`) and the null
wrapper (`NullRule`), and the two closed vocabularies `BodyStyle` and `ResultStyle`.
-/

namespace TypeRules

/-! ## Rules in lists -/

/-- A type that stands for another one.  The source is missing where something else than a
type decides whether the rule applies. -/
structure TypeRule where
  sourceName : Option String
  sourceFormat : Option String
  target : TypeRef
  primitive : Bool
  primitiveArray : Bool
  deriving DecidableEq, Repr

/-- The type of the parameter of a certain name. -/
structure NameRule where
  parameter : String
  mapping : TypeRule
  deriving DecidableEq, Repr

/-- The type of a response with a certain content type. -/
structure ContentRule where
  contentType : String
  mapping : TypeRule
  deriving DecidableEq, Repr

structure AnnotationRule where
  source : Source
  annotation : Annotation
  deriving DecidableEq, Repr

/-- An annotation for the parameter of a certain name, or for a value of an extension. -/
structure NameAnnotationRule where
  name : String
  annotation : Annotation
  deriving DecidableEq, Repr

structure InterfaceRule where
  source : String
  type : TypeRef
  deriving DecidableEq, Repr

structure AddRule where
  parameter : String
  mapping : TypeRule
  annotation : Option Annotation
  deriving DecidableEq, Repr

structure DropRule where
  parameter : String
  deriving DecidableEq, Repr

/-- A rule of any of the eight kinds. -/
inductive Rule where
  | type (rule : TypeRule)
  | name (rule : NameRule)
  | content (rule : ContentRule)
  | annotate (rule : AnnotationRule)
  | annotateName (rule : NameAnnotationRule)
  | interface (rule : InterfaceRule)
  | add (rule : AddRule)
  | drop (rule : DropRule)
  deriving DecidableEq, Repr

/-! ## Kinds -/

inductive RuleKind where
  | type
  | name
  | content
  | annotate
  | annotateName
  | interface
  | add
  | drop
  deriving DecidableEq, Repr

def Rule.kind : Rule → RuleKind
  | .type _ => .type
  | .name _ => .name
  | .content _ => .content
  | .annotate _ => .annotate
  | .annotateName _ => .annotateName
  | .interface _ => .interface
  | .add _ => .add
  | .drop _ => .drop

/-- The rule itself, if it is of a certain kind. -/
def Rule.ofKind? (kind : RuleKind) (r : Rule) : Option Rule :=
  if r.kind = kind then some r else none

/-! ## Settings -/

/-- The envelope of responses: none (`plain`), a wrapper, or with the source `plain` a type
that takes the place of the response. -/
structure ResultRule where
  source : Option String
  target : TypeRef
  deriving DecidableEq, Repr

/-- The wrapper of values that may be null, with what a value is initialised to. -/
structure NullRule where
  target : TypeRef
  initial : Option String
  deriving DecidableEq, Repr

/-- How the body of a request is passed on. -/
inductive BodyStyle where
  | object
  | destructure
  deriving DecidableEq, Repr

/-- Which responses make up the result of an endpoint. -/
inductive ResultStyle where
  | success
  | all
  deriving DecidableEq, Repr

/-! ## Texts -/

/-- A type rule without a source is only its target. -/
def TypeRule.text (r : TypeRule) : String :=
  if r.sourceName.isNone && r.sourceFormat.isNone then r.target.text
  else
    Source.textOf r.sourceName r.sourceFormat ++ " => " ++ r.target.text ++
      (if r.primitiveArray then "[]" else "")

def NameRule.text (r : NameRule) : String := r.parameter ++ " => " ++ r.mapping.target.text

/-- A content type and the type of its responses. -/
def ContentRule.text (r : ContentRule) : String :=
  r.contentType ++ " => " ++ r.mapping.target.text

def AnnotationRule.text (r : AnnotationRule) : String :=
  Source.textOf (some r.source.name) r.source.format ++ " @ " ++ r.annotation.text

def NameAnnotationRule.text (r : NameAnnotationRule) : String :=
  r.name ++ " @ " ++ r.annotation.text

def InterfaceRule.text (r : InterfaceRule) : String := r.source ++ " =+ " ++ r.type.text

/-- An additional parameter with its annotation and type. -/
def AddRule.text (r : AddRule) : String :=
  "add: " ++ r.parameter ++ " => " ++
    (match r.annotation with | some annotation => annotation.text ++ " " | none => "") ++
    r.mapping.target.text

def DropRule.text (r : DropRule) : String := "drop: " ++ r.parameter

def Rule.text : Rule → String
  | .type r => r.text
  | .name r => r.text
  | .content r => r.text
  | .annotate r => r.text
  | .annotateName r => r.text
  | .interface r => r.text
  | .add r => r.text
  | .drop r => r.text

/-- An envelope, behind its source if it has one. -/
def ResultRule.text (r : ResultRule) : String :=
  (match r.source with | some source => source ++ " => " | none => "") ++ r.target.text

def NullRule.text (r : NullRule) : String :=
  "null => " ++ r.target.text ++
    (match r.initial with | some initial => " = " ++ initial | none => "")

def BodyStyle.text : BodyStyle → String
  | object => "object"
  | destructure => "destructure"

def ResultStyle.text : ResultStyle → String
  | success => "success"
  | all => "all"

/-! ## Vocabularies -/

/-- The body style of a word, which may have blanks around it and be in any ASCII case. -/
def BodyStyle.read (word : String) : Except UnknownWord BodyStyle :=
  match [object, destructure].find? fun style =>
      style.text == (Text.trimString word).toLower with
  | some style => .ok style
  | none => .error (.bodyStyle word)

/-- The result style of a word, which may have blanks around it and be in any ASCII case. -/
def ResultStyle.read (word : String) : Except UnknownWord ResultStyle :=
  match [success, all].find? fun style =>
      style.text == (Text.trimString word).toLower with
  | some style => .ok style
  | none => .error (.resultStyle word)

/-! ## The base package -/

/-- The rule with the base package in its target. -/
def TypeRule.settle (base : String) (r : TypeRule) : TypeRule :=
  { r with target := r.target.settle base }

/-- The rule with the base package in its type names. -/
def Rule.settle (base : String) : Rule → Rule
  | .type r => .type (r.settle base)
  | .name r => .name { r with mapping := r.mapping.settle base }
  | .content r => .content { r with mapping := r.mapping.settle base }
  | .annotate r => .annotate { r with annotation := r.annotation.settle base }
  | .annotateName r => .annotateName { r with annotation := r.annotation.settle base }
  | .interface r => .interface { r with type := r.type.settle base }
  | .add r =>
    .add { r with
      mapping := r.mapping.settle base
      annotation := r.annotation.map fun a => a.settle base }
  | .drop r => .drop r

/-- The envelope with the base package in its target. -/
def ResultRule.settle (base : String) (r : ResultRule) : ResultRule :=
  { r with target := r.target.settle base }

/-- The null wrapper with the base package in its target. -/
def NullRule.settle (base : String) (r : NullRule) : NullRule :=
  { r with target := r.target.settle base }

/-! ## Plain targets -/

def TypeRule.isPlain (r : TypeRule) : Bool := r.target.isPlain

def ResultRule.isPlain (r : ResultRule) : Bool := r.source.isNone && r.target.isPlain

/-- The target takes the place of the response. -/
def ResultRule.isReplacement (r : ResultRule) : Bool := r.source == some plainName

end TypeRules
