import TypeRules.Rule
import TypeRules.Trace

/-! # Levels

A `Level` is what a document says at one scope: the settings and four lists of rules.

* `Setting` enumerates the single-valued settings, each with the type of its values.
* `Bucket` enumerates the lists.
-/

namespace TypeRules

/-! ## Levels -/

structure Level where
  result : Option ResultRule
  resultStyle : Option ResultStyle
  resultStatus : Option Bool
  single : Option TypeRule
  multi : Option TypeRule
  nullable : Option NullRule
  bodyStyle : Option BodyStyle
  exclude : Bool
  types : List Rule
  schemas : List Rule
  parameters : List Rule
  responses : List Rule
  deriving DecidableEq, Repr

def Level.empty : Level :=
  ⟨none, none, none, none, none, none, none, false, [], [], [], []⟩

instance : Inhabited Level := ⟨Level.empty⟩

def Level.isEmpty (l : Level) : Bool := l == Level.empty

def Level.ruleCount (l : Level) : Nat :=
  l.types.length + l.schemas.length + l.parameters.length + l.responses.length

/-! ## Lists of rules -/

inductive Bucket where
  | types
  | schemas
  | parameters
  | responses
  deriving DecidableEq, Repr

def Level.bucket (l : Level) : Bucket → List Rule
  | .types => l.types
  | .schemas => l.schemas
  | .parameters => l.parameters
  | .responses => l.responses

/-- The container of a list in a trace; the list of parameters is shown with the kind of rule
that is looked for. -/
def Bucket.container (kind : String) : Bucket → Container
  | .types => .types
  | .schemas => .schemas
  | .parameters => .parameters kind
  | .responses => .responses

/-! ## Settings -/

inductive Setting where
  | result
  | resultStyle
  | resultStatus
  | single
  | multi
  | nullable
  | bodyStyle
  deriving DecidableEq, Repr

namespace Setting

def Value : Setting → Type
  | result => ResultRule
  | resultStyle => ResultStyle
  | resultStatus => Bool
  | single => TypeRule
  | multi => TypeRule
  | nullable => NullRule
  | bodyStyle => BodyStyle

def name : Setting → String
  | result => "result"
  | resultStyle => "result-style"
  | resultStatus => "result-status"
  | single => "single"
  | multi => "multi"
  | nullable => "null"
  | bodyStyle => "body-style"

def valueText : (s : Setting) → s.Value → String
  | result, v => ResultRule.text v
  | resultStyle, v => ResultStyle.text v
  | resultStatus, v => cond v "true" "false"
  | single, v => TypeRule.text v
  | multi, v => TypeRule.text v
  | nullable, v => NullRule.text v
  | bodyStyle, v => BodyStyle.text v

/-- A value with the base package in its type names, if it has any. -/
def settle (base : String) : (s : Setting) → s.Value → s.Value
  | result, v => ResultRule.settle base v
  | resultStyle, v => v
  | resultStatus, v => v
  | single, v => TypeRule.settle base v
  | multi, v => TypeRule.settle base v
  | nullable, v => NullRule.settle base v
  | bodyStyle, v => v

end Setting

/-- The value of a setting, if the level has one. -/
def Level.get (l : Level) : (s : Setting) → Option s.Value
  | .result => l.result
  | .resultStyle => l.resultStyle
  | .resultStatus => l.resultStatus
  | .single => l.single
  | .multi => l.multi
  | .nullable => l.nullable
  | .bodyStyle => l.bodyStyle

/-- The level with a value for a setting. -/
def Level.set (l : Level) : (s : Setting) → s.Value → Level
  | .result, v => { l with result := some v }
  | .resultStyle, v => { l with resultStyle := some v }
  | .resultStatus, v => { l with resultStatus := some v }
  | .single, v => { l with single := some v }
  | .multi, v => { l with multi := some v }
  | .nullable, v => { l with nullable := some v }
  | .bodyStyle, v => { l with bodyStyle := some v }

end TypeRules
