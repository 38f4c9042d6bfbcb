import TypeRules.DataType
import TypeRules.Lookup

/-! # Wrappers

A configuration can wrap data types: responses in an envelope, single values and collections
in reactive types, values that may be null in a null-safe type.

* `Options.generics` turns the arguments of a configured type into arguments of a wrapper.
* `Wrapper` enumerates the wrappers, `Config.wrap` applies one of them.
-/

namespace TypeRules

open Text

/-! ## Arguments -/

/-- The simple name of an argument.  Names that begin with the base package are those of
generated models and get the suffix. -/
def Options.genericName (o : Options) (name : String) : String :=
  -- The test is on characters, so a package beside the base package can pass it.
  if o.basePackage.toList.isPrefixOf name.toList then o.modelName (TypeRef.simpleOf name)
  else TypeRef.simpleOf name

mutual

/-- An argument of a configured type as an argument of a wrapper. -/
def Options.generic (o : Options) : TypeRef → GenericType
  | .mk name args => .mk ⟨o.genericName name, TypeRef.packageOf name⟩ (o.genericsOf args)

/-- Several arguments of a configured type as arguments of a wrapper. -/
def Options.genericsOf (o : Options) : List TypeRef → List GenericType
  | [] => []
  | a :: as => o.generic a :: o.genericsOf as

end

/-- The arguments of a configured type as arguments of a wrapper. -/
def Options.generics (o : Options) (target : TypeRef) : List GenericType :=
  o.genericsOf target.args

/-! ## Wrapping -/

inductive Wrapper where
  | result
  | single
  | multi
  | nullable
  deriving DecidableEq, Repr

/-- No content is boxed when it comes directly into an envelope. -/
def DataType.boxed : DataType → DataType
  | .noContent _ => .noContent true
  | d => d

/-- The name of a wrapper from its configured type. -/
def TypeRef.wrapperName (t : TypeRef) : QualifiedName := ⟨t.simpleName, t.package⟩

/-- A data type in an envelope, unless the rule is plain. -/
def Options.wrapResult (o : Options) (rule : Option ResultRule) (d : DataType) : DataType :=
  match rule with
  | none => d
  | some r =>
    if r.isPlain then d
    else .result r.target.wrapperName d.boxed (o.generics r.target) r.isReplacement

/-- A single value in its wrapper, unless the rule is plain. -/
def DataType.wrapSingle (rule : Option TypeRule) (d : DataType) : DataType :=
  match rule with
  | none => d
  | some r => if r.isPlain then d else .single r.target.wrapperName d

/-- A collection replaced by another one with the same items, unless the rule is plain. -/
def DataType.wrapMulti (rule : Option TypeRule) (d : DataType) : DataType :=
  match rule, d.item? with
  | some r, some item => if r.isPlain then d else .mapped r.target.wrapperName item true
  | _, _ => d

def DataType.wrapNullable (rule : Option NullRule) (d : DataType) : DataType :=
  match rule with
  | none => d
  | some r => .nullable r.target.wrapperName d r.initial

/-- A data type with a wrapper around it, as configured for a query.  The single wrapper is
for queries about one value, the multi wrapper for those about arrays. -/
def Config.wrap (c : Config) (w : Wrapper) (q : Query) (d : DataType) : DataType :=
  match w with
  | .result => c.options.wrapResult (c.setting .result q).value d
  | .single => if q.array then d else d.wrapSingle (c.setting .single q).value
  | .multi => if q.array then d.wrapMulti (c.setting .multi q).value else d
  | .nullable => d.wrapNullable (c.setting .nullable q).value

end TypeRules
