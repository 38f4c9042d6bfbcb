/-! # Options

What a document says about a run as a whole: the base package of generated types, the suffix
of generated model names, and whether and where lookups leave a trace.
-/

namespace TypeRules

inductive TraceTarget where
  | logger
  | stdout
  deriving DecidableEq, Repr

def TraceTarget.text : TraceTarget → String
  | logger => "logger"
  | stdout => "stdout"

structure Tracing where
  enabled : Bool
  target : TraceTarget
  deriving DecidableEq, Repr

def Tracing.off : Tracing := ⟨false, .logger⟩

structure Options where
  basePackage : String
  modelSuffix : String
  tracing : Tracing
  deriving DecidableEq, Repr

namespace Options

/-- The base package of documents that do not set one. -/
def defaultPackage : String := "io.openapiprocessor.generated"

/-- The options of a run without a document. -/
def default : Options := ⟨defaultPackage, "", .off⟩

instance : Inhabited Options := ⟨default⟩

/-- The name of a generated model type: it ends in the suffix, once. -/
def modelName (o : Options) (name : String) : String :=
  if o.modelSuffix.toList.isSuffixOf name.toList then name else name ++ o.modelSuffix

end Options

end TypeRules
