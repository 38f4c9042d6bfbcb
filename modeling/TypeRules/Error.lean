/-! # Errors

Everything that can go wrong between a rule document and an answer, as causes.  The
wording of each cause is fixed in one place, `Error.message`.

* `ReadFault` — why a rule text cannot be read.
* `Position` — the places of a document that take rules of a certain shape.
* `UnknownWord` — a word outside of a closed vocabulary.
* `Ambiguity` — rules that compete for one answer.
* `Error` — all causes together.
-/

namespace TypeRules

/-! ## Causes -/

inductive ReadFault where
  | empty
  | missingSource
  | missingTarget
  | unbalancedGenerics
  | unbalancedParameters
  | emptyParameter
  | arrayOfReference
  | invalidTypeName (name : String)
  deriving DecidableEq, Repr

def ReadFault.text : ReadFault → String
  | .empty => "empty mapping"
  | .missingSource => "missing source"
  | .missingTarget => "missing target"
  | .unbalancedGenerics => "unbalanced generic parameters"
  | .unbalancedParameters => "unbalanced annotation parameters"
  | .emptyParameter => "empty annotation parameter"
  | .arrayOfReference => "only primitive types may be arrays"
  | .invalidTypeName name => "invalid type name '" ++ name ++ "'"

/-- A place of a document that takes rules of a certain shape. -/
inductive Position where
  | result
  | single
  | multi
  | nullable
  | generic
  | type
  | parameterName
  | addParameter
  | dropParameter
  | response
  | extension
  deriving DecidableEq, Repr

/-- The name of a place as it is shown. -/
def Position.text : Position → String
  | .result => "result"
  | .single => "single"
  | .multi => "multi"
  | .nullable => "null"
  | .generic => "generic"
  | .type => "type"
  | .parameterName => "parameter name"
  | .addParameter => "add parameter"
  | .dropParameter => "drop parameter"
  | .response => "response"
  | .extension => "extension"

/-- A word outside of the closed vocabulary it should come from. -/
inductive UnknownWord where
  | method (word : String)
  | bodyStyle (word : String)
  | resultStyle (word : String)
  deriving DecidableEq, Repr

/-- The complaint about a word as it is shown. -/
def UnknownWord.text : UnknownWord → String
  | .method word => "Unknown HTTP method: " ++ word
  | .bodyStyle word => "Unknown body style: " ++ word
  | .resultStyle word => "Unknown result style: " ++ word

inductive FileFault where
  | notFound
  | notUtf8
  deriving DecidableEq, Repr

/-- The complaint about a file as it is shown. -/
def FileFault.text : FileFault → String
  | .notFound => "No such file or directory (os error 2)"
  | .notUtf8 => "stream did not contain valid UTF-8"

/-- Rules that compete for a single answer: the kind of rule, the scope they share, the
query, and the rules in document order. -/
structure Ambiguity where
  kind : String
  scope : String
  query : String
  rules : List String
  deriving DecidableEq, Repr

/-- The competing rules under a headline, one a line. -/
def Ambiguity.text (a : Ambiguity) : String :=
  "ambiguous " ++ a.kind ++ " mapping in " ++ a.scope ++ " scope for query (" ++ a.query ++
    "):\n" ++ String.join (a.rules.map fun rule => "  " ++ rule ++ "\n")

/-! ## Errors -/

/-- What can go wrong between a document and an answer. -/
inductive Error where
  | unreadable (rule : String) (fault : ReadFault)
  /-- A rule whose shape does not fit its place. -/
  | misplaced (rule : String) (position : Position)
  | missingVersion
  /-- A document with a version that is too old or not a version at all. -/
  | unsupportedVersion (version : String)
  | unknownWord (word : UnknownWord)
  /-- A document that is not YAML, or not of the expected shape; if only a style in it
  is unknown, that style. -/
  | document (style : Option UnknownWord)
  | file (fault : FileFault)
  | ambiguous (ambiguity : Ambiguity)
  /-- There is no document where one is needed. -/
  | noDocument
  /-- An extension lookup that does not say which extension. -/
  | noExtension
  deriving DecidableEq, Repr

def Error.message : Error → String
  | .unreadable rule fault =>
    "Bad Mapping: failed to parse mapping '" ++ rule ++ "': " ++ fault.text
  | .misplaced rule position =>
    "Bad Mapping: '" ++ rule ++ "' is not a valid " ++ position.text ++ " mapping"
  | .missingVersion =>
    "Mapping Format Error: missing 'openapi-processor-mapping' version key, " ++
      "please update the mapping to the latest format"
  | .unsupportedVersion version =>
    "Mapping Format Error: unsupported mapping version '" ++ version ++
      "', please update the mapping to the latest format"
  | .unknownWord word => "General Error: " ++ word.text
  | .document none => "YAML Error"
  | .document (some style) => "General Error: " ++ style.text
  | .file fault => "IO Error: " ++ fault.text
  | .ambiguous ambiguity => ambiguity.text
  | .noDocument => "Operation failed: the mapping is empty"
  | .noExtension => "Operation failed: the extension lookup needs --extension"

end TypeRules
