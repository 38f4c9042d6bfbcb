import TypeRules.HttpMethod
import TypeRules.Options
import TypeRules.Rule
import TypeRules.Yaml.Value

/-! # Rule documents

A `Document` is what an author writes: a version, options, and blocks of rule texts.  Rule
texts are kept as they are written.

* `Entry` is a rule text with type arguments given apart, `ParameterEntry` one of the four
  things that can be said about a parameter.
* `Clauses` is what one block says about its own scope, and `Block` adds the blocks inside
  of it.
-/

namespace TypeRules

/-! ## Entries -/

/-- A rule text, and the type arguments of its target if they are given apart. -/
structure Entry where
  rule : String
  generics : List String
  deriving DecidableEq, Repr

inductive ParameterEntry where
  | name (entry : Entry)
  | add (entry : Entry)
  | drop (parameter : String)
  | type (entry : Entry)
  deriving DecidableEq, Repr

/-! ## Blocks -/

/-- What a block says about its own scope. -/
structure Clauses where
  result : Option String
  resultStyle : Option ResultStyle
  resultStatus : Option Bool
  single : Option String
  multi : Option String
  nullable : Option String
  bodyStyle : Option BodyStyle
  exclude : Bool
  types : List Entry
  schemas : List Entry
  parameters : List ParameterEntry
  responses : List Entry
  deriving DecidableEq, Repr

def Clauses.empty : Clauses := ⟨none, none, none, none, none, none, none, false, [], [], [], []⟩

instance : Inhabited Clauses := ⟨Clauses.empty⟩

/-- A block with the blocks inside of it: those of paths, of extensions, and of methods. -/
inductive Block where
  | mk (clauses : Clauses) (paths : List (String × Block))
      (extensions : List (String × List String)) (methods : List (HttpMethod × Block))
  deriving Repr

namespace Block

def empty : Block := mk Clauses.empty [] [] []

instance : Inhabited Block := ⟨empty⟩

/-- What the block says about its own scope. -/
def clauses : Block → Clauses
  | mk clauses _ _ _ => clauses

def paths : Block → List (String × Block)
  | mk _ paths _ _ => paths

/-- The rule texts of extensions, in document order. -/
def extensions : Block → List (String × List String)
  | mk _ _ extensions _ => extensions

/-- The blocks of methods, as they were written. -/
def writtenMethods : Block → List (HttpMethod × Block)
  | mk _ _ _ methods => methods

def method? (b : Block) (m : HttpMethod) : Option Block := b.writtenMethods.lookup m

/-- The blocks of methods, in the order of `HttpMethod.all`. -/
def methods (b : Block) : List (HttpMethod × Block) :=
  HttpMethod.all.filterMap fun m => (b.method? m).map fun block => (m, block)

end Block

/-! ## Documents -/

structure Document where
  version : Option Yaml.Value
  /-- The version under the key of former times. -/
  formerVersion : Option Yaml.Value
  packageName : Option String
  modelSuffix : Option String
  tracing : Tracing
  map : Block

def Document.empty : Document := ⟨none, none, none, none, .off, Block.empty⟩

instance : Inhabited Document := ⟨Document.empty⟩

end TypeRules
