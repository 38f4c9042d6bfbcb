import TypeRules.Document.Notice
import TypeRules.Document.Rules
import TypeRules.Lookup

/-! # From documents to configurations

The block at the top of a document becomes a repository: its clauses the global level, its
paths the endpoints.  Blocks that cannot apply where they stand are ignored.

* `Block.repository` makes a repository of the topmost block, and `Block.notices` remarks on
  what is ignored.
* `Document.options` are the options of a document.
-/

namespace TypeRules

namespace Block

/-- The levels of a path: those of its methods come first, then its own. -/
def endpoint (b : Block) : Except Error Endpoint := do
  let methods ← b.methods.mapM fun (method, inner) => return (method, ← inner.clauses.level)
  let level ← b.clauses.level
  return ⟨level, methods⟩

/-- The repository of the topmost block; the first rule that is refused decides in case of
errors. -/
def repository (b : Block) : Except Error Repository := do
  let global ← b.clauses.level
  let endpoints ← b.paths.mapM fun (path, inner) => return (path, ← inner.endpoint)
  let extensions ← b.extensions.mapM fun (name, rules) =>
    return (name, ← rules.mapM NameAnnotationRule.read)
  return ⟨global, endpoints, extensions⟩

/-- The remarks on the blocks of paths, up to the first one with an error. -/
def pathNotices : List (String × Block) → List Notice
  | [] => []
  | (path, inner) :: rest =>
    (if inner.paths.isEmpty && inner.extensions.isEmpty then [] else [.strayBlocks path]) ++
      -- Making rules ends at the first error, and so do the remarks.
      (if inner.endpoint.isOk then pathNotices rest else [])

def notices (b : Block) : List Notice :=
  (if b.methods.isEmpty then [] else [.strayMethods]) ++
    (if b.clauses.level.isOk then pathNotices b.paths else [])

end Block

namespace Document

/-- The base package that the document sets, if it does. -/
def basePackage? (d : Document) : Option String :=
  (d.packageName.map Text.trimString).filter (· ≠ "")

def options (d : Document) : Options where
  basePackage := d.basePackage?.getD Options.defaultPackage
  modelSuffix := d.modelSuffix.getD ""
  tracing := d.tracing

def optionNotices (d : Document) : List Notice :=
  if d.basePackage?.isNone then [.defaultPackage Options.defaultPackage] else []

def config (d : Document) : Except Error Config :=
  d.map.repository.map fun repository => ⟨repository, d.options⟩

end Document

end TypeRules
