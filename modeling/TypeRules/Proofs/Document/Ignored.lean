import TypeRules.Loading
import TypeRules.Proofs.Except

/-! # Parts of a document that do not count

Every block can have the blocks of paths, extensions and methods in it, but only the topmost one has
paths and extensions that count, and only the block of a path has methods that do.

* `Block.pruned` is a topmost block without the parts that do not count, `Document.pruned` the
  document with this block.
* `repository_pruned` is the statement about documents: whatever such parts contain, the repository
  or the error is the same.
-/

namespace TypeRules

/-! ## Pruning -/

namespace Block

/-- The block of a method: what it says about its own scope. -/
def alone (b : Block) : Block := mk b.clauses [] [] []

/-- The block of a path: its methods, without paths and extensions. -/
def asPath (b : Block) : Block :=
  mk b.clauses [] [] (b.writtenMethods.map fun own => (own.1, own.2.alone))

/-- The topmost block: its paths and extensions, without methods. -/
def pruned (b : Block) : Block :=
  mk b.clauses (b.paths.map fun own => (own.1, own.2.asPath)) b.extensions []

end Block

def Document.pruned (d : Document) : Document := { d with map := d.map.pruned }

/-! ## Reading what is left -/

theorem lookup_map_snd {κ α β : Type} [BEq κ] (f : α → β) (entries : List (κ × α)) (key : κ) :
    (entries.map fun entry => (entry.1, f entry.2)).lookup key =
      (entries.lookup key).map f := by
  induction entries with
  | nil => rfl
  | cons entry entries ih =>
    rw [List.map_cons, List.lookup_cons, List.lookup_cons]
    cases key == entry.1 with
    | true => rfl
    | false => exact ih

namespace Block

theorem method?_asPath (b : Block) (method : HttpMethod) :
    b.asPath.method? method = (b.method? method).map alone :=
  lookup_map_snd alone b.writtenMethods method

theorem methods_asPath (b : Block) :
    b.asPath.methods = b.methods.map fun own => (own.1, own.2.alone) := by
  rw [methods, methods, List.map_filterMap]
  congr 1
  funext method
  rw [method?_asPath, Option.map_map, Option.map_map]
  rfl

theorem endpoint_asPath (b : Block) : b.asPath.endpoint = b.endpoint := by
  have hmethods := mapM_keyed_map (f := fun inner : Block => inner.clauses.level) (g := alone)
    (fun _ => rfl) b.methods
  rw [endpoint, endpoint, methods_asPath, hmethods]
  rfl

theorem repository_eq_of_pruned (b : Block) : b.pruned.repository = b.repository := by
  have hpaths := mapM_keyed_map (f := endpoint) endpoint_asPath b.paths
  rw [repository, repository, pruned, paths, hpaths]
  rfl

/-! ## Remarks -/

theorem pathNotices_asPath (entries : List (String × Block)) :
    pathNotices (entries.map fun own => (own.1, own.2.asPath)) = [] := by
  induction entries with
  | nil => rfl
  | cons entry entries ih =>
    rw [List.map_cons, pathNotices, ih, ite_self]
    rfl

theorem notices_pruned (b : Block) : b.pruned.notices = [] := by
  have hmethods : b.pruned.methods = [] := rfl
  rw [notices, hmethods, pruned, paths, pathNotices_asPath, ite_self]
  rfl

end Block

/-! ## Main result -/

/-- A document without the parts that do not count has the same repository or the same error, and
loads as it did, but without a remark on stray blocks.  So two documents that differ in nothing but
such parts have the same repository or the same error, whatever the parts contain. -/
theorem repository_pruned (d : Document) :
    d.pruned.map.repository = d.map.repository ∧
      (Loading.ofDocument d.pruned).result = (Loading.ofDocument d).result ∧
      d.pruned.map.notices = [] ∧
      ∀ other : Document, other.map.pruned = d.map.pruned →
        other.map.repository = d.map.repository := by
  have hrepository : d.pruned.map.repository = d.map.repository :=
    d.map.repository_eq_of_pruned
  refine ⟨hrepository, ?_, d.map.notices_pruned, fun other h => ?_⟩
  · have hconfig : d.pruned.config = d.config :=
      congrArg (Except.map fun repository => (⟨repository, d.options⟩ : Config)) hrepository
    have hversion : d.pruned.checkVersion = d.checkVersion := rfl
    rw [Loading.ofDocument, Loading.ofDocument, hconfig, hversion]
    cases d.checkVersion <;> rfl
  · rw [← other.map.repository_eq_of_pruned, h, d.map.repository_eq_of_pruned]

/-- A path and a method with one rule each, and texts that cannot be read in every place that does
not count. -/
def strayBlocks : Document :=
  let bad : Block :=
    .mk { Clauses.empty with result := some "=>", types := [⟨"@", []⟩] } [] [("x", ["=>"])] []
  let deep : Block := .mk { Clauses.empty with single := some "<" } [("/a", bad)] [] [(.put, bad)]
  let method : Block :=
    .mk { Clauses.empty with types := [⟨"Foo => io.Foo", []⟩] } [("/b", deep)] [("x", ["<"])]
      [(.get, deep)]
  let path : Block :=
    .mk { Clauses.empty with result := some "io.Wrap" } [("/c", deep)] [("x", ["@"])]
      [(.get, method)]
  { Document.empty with map := .mk Clauses.empty [("/foo", path)] [] [(.post, deep)] }

/-- The same path and method alone. -/
def orderlyBlocks : Document :=
  let method : Block :=
    .mk { Clauses.empty with types := [⟨"Foo => io.Foo", []⟩] } [] [] []
  let path : Block :=
    .mk { Clauses.empty with result := some "io.Wrap" } [] [] [(.get, method)]
  { Document.empty with map := .mk Clauses.empty [("/foo", path)] [] [] }

theorem repository_strayBlocks :
    strayBlocks.map.pruned = orderlyBlocks.map.pruned ∧
      strayBlocks.map.repository = orderlyBlocks.map.repository ∧
      orderlyBlocks.map.repository.isOk = true := by
  have hpruned : strayBlocks.map.pruned = orderlyBlocks.map.pruned := rfl
  exact ⟨hpruned, (repository_pruned orderlyBlocks).2.2.2 strayBlocks hpruned, by decide +kernel⟩

end TypeRules
