import TypeRules.Level
import TypeRules.Matcher

/-! # Repositories

A `Repository` holds the levels of a document: one for everything, one for each path, and one
for each method of a path that has its own; and the rules of extensions.

* `Scope` says which level is meant.
* `Repository.chain` lists the levels that concern a query, the most specific one first.
* `Repository.excludes` tells whether the endpoint of a query is left out.
-/

namespace TypeRules

/-! ## Scopes -/

inductive Scope where
  | global
  | path (path : String)
  | method (path : String) (method : HttpMethod)
  deriving DecidableEq, Repr

namespace Scope

def text : Scope → String
  | global => "global"
  | path p => "path '" ++ p ++ "'"
  | method p m => "path " ++ m.text ++ " '" ++ p ++ "'"

/-- The containers of the scope in a trace. -/
def place : Scope → List Container
  | global => [.global]
  | path p => [.endpoint p]
  | method p m => [.endpoint p, .method m]

end Scope

/-! ## Levels of a document -/

/-- The level of a path, and the levels of its methods. -/
structure Endpoint where
  level : Level
  methods : List (HttpMethod × Level)
  deriving DecidableEq, Repr

/-- The level of a method, if it has its own. -/
def Endpoint.method? (e : Endpoint) (m : HttpMethod) : Option Level :=
  (e.methods.find? fun entry => entry.1 == m).map Prod.snd

/-- Whether the endpoint is left out: as a whole, or for the method at hand. -/
def Endpoint.excludes (e : Endpoint) (method : Option HttpMethod) : Bool :=
  e.level.exclude || (method.bind e.method?).any Level.exclude

/-- All levels of a document, paths in document order, and its extensions. -/
structure Repository where
  global : Level
  endpoints : List (String × Endpoint)
  extensions : List (String × List NameAnnotationRule)
  deriving DecidableEq, Repr

namespace Repository

def empty : Repository := ⟨Level.empty, [], []⟩

instance : Inhabited Repository := ⟨empty⟩

def endpoint? (r : Repository) (path : String) : Option Endpoint :=
  (r.endpoints.find? fun entry => entry.1 == path).map Prod.snd

/-- The rules of an extension; none if there is no such extension. -/
def extension (r : Repository) (name : String) : List NameAnnotationRule :=
  ((r.extensions.find? fun entry => entry.1 == name).map Prod.snd).getD []

/-- The endpoint that a query is about, with its path. -/
def endpointOf? (r : Repository) (q : Query) : Option (String × Endpoint) :=
  r.endpoints.find? fun entry => q.coversPath entry.1

/-- The levels that concern a query, the most specific one first. -/
def chain (r : Repository) (q : Query) : List (Scope × Level) :=
  (match r.endpointOf? q with
    | some (path, endpoint) =>
      ((endpoint.methods.find? fun entry => q.coversMethod path entry.1).map
        fun (method, level) => (Scope.method path method, level)).toList ++
        [(Scope.path path, endpoint.level)]
    | none => []) ++
    [(Scope.global, r.global)]

/-- Whether the endpoint of a query is left out. -/
def excludes (r : Repository) (q : Query) : Bool :=
  (r.endpointOf? q).any fun (_, endpoint) => endpoint.excludes q.method

end Repository

end TypeRules
