import Mathlib.Data.List.Nodup
import TypeRules.Repository

/-! # Scopes of a query

A query names up to three scopes: the one of its path and method, the one of its path, and the
global one.  A repository has a level for some of them.

* `Query.scopes` lists the scopes, the most specific one first; `Scope.rank` compares them.
* `Repository.level?` is the level of a scope, `Repository.levelOf` takes a level that says
  nothing if there is none.
* `chain_eq_filterMap_scopes` ties both to the walk of a lookup: the chain of a query consists of
  the levels of its scopes, in this order, and of nothing else.
* `excludes_eq_any` — an endpoint is left out if the level of its path or of its method says so.
-/

namespace TypeRules

/-! ## Scopes and their order -/

/-- The scopes that a query names, the most specific one first.  A method counts only together
with its path. -/
def Query.scopes (q : Query) : List Scope :=
  match q.path, q.method with
  | some path, some method => [.method path method, .path path, .global]
  | some path, none => [.path path, .global]
  | none, _ => [.global]

/-- How specific a scope is. -/
def Scope.rank : Scope → Nat
  | .global => 0
  | .path _ => 1
  | .method _ _ => 2

/-- No two scopes of a query are equally specific. -/
theorem scopes_pairwise_rank (q : Query) : q.scopes.Pairwise fun s t => t.rank < s.rank := by
  unfold Query.scopes
  split <;> simp [Scope.rank]

/-- The scopes of a query differ from each other. -/
theorem nodup_scopes (q : Query) : q.scopes.Nodup :=
  (scopes_pairwise_rank q).imp fun hrank heq => by
    rw [heq] at hrank
    exact absurd hrank (Nat.lt_irrefl _)

theorem global_mem_scopes (q : Query) : Scope.global ∈ q.scopes := by
  unfold Query.scopes
  split <;> simp

/-- What is in the middle of different things is not on either side. -/
theorem not_mem_of_nodup_middle {α : Type} {l r : List α} {x : α} (h : (l ++ x :: r).Nodup) :
    x ∉ l ∧ x ∉ r := by
  rw [List.nodup_middle, List.nodup_cons, List.mem_append, not_or] at h
  exact h.1

/-! ## Levels of scopes -/

namespace Repository

def level? (r : Repository) : Scope → Option Level
  | .global => some r.global
  | .path path => (r.endpoint? path).map Endpoint.level
  | .method path method => (r.endpoint? path).bind fun endpoint => endpoint.method? method

/-- The level of a scope.  Where the repository has none it is the level that says nothing. -/
def levelOf (r : Repository) (s : Scope) : Level := (r.level? s).getD Level.empty

@[simp] theorem level?_global (r : Repository) : r.level? .global = some r.global := rfl

@[simp] theorem level?_path (r : Repository) (path : String) :
    r.level? (.path path) = (r.endpoint? path).map Endpoint.level := rfl

@[simp] theorem level?_method (r : Repository) (path : String) (method : HttpMethod) :
    r.level? (.method path method) =
      (r.endpoint? path).bind fun endpoint => endpoint.method? method := rfl

theorem endpointOf?_of_path_none {q : Query} (h : q.path = none) (r : Repository) :
    r.endpointOf? q = none := by
  rw [endpointOf?, List.find?_eq_none]
  intro entry _
  simp [Query.coversPath, h]

theorem endpointOf?_of_path {q : Query} {path : String} (h : q.path = some path)
    (r : Repository) :
    r.endpointOf? q = (r.endpoint? path).map fun endpoint => (path, endpoint) := by
  have hcovers : (fun entry : String × Endpoint => q.coversPath entry.1) =
      fun entry => entry.1 == path := by
    funext entry
    simp only [Query.coversPath, h, Option.some_beq_some]
    exact Bool.beq_comm
  rw [endpointOf?, endpoint?, hcovers, Option.map_map]
  cases hfind : r.endpoints.find? fun entry => entry.1 == path with
  | none => rfl
  | some entry =>
    have hpath : entry.1 = path := by simpa using List.find?_some hfind
    simp [← hpath]

end Repository

theorem Endpoint.find?_coversMethod {q : Query} {path : String} {method : HttpMethod}
    (hpath : q.path = some path) (hmethod : q.method = some method) (e : Endpoint) :
    (e.methods.find? fun entry => q.coversMethod path entry.1) =
      (e.method? method).map fun level => (method, level) := by
  have hcovers : (fun entry : HttpMethod × Level => q.coversMethod path entry.1) =
      fun entry => entry.1 == method := by
    funext entry
    simp only [Query.coversMethod, Query.coversPath, hpath, hmethod, beq_self_eq_true,
      Bool.true_and, Option.some_beq_some]
    exact Bool.beq_comm
  rw [method?, hcovers, Option.map_map]
  cases hfind : e.methods.find? fun entry => entry.1 == method with
  | none => rfl
  | some entry =>
    have hentry : entry.1 = method := by simpa using List.find?_some hfind
    simp [← hentry]

theorem Endpoint.find?_coversMethod_none {q : Query} (h : q.method = none) (path : String)
    (e : Endpoint) : (e.methods.find? fun entry => q.coversMethod path entry.1) = none := by
  rw [List.find?_eq_none]
  intro entry _
  simp [Query.coversMethod, h]

/-! ## The chain of a query -/

theorem chain_eq_filterMap_scopes (r : Repository) (q : Query) :
    r.chain q = q.scopes.filterMap fun s => (r.level? s).map fun level => (s, level) := by
  cases hpath : q.path with
  | none =>
    simp [Repository.chain, r.endpointOf?_of_path_none hpath, Query.scopes, hpath]
  | some path =>
    rw [Repository.chain, r.endpointOf?_of_path hpath]
    cases hendpoint : r.endpoint? path with
    | none =>
      cases hmethod : q.method <;> simp [Query.scopes, hpath, hmethod, hendpoint]
    | some endpoint =>
      cases hmethod : q.method with
      | none =>
        simp [endpoint.find?_coversMethod_none hmethod path, Query.scopes, hpath, hmethod,
          hendpoint]
      | some method =>
        rw [Option.map_some]
        simp only [endpoint.find?_coversMethod hpath hmethod]
        cases hlevel : endpoint.method? method <;>
          simp [Query.scopes, hpath, hmethod, hendpoint, hlevel]

/-! ## Exclusion -/

theorem excludes_eq_any (r : Repository) (q : Query) :
    r.excludes q = q.scopes.any fun s => s != .global && (r.levelOf s).exclude := by
  cases hpath : q.path with
  | none => simp [Repository.excludes, r.endpointOf?_of_path_none hpath, Query.scopes, hpath]
  | some path =>
    rw [Repository.excludes, r.endpointOf?_of_path hpath]
    cases hendpoint : r.endpoint? path with
    | none =>
      have hempty : Level.empty.exclude = false := rfl
      cases hmethod : q.method <;>
        simp [Query.scopes, hpath, hmethod, Repository.levelOf, hendpoint, hempty]
    | some endpoint =>
      cases hmethod : q.method with
      | none =>
        simp [Endpoint.excludes, Query.scopes, hpath, hmethod, Repository.levelOf, hendpoint]
      | some method =>
        have hempty : Level.empty.exclude = false := rfl
        have hpathLocal : (Scope.path path != .global) = true := rfl
        have hmethodLocal : (Scope.method path method != .global) = true := rfl
        -- The repository asks the path first, the scopes have the method first.
        cases hlevel : endpoint.method? method <;>
          simp [Endpoint.excludes, Query.scopes, hpath, hmethod, Repository.levelOf, hendpoint,
            hlevel, hempty, hpathLocal, hmethodLocal, Bool.or_comm]

end TypeRules
