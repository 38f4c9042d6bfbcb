import TypeRules.Proofs.Lookup.Tracing
import TypeRules.Proofs.Repository.Update

/-! # Excluded endpoints

The chain of a query is found by searching the repository, and so is the answer whether the endpoint
of the query is left out.  Both come down to the same levels.

* `Repository.methodLevel?`, `Repository.pathLevel?` look the levels of a query up by their keys;
  `chain_eq_entries` — together with the global level these are the chain.
* `excludes_iff_exists_scope` — an endpoint is left out if one of its own scopes says so.
* `excludes_iff_chain` is the statement about repositories and queries.
-/

namespace TypeRules

/-! ## The chain by its keys -/

namespace Repository

/-- The level of the path and the method of a query, if all of it is there. -/
def methodLevel? (r : Repository) (q : Query) : Option (Scope × Level) :=
  q.path.bind fun path => (r.endpoint? path).bind fun endpoint => q.method.bind fun method =>
    (endpoint.method? method).map fun level => (.method path method, level)

/-- The level of the path of a query, if it is there. -/
def pathLevel? (r : Repository) (q : Query) : Option (Scope × Level) :=
  q.path.bind fun path => (r.endpoint? path).map fun endpoint => (.path path, endpoint.level)

theorem chain_eq_entries (r : Repository) (q : Query) :
    r.chain q = (r.methodLevel? q).toList ++ (r.pathLevel? q).toList ++ [(.global, r.global)] := by
  rw [chain_eq_filterMap_scopes]
  cases hpath : q.path with
  | none => simp [methodLevel?, pathLevel?, Query.scopes, hpath]
  | some path =>
    cases hmethod : q.method with
    | none =>
      cases hendpoint : r.endpoint? path <;>
        simp [methodLevel?, pathLevel?, Query.scopes, hpath, hmethod, hendpoint]
    | some method =>
      cases hendpoint : r.endpoint? path with
      | none => simp [methodLevel?, pathLevel?, Query.scopes, hpath, hmethod, hendpoint]
      | some endpoint =>
        cases hlevel : endpoint.method? method <;>
          simp [methodLevel?, pathLevel?, Query.scopes, hpath, hmethod, hendpoint, hlevel]

/-! ## Exclusion by scopes -/

/-- A level that says nothing excludes nothing, so a scope that excludes has a level. -/
theorem exclude_levelOf_iff {r : Repository} {s : Scope} :
    (r.levelOf s).exclude = true ↔ ∃ level, r.level? s = some level ∧ level.exclude = true := by
  rw [levelOf]
  cases hlevel : r.level? s with
  | none => simp [Level.empty]
  | some level => simp

theorem excludes_iff_exists_scope {r : Repository} {q : Query} :
    r.excludes q = true ↔ ∃ s ∈ q.scopes, s ≠ .global ∧ (r.levelOf s).exclude = true := by
  simp [excludes_eq_any]

theorem excludes_iff_exists_entry {r : Repository} {q : Query} :
    r.excludes q = true ↔
      ∃ entry ∈ r.chain q, entry.1 ≠ .global ∧ entry.2.exclude = true := by
  rw [excludes_iff_exists_scope, chain_eq_filterMap_scopes]
  constructor
  · rintro ⟨s, hs, hlocal, hexclude⟩
    obtain ⟨level, hlevel, hexclude⟩ := exclude_levelOf_iff.1 hexclude
    have hentry : (r.level? s).map (fun level => (s, level)) = some (s, level) := by
      rw [hlevel, Option.map_some]
    exact ⟨(s, level), List.mem_filterMap.2 ⟨s, hs, hentry⟩, hlocal, hexclude⟩
  · rintro ⟨entry, hmem, hlocal, hexclude⟩
    obtain ⟨s, hs, hentry⟩ := List.mem_filterMap.1 hmem
    obtain ⟨level, hlevel, rfl⟩ := Option.map_eq_some_iff.1 hentry
    exact ⟨s, hs, hlocal, exclude_levelOf_iff.2 ⟨level, hlevel, hexclude⟩⟩

/-- Only the flags of the query's own path and method are asked for. -/
theorem excludes_congr {r r' : Repository} {q : Query}
    (h : ∀ s ∈ q.scopes, s ≠ .global → (r'.levelOf s).exclude = (r.levelOf s).exclude) :
    r'.excludes q = r.excludes q := by
  rw [Bool.eq_iff_iff, excludes_iff_exists_scope, excludes_iff_exists_scope]
  constructor
  · rintro ⟨s, hs, hlocal, hexclude⟩
    exact ⟨s, hs, hlocal, (h s hs hlocal).symm.trans hexclude⟩
  · rintro ⟨s, hs, hlocal, hexclude⟩
    exact ⟨s, hs, hlocal, (h s hs hlocal).trans hexclude⟩

theorem excludes_of_path {r : Repository} {q : Query} {path : String} (hpath : q.path = some path)
    (h : (r.levelOf (.path path)).exclude = true) : r.excludes q = true := by
  have hscope : Scope.path path ∈ q.scopes := by
    cases hmethod : q.method <;> simp [Query.scopes, hpath, hmethod]
  have hlocal : Scope.path path ≠ .global := by simp
  exact excludes_iff_exists_scope.2 ⟨.path path, hscope, hlocal, h⟩

end Repository

/-- With a method a query has one scope more. -/
theorem scopes_subset_withMethod (q : Query) (method : HttpMethod) :
    Query.scopes { q with method := none } ⊆ (q.withMethod method).scopes := by
  cases hpath : q.path <;> simp [Query.scopes, Query.withMethod, hpath]

/-! ## Main result -/

/-- The chain of a query has the levels that are found under its path and method, each if it is
there, and then the global level.  An endpoint is left out exactly if one of these levels says so,
the global one apart.  So what is left out without a method is left out for every method; no other
flags make a difference; and whatever a path leaves out, no method can take back. -/
theorem excludes_iff_chain (c : Config) (q : Query) :
    c.repository.chain q =
        (c.repository.methodLevel? q).toList ++ (c.repository.pathLevel? q).toList ++
          [(.global, c.repository.global)] ∧
      ((c.excludes q).value = true ↔
        ∃ entry ∈ c.repository.chain q, entry.1 ≠ .global ∧ entry.2.exclude = true) ∧
      (∀ method, (c.excludes { q with method := none }).value = true →
        (c.excludes (q.withMethod method)).value = true) ∧
      (∀ c' : Config,
        (∀ s ∈ q.scopes, s ≠ .global →
          (c'.repository.levelOf s).exclude = (c.repository.levelOf s).exclude) →
        (c'.excludes q).value = (c.excludes q).value) ∧
      ∀ path method change, q.path = some path →
        (c.repository.levelOf (.path path)).exclude = true →
        (Config.excludes { c with
          repository := c.repository.update (.method path method) change } q).value = true := by
  simp only [excludes_value]
  refine ⟨c.repository.chain_eq_entries q, Repository.excludes_iff_exists_entry,
    fun method h => ?_, fun c' => Repository.excludes_congr, fun path method change hpath h => ?_⟩
  · obtain ⟨s, hs, hlocal, hexclude⟩ := Repository.excludes_iff_exists_scope.1 h
    exact Repository.excludes_iff_exists_scope.2
      ⟨s, scopes_subset_withMethod q method hs, hlocal, hexclude⟩
  · have hne : Scope.path path ≠ .method path method := nofun
    apply Repository.excludes_of_path hpath
    rw [Repository.levelOf_update_of_ne hne, h]

/-- A path that is left out, with a method that would be generated; another path with a method that
is left out; and the flag at the global level. -/
def excludedPath : Repository :=
  let excluded : Level := { Level.empty with exclude := true }
  { Repository.empty with
    global := excluded
    endpoints :=
      [("/foo", ⟨excluded, [(.get, Level.empty)]⟩), ("/bar", ⟨Level.empty, [(.put, excluded)]⟩)] }

/-- The path is left out for all its methods, also when one of them is given its own flag.  For the
other path neither the flag of another method nor that of the global level counts. -/
theorem excludes_excludedPath :
    let c : Config := ⟨excludedPath, Options.default⟩
    let q (path : String) := Query.empty.withPath path
    let kept (l : Level) : Level := { l with exclude := false }
    (c.excludes (q "/foo")).value = true ∧ (c.excludes ((q "/foo").withMethod .get)).value = true ∧
      (c.excludes ((q "/bar").withMethod .get)).value = false ∧
      (Config.excludes { c with
        repository := excludedPath.update (.method "/foo" .post) kept }
          ((q "/foo").withMethod .post)).value = true := by
  intro c q kept
  have hfoo : (c.excludes (q "/foo")).value = true := by decide +kernel
  obtain ⟨-, -, hmethod, -, hkept⟩ := excludes_iff_chain c (q "/foo")
  obtain ⟨-, -, -, hother, -⟩ := excludes_iff_chain Config.empty ((q "/bar").withMethod .get)
  obtain ⟨-, -, -, -, hpost⟩ := excludes_iff_chain c ((q "/foo").withMethod .post)
  have hbar : ∀ s ∈ ((q "/bar").withMethod .get).scopes, s ≠ .global →
      (c.repository.levelOf s).exclude = (Config.empty.repository.levelOf s).exclude := by
    decide +kernel
  refine ⟨hfoo, hmethod .get hfoo, ?_, hpost "/foo" .post kept rfl (by decide +kernel)⟩
  rw [hother c hbar]
  decide +kernel

end TypeRules
