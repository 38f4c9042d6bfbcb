import TypeRules.Proofs.Lookup.NonInterference
import TypeRules.Proofs.Lookup.Tracing
import TypeRules.Proofs.Repository.Update

/-! # Storing a setting

A value is stored for a setting at one scope, whether the repository has a level there or not.
It becomes the answer where the scope comes first, and no other answer changes.

* `Level.set` changes one setting of a level: `Level.get_set_self`, `Level.get_set_of_ne`,
  `Level.bucket_set`, `Level.exclude_set`.
* `Setting.Foremost` — a query comes to a scope before it comes to another value of the setting;
  `foremost_iff` says the same about the scopes of the query.
* `findSome?_store_of_foremost`, `findSome?_store_of_not_foremost` — what becomes of the first
  value.
* `value_store` is the statement about all lookups.

The new level may be the only one of its path.  That is harmless, because a level that says
nothing is passed over by every lookup just as a missing one is.
-/

namespace TypeRules

/-! ## Settings of a level -/

namespace Level

theorem get_set_self (l : Level) (k : Setting) (v : k.Value) : (l.set k v).get k = some v := by
  cases k <;> rfl

theorem get_set_of_ne {k other : Setting} (h : other ≠ k) (l : Level) (v : k.Value) :
    (l.set k v).get other = l.get other := by
  cases k <;> cases other <;> first | rfl | exact absurd rfl h

theorem bucket_set (l : Level) (k : Setting) (v : k.Value) (b : Bucket) :
    (l.set k v).bucket b = l.bucket b := by
  cases k <;> cases b <;> rfl

theorem exclude_set (l : Level) (k : Setting) (v : k.Value) : (l.set k v).exclude = l.exclude := by
  cases k <;> rfl

@[simp] theorem get_empty (k : Setting) : Level.empty.get k = none := by
  cases k <;> rfl

end Level

/-! ## Settings of a repository -/

namespace Repository

variable (r : Repository) (s : Scope) (k : Setting) (v : k.Value)

/-- The repository with a value for a setting at a scope. -/
def store : Repository := r.update s fun level => level.set k v

theorem get_levelOf_store_self : ((r.store s k v).levelOf s).get k = some v := by
  rw [store, levelOf_update_self, Level.get_set_self]

theorem get_levelOf_store_of_ne {t : Scope} (h : t ≠ s) (other : Setting) :
    ((r.store s k v).levelOf t).get other = (r.levelOf t).get other := by
  rw [store, levelOf_update_of_ne h]

theorem get_levelOf_store_other {other : Setting} (h : other ≠ k) (t : Scope) :
    ((r.store s k v).levelOf t).get other = (r.levelOf t).get other :=
  apply_levelOf_update (fun level => level.get other) (Level.get_set_of_ne h _ v) t

theorem findings_store {l : RuleLookup} {t : Topic} (h : l.Serves t) (q : Query) :
    t.findings (r.store s k v) q = t.findings r q := by
  refine Topic.findings_eq_of_agreeOn fun scope _ => ?_
  have hlist : t.list ((r.store s k v).levelOf scope) = t.list (r.levelOf scope) := by
    rw [← h.bucket, ← h.bucket]
    exact apply_levelOf_update (fun level => level.bucket l.bucket)
      (Level.bucket_set _ k v l.bucket) scope
  rw [Topic.own, hlist, Topic.own]

theorem excludes_store (q : Query) : (r.store s k v).excludes q = r.excludes q := by
  have hexclude : ∀ t, ((r.store s k v).levelOf t).exclude = (r.levelOf t).exclude :=
    apply_levelOf_update Level.exclude (Level.exclude_set _ k v)
  rw [excludes_eq_any, excludes_eq_any]
  simp only [hexclude]

theorem extension_store (name : String) : (r.store s k v).extension name = r.extension name :=
  r.extension_update s _ name

end Repository

/-! ## The scope that comes first -/

/-- A query comes to the level of a scope, and no more specific level on the way has a value for
the setting. -/
def Setting.Foremost (k : Setting) (r : Repository) (q : Query) (s : Scope) : Prop :=
  ∃ front level back, r.chain q = front ++ (s, level) :: back ∧
    ∀ entry ∈ front, entry.2.get k = none

theorem foremost_iff {k : Setting} {r : Repository} {q : Query} {s : Scope} :
    k.Foremost r q s ↔ ∃ front back, q.scopes = front ++ s :: back ∧ (r.level? s).isSome ∧
      ∀ t ∈ front, (r.levelOf t).get k = none := by
  rw [Setting.Foremost, chain_eq_filterMap_scopes]
  constructor
  · rintro ⟨front, level, back, hchain, hfront⟩
    obtain ⟨front', behind, hscopes, rfl, hbehind⟩ := List.filterMap_eq_append_iff.mp hchain
    obtain ⟨missing, t, back', rfl, hmissing, ht, -⟩ := List.filterMap_eq_cons_iff.mp hbehind
    obtain ⟨level', hlevel, heq⟩ := Option.map_eq_some_iff.mp ht
    obtain ⟨rfl, rfl⟩ := Prod.mk.inj heq
    refine ⟨front' ++ missing, back', by simpa using hscopes, by simp [hlevel], fun u hu => ?_⟩
    rw [Repository.levelOf]
    cases hu' : r.level? u with
    | none => exact Level.get_empty k
    | some other =>
      rcases List.mem_append.mp hu with hmem | hmem
      · exact hfront (u, other) (List.mem_filterMap.mpr ⟨u, hmem, by simp [hu']⟩)
      · have := hmissing u hmem
        simp [hu'] at this
  · rintro ⟨front, back, hscopes, hsome, hfront⟩
    obtain ⟨level, hlevel⟩ := Option.isSome_iff_exists.mp hsome
    refine ⟨_, level, _, by rw [hscopes, List.filterMap_append,
      List.filterMap_cons_some (by rw [hlevel]; rfl)], fun entry hentry => ?_⟩
    obtain ⟨t, ht, hmap⟩ := List.mem_filterMap.mp hentry
    obtain ⟨level', hlevel', rfl⟩ := Option.map_eq_some_iff.mp hmap
    have hnone := hfront t ht
    rwa [Repository.levelOf, hlevel'] at hnone

/-! ## The first value -/

section Store

variable {r : Repository} {s : Scope} {k : Setting} {v : k.Value} {q : Query}

theorem findSome?_store_of_not_mem {scopes : List Scope} (h : s ∉ scopes) :
    (scopes.findSome? fun t => ((r.store s k v).levelOf t).get k) =
      scopes.findSome? fun t => (r.levelOf t).get k := by
  refine findSome?_congr fun t ht => r.get_levelOf_store_of_ne s k v ?_ k
  rintro rfl
  exact h ht

theorem findSome?_store_of_foremost (h : k.Foremost (r.store s k v) q s) :
    (q.scopes.findSome? fun t => ((r.store s k v).levelOf t).get k) = some v := by
  obtain ⟨front, back, hscopes, -, hfront⟩ := foremost_iff.mp h
  rw [hscopes, List.findSome?_append, List.findSome?_eq_none_iff.mpr hfront, Option.none_or,
    List.findSome?_cons, r.get_levelOf_store_self]

theorem findSome?_store_of_not_foremost (h : ¬ k.Foremost (r.store s k v) q s) :
    (q.scopes.findSome? fun t => ((r.store s k v).levelOf t).get k) =
      q.scopes.findSome? fun t => (r.levelOf t).get k := by
  by_cases hmem : s ∈ q.scopes
  · obtain ⟨front, back, hscopes⟩ := List.append_of_mem hmem
    have hnot : s ∉ front := (not_mem_of_nodup_middle (hscopes ▸ nodup_scopes q)).1
    have hsome : (front.findSome? fun t => (r.levelOf t).get k) ≠ none := by
      intro hnone
      rw [← findSome?_store_of_not_mem (v := v) hnot, List.findSome?_eq_none_iff] at hnone
      have hlevel : ((r.store s k v).level? s).isSome := by
        rw [Repository.store, Repository.level?_update_self]
        rfl
      exact h (foremost_iff.mpr ⟨front, back, hscopes, hlevel, hnone⟩)
    obtain ⟨first, hfirst⟩ := Option.ne_none_iff_exists'.mp hsome
    rw [hscopes, List.findSome?_append, List.findSome?_append, findSome?_store_of_not_mem hnot,
      hfirst, Option.some_or, Option.some_or]
  · exact findSome?_store_of_not_mem hmem

end Store

/-! ## Main result -/

/-- A value that is stored for a setting at a scope is the answer to a query exactly where this
scope comes first, with the base package in place.  Everywhere else, for the other settings, and
for rules, exclusions and extensions, all answers stay. -/
theorem value_store (c : Config) (s : Scope) (k : Setting) (v : k.Value) (q : Query) :
    let c' : Config := { c with repository := c.repository.store s k v }
    (k.Foremost c'.repository q s →
        (c'.setting k q).value = some (k.settle c.options.basePackage v)) ∧
      (¬ k.Foremost c'.repository q s → (c'.setting k q).value = (c.setting k q).value) ∧
      (∀ other : Setting, other ≠ k → (c'.setting other q).value = (c.setting other q).value) ∧
      (∀ l : SingleLookup, (c'.single l q).value = (c.single l q).value) ∧
      (∀ l : StackedLookup, (c'.stacked l q).value = (c.stacked l q).value) ∧
      (∀ l : NearestLookup, (c'.nearest l q).value = (c.nearest l q).value) ∧
      (∀ name values, (c'.extension name values).value = (c.extension name values).value) ∧
      (c'.excludes q).value = (c.excludes q).value := by
  intro c'
  refine ⟨fun h => ?_, fun h => ?_, fun other hne => ?_, fun l => ?_, fun l => ?_, fun l => ?_,
    fun name values => ?_, ?_⟩
  · rw [setting_value, findSome?_store_of_foremost h, Option.map_some]
  · rw [setting_value, findSome?_store_of_not_foremost h, setting_value]
  · have hagree : other.AgreeOn q c'.repository c.repository :=
      fun t _ => c.repository.get_levelOf_store_other s k v hne t
    rw [setting_value, setting_value, Setting.findSome?_eq_of_agreeOn hagree]
  · rw [single_value, single_value, c.repository.findings_store s k v l.serves]
  · rw [stacked_value, stacked_value, c.repository.findings_store s k v l.serves]
  · rw [nearest_value, nearest_value, c.repository.findings_store s k v l.serves]
  · rw [extension_value, extension_value, c.repository.extension_store]
  · rw [excludes_value, excludes_value, c.repository.excludes_store]

def wrapIn (name : String) : TypeRule := ⟨none, none, .ofName name, false, false⟩

/-- A wrapper for one method, of a path that says nothing itself. -/
def wrappedGet : Repository :=
  { Repository.empty with
    endpoints := [("/foo", ⟨Level.empty, [(.get, { Level.empty with
      single := some (wrapIn "A") })]⟩)] }

/-- A wrapper that is stored for the path is hidden by that of the method, and only there; a path
that was not there can have one, and neither case says anything about arrays. -/
theorem value_store_wrappedGet :
    let c : Config := ⟨wrappedGet, { Options.default with basePackage := "io" }⟩
    let v : Setting.single.Value := wrapIn "\x7bpackage-name\x7d.B"
    let stored (s : Scope) : Config := { c with repository := c.repository.store s .single v }
    let q (path : String) (m : HttpMethod) := (Query.empty.withPath path).withMethod m
    ((stored (.path "/foo")).setting .single (q "/foo" .get)).value = some (wrapIn "A") ∧
      ((stored (.path "/foo")).setting .single (q "/foo" .put)).value = some (wrapIn "io.B") ∧
      ((stored (.method "/bar" .get)).setting .single (q "/bar" .get)).value =
        some (wrapIn "io.B") ∧
      ((stored (.method "/bar" .get)).setting .multi (q "/bar" .get)).value = none := by
  intro c v stored q
  have hsettle : (wrapIn "\x7bpackage-name\x7d.B").settle "io" = wrapIn "io.B" := by
    decide +kernel
  have hhidden : ¬ Setting.single.Foremost (stored (.path "/foo")).repository (q "/foo" .get)
      (.path "/foo") := by
    rintro ⟨front, level, back, hchain, hfront⟩
    cases front with
    | nil => cases hchain
    | cons entry front =>
      obtain ⟨rfl, -⟩ := List.cons.inj hchain
      cases hfront _ List.mem_cons_self
  refine ⟨?_, ?_, ?_, ?_⟩
  · have hkept : (wrapIn "A").settle "io" = wrapIn "A" := by decide +kernel
    rw [(value_store c (.path "/foo") .single v _).2.1 hhidden, setting_value]
    exact congrArg some hkept
  · rw [← hsettle]
    exact (value_store c (.path "/foo") .single v _).1 ⟨[], _, _, rfl, by simp⟩
  · rw [← hsettle]
    exact (value_store c (.method "/bar" .get) .single v _).1 ⟨[], _, _, rfl, by simp⟩
  · rw [(value_store c (.method "/bar" .get) .single v _).2.2.1 .multi (by decide)]
    rfl

end TypeRules
