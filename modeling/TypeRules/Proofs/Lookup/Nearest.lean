import TypeRules.Proofs.Lookup.NonInterference
import TypeRules.Proofs.Repository.Update

/-! # Lists that override each other

Additional and dropped parameters are taken from one level, and from there all of them.

* `NearestLookup.ofLevel` — the rules of a level that a lookup is about.  They share a list with
  rules of other kinds, so what counts is this part of the list and not the list.
* `nearest_value_eq_find?` — the answer is the first such part on the chain that is not empty.
* `chain_eq_of_place` — of a query only path and method matter.
* `ofLevel_withBucket` — a list may change, as long as this part of it stays.
* `nearest_whole` is the statement about both lookups.
-/

namespace TypeRules

/-! ## Rules of one level -/

namespace NearestLookup

def kind : NearestLookup → RuleKind
  | addParameters => .add
  | dropParameters => .drop

/-- The rules of the lookup's kind, in document order. -/
def ofLevel (l : NearestLookup) (level : Level) : List Rule :=
  level.parameters.filter fun rule => rule.kind == l.kind

theorem own_topic (l : NearestLookup) (level : Level) : l.topic.own level = l.ofLevel level := by
  cases l <;> rfl

/-- Nothing in a query is compared with a rule. -/
theorem applying_topic (l : NearestLookup) (q : Query) (level : Level) :
    l.topic.applying q level = l.ofLevel level := by
  have happlies : ∀ rule ∈ l.ofLevel level, rule.appliesTo q = true := by
    intro rule hrule
    have hkind := (List.mem_filter.1 hrule).2
    cases l <;> cases rule <;> first | rfl | cases hkind
  rw [l.topic.applying_eq_filter_own, own_topic, List.filter_eq_self]
  exact happlies

end NearestLookup

/-! ## The level that is taken -/

theorem nearest_value_eq_find? (c : Config) (l : NearestLookup) (q : Query) :
    (c.nearest l q).value =
      ((((c.repository.chain q).map fun entry => l.ofLevel entry.2).find? fun rules =>
        !rules.isEmpty).getD []).map (Rule.settle c.options.basePackage) := by
  rw [nearest_value, ← l.topic.found_chain, Topic.found, List.head?_filter, List.find?_map,
    List.find?_map, Option.map_map]
  simp only [Function.comp_def, l.applying_topic q]

theorem chain_eq_of_place {q q' : Query} (hpath : q'.path = q.path)
    (hmethod : q'.method = q.method) (r : Repository) : r.chain q' = r.chain q := by
  rw [chain_eq_filterMap_scopes, chain_eq_filterMap_scopes, Query.scopes, Query.scopes, hpath,
    hmethod]

/-! ## Other rules -/

/-- The level with other rules in one of its lists. -/
def Level.withBucket (b : Bucket) (rules : List Rule) (l : Level) : Level :=
  match b with
  | .types => { l with types := rules }
  | .schemas => { l with schemas := rules }
  | .parameters => { l with parameters := rules }
  | .responses => { l with responses := rules }

/-- Rules of other kinds may come or go, and in other lists even rules of the same kind. -/
theorem NearestLookup.ofLevel_withBucket (l : NearestLookup) {b : Bucket} {level : Level}
    {rules : List Rule} (h : b = .parameters →
      (rules.filter fun rule => rule.kind == l.kind) = l.ofLevel level) :
    l.ofLevel (level.withBucket b rules) = l.ofLevel level := by
  cases b with
  | parameters => exact h rfl
  | types | schemas | responses => rfl

theorem nearest_value_withBucket (c : Config) (l : NearestLookup) (q : Query) (s : Scope)
    {b : Bucket} {rules : List Rule} (h : b = .parameters →
      (rules.filter fun rule => rule.kind == l.kind) = l.ofLevel (c.repository.levelOf s)) :
    (Config.nearest { c with repository := c.repository.update s (Level.withBucket b rules) }
      l q).value = (c.nearest l q).value := by
  have hagree : l.topic.AgreeOn q (c.repository.update s (Level.withBucket b rules))
      c.repository := by
    intro t _
    rw [l.own_topic, l.own_topic]
    exact Repository.apply_levelOf_update l.ofLevel (l.ofLevel_withBucket h) t
  rw [nearest_value, nearest_value, Topic.findings_eq_of_agreeOn hagree]

/-! ## Main result -/

/-- Both lookups answer, in document order, with all rules of their kind at the most specific
level that has one, and with nothing but these.  Hence

* without such a level there is no answer;
* queries with the same path and method get the same answer;
* inserting a rule of another kind into a list, or taking one out, changes no answer. -/
theorem nearest_whole (c : Config) (l : NearestLookup) (q : Query) :
    (∀ front s level back, c.repository.chain q = front ++ (s, level) :: back →
        (∀ entry ∈ front, l.ofLevel entry.2 = []) → l.ofLevel level ≠ [] →
        (c.nearest l q).value = (l.ofLevel level).map (Rule.settle c.options.basePackage)) ∧
      ((∀ entry ∈ c.repository.chain q, l.ofLevel entry.2 = []) → (c.nearest l q).value = []) ∧
      (∀ q' : Query, q'.path = q.path → q'.method = q.method →
        (c.nearest l q').value = (c.nearest l q).value) ∧
      ∀ s b front rule back, rule.kind ≠ l.kind →
        let changed (rules : List Rule) : Config :=
          { c with repository := c.repository.update s (Level.withBucket b rules) }
        ((c.repository.levelOf s).bucket b = front ++ back →
          ((changed (front ++ rule :: back)).nearest l q).value = (c.nearest l q).value) ∧
        ((c.repository.levelOf s).bucket b = front ++ rule :: back →
          ((changed (front ++ back)).nearest l q).value = (c.nearest l q).value) := by
  refine ⟨fun front s level back hchain hfront hlevel => ?_, fun hnone => ?_,
    fun q' hpath hmethod => ?_, fun s b front rule back hkind => ?_⟩
  · have hskip : ((front.map fun entry => l.ofLevel entry.2).find? fun rules =>
        !rules.isEmpty) = none := by
      simpa using hfront
    have hstop : (!(l.ofLevel level).isEmpty) = true := by simpa using hlevel
    rw [nearest_value_eq_find?, hchain, List.map_append, List.find?_append, hskip, Option.none_or]
    simp only [List.map_cons, List.find?_cons, hstop, Option.getD_some]
  · have hskip : (((c.repository.chain q).map fun entry => l.ofLevel entry.2).find? fun rules =>
        !rules.isEmpty) = none := by
      simpa using hnone
    rw [nearest_value_eq_find?, hskip]
    rfl
  · rw [nearest_value_eq_find?, nearest_value_eq_find?, chain_eq_of_place hpath hmethod]
  · have hfilter : ((front ++ rule :: back).filter fun rule => rule.kind == l.kind) =
        (front ++ back).filter fun rule => rule.kind == l.kind := by
      rw [List.filter_append, List.filter_cons_of_neg (by simpa using hkind),
        ← List.filter_append]
    intro changed
    refine ⟨fun hbucket => nearest_value_withBucket c l q s ?_,
      fun hbucket => nearest_value_withBucket c l q s ?_⟩
    · rintro rfl
      rw [hfilter, ← hbucket]
      rfl
    · rintro rfl
      rw [← hfilter, ← hbucket]
      rfl

/-- Two additional parameters at a path, with a type between them, in front of a global one; the
method drops a parameter and adds none. -/
def overridingRepository : Repository :=
  let plain (name : String) : TypeRule := ⟨none, none, .ofName name, false, false⟩
  { Repository.empty with
    global := { Level.empty with parameters := [.add ⟨"locale", plain "A", none⟩] }
    endpoints := [("/foo", ⟨{ Level.empty with
      parameters := [.add ⟨"request", plain "\x7bpackage-name\x7d.B", none⟩,
        .type ⟨some "Foo", none, .ofName "C", false, false⟩, .add ⟨"session", plain "D", none⟩] },
      [(.get, { Level.empty with parameters := [.drop ⟨"page"⟩] })]⟩)] }

/-- The rules of the path are found behind those of the method, which are of the other kind, and
hide the global one.  They are still found when the drop rule is gone. -/
theorem nearest_whole_overridingRepository :
    let c : Config := ⟨overridingRepository, { Options.default with basePackage := "io" }⟩
    let q := (Query.empty.withPath "/foo").withMethod .get
    let plain (name : String) : TypeRule := ⟨none, none, .ofName name, false, false⟩
    let found : List Rule :=
      [.add ⟨"request", plain "io.B", none⟩, .add ⟨"session", plain "D", none⟩]
    let emptied : Level → Level := Level.withBucket .parameters []
    let c' : Config := { c with repository := c.repository.update (.method "/foo" .get) emptied }
    (c.nearest .addParameters q).value = found ∧
      (c.nearest .addParameters ((q.withType "string").withArray)).value = found ∧
      (c'.nearest .addParameters q).value = found ∧
      (c.nearest .dropParameters (q.withPath "/bar")).value = [] := by
  intro c q plain found emptied c'
  obtain ⟨hvalue, -, hplace, hchange⟩ := nearest_whole c .addParameters q
  have hfound : (c.nearest .addParameters q).value = found := by
    rw [hvalue [(.method "/foo" .get, _)] (.path "/foo") _ [_] rfl (by decide) (by decide)]
    decide +kernel
  refine ⟨hfound, ?_, ?_, ?_⟩
  · rw [← hfound]
    exact hplace _ rfl rfl
  · rw [← hfound]
    exact (hchange (.method "/foo" .get) .parameters [] (.drop ⟨"page"⟩) [] (by decide)).2 rfl
  · exact (nearest_whole c .dropParameters (q.withPath "/bar")).2.1 (by decide)

end TypeRules
