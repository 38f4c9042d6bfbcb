import TypeRules.Proofs.Lookup.Walk
import TypeRules.Proofs.Repository.Update

/-! # Stacking lookups

A stacking lookup puts the scopes of a query side by side, the global one first.

* `Topic.share` is what one scope contributes: the rules of its list that apply, as they stand
  there.  A scope without a level contributes nothing.
* `stacked_value_eq_shares` — the answer consists of the shares.
* `share_placed` — path and method decide which scopes there are, but not what is in a share.
* `share_update_self`, `share_update_of_ne` — a new rule that applies is the last one of its share,
  and the other shares stay.
* `stacked_concat` is the statement about all stacking lookups.
-/

namespace TypeRules

/-! ## Shares of scopes -/

namespace Topic

/-- The rules that apply at a scope, in document order. -/
def share (t : Topic) (r : Repository) (q : Query) (s : Scope) : List Rule :=
  match r.level? s with
  | some level => (t.list level).filter (t.accepts q)
  | none => []

theorem share_eq_applying (t : Topic) (r : Repository) (q : Query) (s : Scope) :
    t.share r q s = t.applying q (r.levelOf s) := by
  rw [share, Repository.levelOf]
  cases r.level? s with
  | none => exact (t.applying_empty q).symm
  | some level => rfl

/-- Scopes at which nothing applies are no findings, and add nothing to the answer either. -/
theorem flatMap_findings (t : Topic) (r : Repository) (q : Query) :
    (t.findings r q).reverse.flatMap Prod.snd = q.scopes.reverse.flatMap (t.share r q) := by
  rw [findings, ← List.filter_reverse, ← List.map_reverse]
  induction q.scopes.reverse with
  | nil => rfl
  | cons s rest ih =>
    rw [List.map_cons, List.flatMap_cons, t.share_eq_applying, ← ih]
    cases t.applying q (r.levelOf s) <;> simp

end Topic

theorem stacked_value_eq_shares (c : Config) (l : StackedLookup) (q : Query) :
    (c.stacked l q).value =
      (q.scopes.reverse.flatMap (l.topic.share c.repository q)).map
        (Rule.settle c.options.basePackage) := by
  rw [stacked_value, l.topic.flatMap_findings]

/-! ## Queries at other places -/

/-- The query with the same facts about a thing that stands elsewhere. -/
def Query.placed (q : Query) (path : Option String) (method : Option HttpMethod) : Query :=
  { q with path := path, method := method }

theorem Topic.accepts_placed (t : Topic) (q : Query) (path : Option String)
    (method : Option HttpMethod) : t.accepts (q.placed path method) = t.accepts q := by
  funext rule
  cases rule <;> rfl

theorem Topic.share_placed (t : Topic) (r : Repository) (q : Query) (path : Option String)
    (method : Option HttpMethod) : t.share r (q.placed path method) = t.share r q := by
  funext s
  rw [share, share, accepts_placed]

/-- More scopes behind those of a query are more rules behind those of its answer. -/
theorem stacked_placed_isPrefix (c : Config) (l : StackedLookup) (q : Query)
    {path path' : Option String} {method method' : Option HttpMethod}
    (h : (q.placed path method).scopes.reverse <+: (q.placed path' method').scopes.reverse) :
    (c.stacked l (q.placed path method)).value <+:
      (c.stacked l (q.placed path' method')).value := by
  rw [stacked_value_eq_shares, stacked_value_eq_shares, l.topic.share_placed, l.topic.share_placed]
  obtain ⟨more, hmore⟩ := h
  rw [← hmore, List.flatMap_append, List.map_append]
  exact List.prefix_append _ _

/-! ## One more rule -/

/-- A change to the level of a scope puts a rule behind those of the topic's list.  It may do
anything else to the level. -/
def Topic.Extends (t : Topic) (r : Repository) (s : Scope) (change : Level → Level)
    (rule : Rule) : Prop :=
  t.list (change (r.levelOf s)) = t.list (r.levelOf s) ++ [rule]

namespace Topic

variable {t : Topic} {r : Repository} {s : Scope} {change : Level → Level} {rule : Rule}

/-- A new rule adds itself to the share of its own scope, provided that it applies. -/
theorem share_update_self (h : t.Extends r s change rule) (q : Query) :
    t.share (r.update s change) q s =
      t.share r q s ++ if t.accepts q rule then [rule] else [] := by
  rw [share_eq_applying, share_eq_applying, r.levelOf_update_self, applying, h,
    List.filter_append, applying, List.filter_cons, List.filter_nil]

theorem share_update_of_ne {other : Scope} (h : other ≠ s) (q : Query) :
    t.share (r.update s change) q other = t.share r q other := by
  rw [share_eq_applying, share_eq_applying, r.levelOf_update_of_ne h]

theorem flatMap_share_update_of_not_mem {scopes : List Scope} (h : s ∉ scopes) (q : Query) :
    scopes.flatMap (t.share (r.update s change) q) = scopes.flatMap (t.share r q) := by
  refine List.flatMap_congr fun other hother => share_update_of_ne ?_ q
  rintro rfl
  exact h hother

/-- Only the share of one scope gets longer. -/
theorem flatMap_share_update (h : t.Extends r s change rule) {less more : List Scope}
    (hnodup : (less ++ s :: more).Nodup) (q : Query) :
    (less ++ s :: more).flatMap (t.share (r.update s change) q) =
      (less ++ [s]).flatMap (t.share r q) ++
        (if t.accepts q rule then [rule] else []) ++ more.flatMap (t.share r q) := by
  obtain ⟨hless, hmore⟩ := not_mem_of_nodup_middle hnodup
  rw [List.flatMap_append, List.flatMap_cons, flatMap_share_update_of_not_mem hless,
    share_update_self h, flatMap_share_update_of_not_mem hmore]
  simp only [List.flatMap_append, List.flatMap_singleton, List.append_assoc]

end Topic

/-! ## Main result -/

/-- Every stacking lookup answers, and with the shares of the scopes from the global one to that
of the method.  Hence

* with the same other facts, the answer without a path is the beginning of that with the path, and
  this is the beginning of the answer with path and method;
* a new rule that applies at one of the scopes comes behind the others of this scope;
* any other new rule, also at a scope that the query does not name, changes nothing. -/
theorem stacked_concat (c : Config) (l : StackedLookup) (q : Query) :
    (c.stacked l q).value =
        (q.scopes.reverse.flatMap (l.topic.share c.repository q)).map
          (Rule.settle c.options.basePackage) ∧
      (∀ path method other,
        (c.stacked l (q.placed none other)).value <+:
            (c.stacked l (q.placed (some path) none)).value ∧
          (c.stacked l (q.placed (some path) none)).value <+:
            (c.stacked l (q.placed (some path) (some method))).value) ∧
      (∀ less s more change rule, q.scopes.reverse = less ++ s :: more →
        l.topic.Extends c.repository s change rule → l.topic.accepts q rule = true →
        (Config.stacked ⟨c.repository.update s change, c.options⟩ l q).value =
          ((less ++ [s]).flatMap (l.topic.share c.repository q) ++ rule ::
            more.flatMap (l.topic.share c.repository q)).map
              (Rule.settle c.options.basePackage)) ∧
      (∀ s change rule, l.topic.Extends c.repository s change rule →
        (s ∈ q.scopes → l.topic.accepts q rule = false) →
        (Config.stacked ⟨c.repository.update s change, c.options⟩ l q).value =
          (c.stacked l q).value) := by
  have hnodup : q.scopes.reverse.Nodup := List.nodup_reverse.mpr (nodup_scopes q)
  refine ⟨stacked_value_eq_shares c l q, fun path method other => ⟨?_, ?_⟩, ?_, ?_⟩
  · exact stacked_placed_isPrefix c l q ⟨[.path path], rfl⟩
  · exact stacked_placed_isPrefix c l q ⟨[.method path method], rfl⟩
  · intro less s more change rule hscopes hextends haccepts
    rw [hscopes] at hnodup
    rw [stacked_value_eq_shares, hscopes, Topic.flatMap_share_update hextends hnodup,
      if_pos haccepts, List.append_assoc, List.singleton_append]
  · intro s change rule hextends hother
    rw [stacked_value_eq_shares, stacked_value_eq_shares]
    by_cases hmem : s ∈ q.scopes
    · obtain ⟨less, more, hscopes⟩ := List.append_of_mem (List.mem_reverse.mpr hmem)
      rw [hscopes] at hnodup ⊢
      rw [Topic.flatMap_share_update hextends hnodup, hother hmem]
      simp
    · rw [Topic.flatMap_share_update_of_not_mem (mt List.mem_reverse.mp hmem)]

def markFoo (name : String) : Rule := .annotate ⟨⟨"Foo", none⟩, .ofName name⟩

/-- Annotations for `Foo` at all levels of an endpoint, one of them twice, among rules of other
kinds and for other types. -/
def layeredRepository : Repository :=
  let other : Rule := .annotate ⟨⟨"Bar", none⟩, .ofName "Other"⟩
  { Repository.empty with
    global := { Level.empty with
      types := [markFoo "A", other, .interface ⟨"Foo", .ofName "Mark"⟩, markFoo "A"] }
    endpoints := [("/foo", ⟨{ Level.empty with types := [markFoo "B", other] },
      [(.get, { Level.empty with types := [other, markFoo "C"] })]⟩)] }

theorem stacked_concat_layeredRepository :
    let c : Config := ⟨layeredRepository, Options.default⟩
    let q := ((Query.empty.withName "Foo").withPath "/foo").withMethod .get
    let extend (rule : Rule) (level : Level) : Level :=
      { level with types := level.types ++ [rule] }
    let extended (s : Scope) (rule : Rule) : Config :=
      ⟨c.repository.update s (extend rule), c.options⟩
    (c.stacked .annotations q).value = [markFoo "A", markFoo "A", markFoo "B", markFoo "C"] ∧
      ((extended (.path "/foo") (markFoo "D")).stacked .annotations q).value =
        [markFoo "A", markFoo "A", markFoo "B", markFoo "D", markFoo "C"] ∧
      ((extended .global (.interface ⟨"Foo", .ofName "Mark"⟩)).stacked .annotations q).value =
        (c.stacked .annotations q).value := by
  intro c q extend extended
  obtain ⟨hvalue, -, hmore, hsame⟩ := stacked_concat c .annotations q
  refine ⟨?_, ?_, hsame .global _ _ rfl fun _ => by decide⟩
  · rw [hvalue]
    decide +kernel
  · rw [hmore [.global] (.path "/foo") [.method "/foo" .get] (extend (markFoo "D")) (markFoo "D")
      rfl rfl (by decide)]
    decide +kernel

end TypeRules
