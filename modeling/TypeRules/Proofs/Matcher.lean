import TypeRules.Matcher

/-! # What matchers accept

A type rule applies to a query in one of three ways: to a thing of its name, to a primitive thing
of its type, and to every array if its source is `array`.

* `TypeRule.Applies` lists the three ways.
* `TypeRule.Hidden` is the exception: the matcher does not try a rule as one for arrays once the
  query is known to be primitive.
* `accepts_type_iff` — the matcher accepts the rules that apply and are not hidden.
-/

namespace TypeRules

namespace TypeRule

/-! ## Ways to apply -/

/-- The source of the rule is a fact of a query, in the same format.  Neither a rule without a
source nor a query without the fact counts, and no format is a format of its own. -/
def IsFor (r : TypeRule) (fact format : Option String) : Prop :=
  ∃ name, r.sourceName = some name ∧ fact = some name ∧ r.sourceFormat = format

inductive Applies (r : TypeRule) (q : Query) : Prop where
  | byName (h : r.IsFor q.name q.format)
  | byType (hprimitive : q.primitive = true) (h : r.IsFor q.type q.format)
  | asArray (harray : q.array = true) (hsource : r.sourceName = some arraySource)

/-- The rule applies as one for arrays only, and the query is primitive too. -/
structure Hidden (r : TypeRule) (q : Query) : Prop where
  array : q.array = true
  source : r.sourceName = some arraySource
  primitive : q.primitive = true
  notByName : ¬ r.IsFor q.name q.format
  notByType : ¬ r.IsFor q.type q.format

theorem isFor_iff {r : TypeRule} {fact format : Option String} :
    (r.sourceName.isSome && r.sourceName == fact && r.sourceFormat == format) = true ↔
      r.IsFor fact format := by
  rw [Bool.and_eq_true, Bool.and_eq_true, beq_iff_eq, beq_iff_eq]
  constructor
  · rintro ⟨⟨hsome, hfact⟩, hformat⟩
    obtain ⟨name, hname⟩ := Option.isSome_iff_exists.1 hsome
    exact ⟨name, hname, by rw [← hfact, hname], hformat⟩
  · rintro ⟨name, hname, hfact, hformat⟩
    rw [hname, hfact]
    exact ⟨⟨rfl, rfl⟩, hformat⟩

theorem acceptsType_iff (q : Query) (r : TypeRule) :
    q.acceptsType r = true ↔ r.IsFor q.name q.format ∨
      (if q.primitive then r.IsFor q.type q.format
        else q.array = true ∧ r.sourceName = some arraySource) := by
  unfold Query.acceptsType
  rw [Bool.or_eq_true, isFor_iff]
  apply or_congr_right
  split
  · exact isFor_iff
  · simp

end TypeRule

/-! ## Main result -/

/-- Of all rules, the matcher for types accepts the type rules that apply, except for those that
are hidden. -/
theorem accepts_type_iff (q : Query) (rule : Rule) :
    Matcher.type.accepts q rule = true ↔ ∃ r, rule = .type r ∧ r.Applies q ∧ ¬ r.Hidden q := by
  cases rule with
  | type r =>
    have haccepts : Matcher.type.accepts q (.type r) = q.acceptsType r := rfl
    rw [haccepts, TypeRule.acceptsType_iff]
    constructor
    · rintro (hname | h)
      · exact ⟨r, rfl, .byName hname, fun hidden => hidden.notByName hname⟩
      · by_cases hprimitive : q.primitive = true
        · rw [if_pos hprimitive] at h
          exact ⟨r, rfl, .byType hprimitive h, fun hidden => hidden.notByType h⟩
        · rw [if_neg hprimitive] at h
          exact ⟨r, rfl, .asArray h.1 h.2, fun hidden => hprimitive hidden.primitive⟩
    · rintro ⟨r', hr, happlies, hhidden⟩
      cases hr
      cases happlies with
      | byName h => exact .inl h
      | byType hprimitive h => exact .inr (by rwa [if_pos hprimitive])
      | asArray harray hsource =>
        by_cases hprimitive : q.primitive = true
        · rw [if_pos hprimitive]
          by_cases hname : r.IsFor q.name q.format
          · exact .inl hname
          · by_cases htype : r.IsFor q.type q.format
            · exact .inr htype
            · exact absurd ⟨harray, hsource, hprimitive, hname, htype⟩ hhidden
        · rw [if_neg hprimitive]
          exact .inr ⟨harray, hsource⟩
  | _ => simp [Matcher.accepts]

/-- A rule for arrays, and a query for an array of strings that is marked as primitive as well. -/
theorem accepts_type_array_of_primitive :
    let r : TypeRule := ⟨some "array", none, .ofName "java.util.Collection", false, false⟩
    let q := ((Query.empty.withType "string").withPrimitive).withArray
    r.Applies q ∧ Matcher.type.accepts q (.type r) = false := by
  intro r q
  exact ⟨.asArray rfl rfl, by decide⟩

end TypeRules
