import Mathlib.Data.List.Basic
import TypeRules.Proofs.Lookup.Walk

/-! # Lookups do not interfere

Two repositories may differ in almost everything and still give the same answer.  A lookup of
rules depends on the rules of its own kind in its own list at the scopes that the query names, a
lookup of a setting on that setting at these scopes.

* `Topic.AgreeOn` and `Setting.AgreeOn` say that two repositories agree on all that a lookup
  depends on.
* `findings_eq_of_agreeOn` — then the same rules are found at the same scopes.
* `value_eq_of_agreeOn` is the statement about every lookup.
-/

namespace TypeRules

/-! ## Agreement -/

/-- Two repositories agree on the rules that a lookup is about, at all scopes of a query. -/
def Topic.AgreeOn (t : Topic) (q : Query) (r r' : Repository) : Prop :=
  ∀ s ∈ q.scopes, t.own (r.levelOf s) = t.own (r'.levelOf s)

def Setting.AgreeOn (setting : Setting) (q : Query) (r r' : Repository) : Prop :=
  ∀ s ∈ q.scopes, (r.levelOf s).get setting = (r'.levelOf s).get setting

theorem Topic.findings_eq_of_agreeOn {t : Topic} {q : Query} {r r' : Repository}
    (h : t.AgreeOn q r r') : t.findings r q = t.findings r' q := by
  rw [findings, findings]
  congr 1
  refine List.map_congr_left fun s hs => ?_
  rw [t.applying_eq_filter_own, t.applying_eq_filter_own, h s hs]

theorem findSome?_congr {α β : Type} {f g : α → Option β} {xs : List α}
    (h : ∀ x ∈ xs, f x = g x) : xs.findSome? f = xs.findSome? g := by
  rw [← List.head?_filterMap, ← List.head?_filterMap]
  exact congrArg List.head? (List.filterMap_congr h)

theorem Setting.findSome?_eq_of_agreeOn {s : Setting} {q : Query} {r r' : Repository}
    (h : s.AgreeOn q r r') :
    (q.scopes.findSome? fun scope => (r.levelOf scope).get s) =
      q.scopes.findSome? fun scope => (r'.levelOf scope).get s :=
  findSome?_congr h

/-! ## Main result -/

/-- Whatever two repositories say at other scopes, in other lists, with rules of other kinds, in
other settings or about extensions: a lookup answers the same in both, complaints included, if
they agree on what it depends on. -/
theorem value_eq_of_agreeOn (o : Options) (q : Query) (r r' : Repository) :
    (∀ l : SingleLookup, l.topic.AgreeOn q r r' →
      (Config.single ⟨r, o⟩ l q).value = (Config.single ⟨r', o⟩ l q).value) ∧
    (∀ l : StackedLookup, l.topic.AgreeOn q r r' →
      (Config.stacked ⟨r, o⟩ l q).value = (Config.stacked ⟨r', o⟩ l q).value) ∧
    (∀ l : NearestLookup, l.topic.AgreeOn q r r' →
      (Config.nearest ⟨r, o⟩ l q).value = (Config.nearest ⟨r', o⟩ l q).value) ∧
    (∀ s : Setting, s.AgreeOn q r r' →
      (Config.setting ⟨r, o⟩ s q).value = (Config.setting ⟨r', o⟩ s q).value) := by
  refine ⟨fun l h => ?_, fun l h => ?_, fun l h => ?_, fun s h => ?_⟩
  · rw [single_value, single_value, Topic.findings_eq_of_agreeOn h]
  · rw [stacked_value, stacked_value, Topic.findings_eq_of_agreeOn h]
  · rw [nearest_value, nearest_value, Topic.findings_eq_of_agreeOn h]
  · rw [setting_value, setting_value, Setting.findSome?_eq_of_agreeOn h]

/-- A type rule for `Foo`, and a drop rule, at the global level. -/
def quietRepository : Repository :=
  { Repository.empty with
    global := { Level.empty with
      types := [.type ⟨some "Foo", none, .ofName "A", false, false⟩]
      parameters := [.drop ⟨"page"⟩]
      bodyStyle := some .object } }

/-- The same rules, with an empty block for the method at hand, with rules of other kinds between
them, in other lists, and for another path. -/
def noisyRepository : Repository :=
  let mark : Rule := .interface ⟨"Foo", .ofName "Mark"⟩
  let other : Rule := .type ⟨some "Foo", none, .ofName "B", false, false⟩
  { global := { Level.empty with
      types := [mark, .type ⟨some "Foo", none, .ofName "A", false, false⟩, mark]
      schemas := [other, other]
      parameters := [other, .drop ⟨"page"⟩]
      bodyStyle := some .object
      resultStatus := some true }
    endpoints :=
      [("/bar", ⟨{ Level.empty with types := [other, other], bodyStyle := some .destructure }, []⟩),
        ("/foo", ⟨{ Level.empty with types := [mark] }, [(.get, Level.empty), (.put,
          { Level.empty with types := [other], parameters := [.drop ⟨"size"⟩] })]⟩)]
    extensions := [("x-foo", [⟨"Foo", .ofName "Ann"⟩])] }

theorem value_eq_noisyRepository :
    let q := ((Query.empty.withName "Foo").withPath "/foo").withMethod .get
    let o := Options.default
    (Config.single ⟨noisyRepository, o⟩ .type q).value =
        (Config.single ⟨quietRepository, o⟩ .type q).value ∧
      (Config.stacked ⟨noisyRepository, o⟩ .annotations q).value =
        (Config.stacked ⟨quietRepository, o⟩ .annotations q).value ∧
      (Config.nearest ⟨noisyRepository, o⟩ .dropParameters q).value =
        (Config.nearest ⟨quietRepository, o⟩ .dropParameters q).value ∧
      (Config.setting ⟨noisyRepository, o⟩ .bodyStyle q).value =
        (Config.setting ⟨quietRepository, o⟩ .bodyStyle q).value := by
  intro q o
  obtain ⟨hsingle, hstacked, hnearest, hsetting⟩ :=
    value_eq_of_agreeOn o q noisyRepository quietRepository
  refine ⟨hsingle .type ?_, hstacked .annotations ?_, hnearest .dropParameters ?_,
    hsetting .bodyStyle ?_⟩
  · unfold Topic.AgreeOn; decide
  · unfold Topic.AgreeOn; decide
  · unfold Topic.AgreeOn; decide
  · show ∀ s ∈ q.scopes,
      (noisyRepository.levelOf s).bodyStyle = (quietRepository.levelOf s).bodyStyle
    decide

end TypeRules
