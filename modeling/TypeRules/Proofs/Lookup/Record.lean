import TypeRules.Proofs.Lookup.Tracing
import TypeRules.Proofs.Trace.Leaves

/-! # Traces tell the truth

The record of a lookup of rules shows every rule that the lookup looked at, in the order of the
walk, and marks those that apply.  These are the rules of the answer, or those that compete.

* `Topic.visited` — the levels that a walk reaches which stops at the first match.
* `snd_run_single`, `snd_run_stacked`, `snd_run_nearest` — what the walks add to a record.
* `inTurn_visits`, `inTurn_visits_reverse` — the levels of a query are recorded one behind the
  other, from the most specific one and from the least specific one.
* `trace_truthful` is the statement about every lookup of rules.

The non-trivial case is that of a path and its methods, which are recorded in one container.
-/

namespace TypeRules

open Step (addAll InTurn leavesOf)

/-! ## What walks look at -/

namespace Topic

/-- The levels that a walk reaches which stops at the first level with a match. -/
def visited (t : Topic) (q : Query) : List (Scope × Level) → List (Scope × Level)
  | [] => []
  | entry :: rest => if t.applying q entry.2 = [] then entry :: visited t q rest else [entry]

def rulesOf (t : Topic) (entries : List (Scope × Level)) : List Rule :=
  entries.flatMap fun entry => t.list entry.2

theorem visited_isPrefix (t : Topic) (q : Query) (entries : List (Scope × Level)) :
    t.visited q entries <+: entries := by
  induction entries with
  | nil => exact List.prefix_rfl
  | cons entry rest ih =>
    rw [visited]
    split
    · exact List.cons_prefix_cons.2 ⟨rfl, ih⟩
    · exact List.cons_prefix_cons.2 ⟨rfl, List.nil_prefix⟩

theorem filter_rulesOf (t : Topic) (q : Query) (entries : List (Scope × Level)) :
    (t.rulesOf entries).filter (t.accepts q) = (t.found q entries).flatMap Prod.snd := by
  induction entries with
  | nil => rfl
  | cons entry rest ih =>
    rw [rulesOf, List.flatMap_cons, List.filter_append, ← rulesOf, ih]
    by_cases h : t.applying q entry.2 = []
    · rw [found_cons_of_nil h, ← applying, h, List.nil_append]
    · rw [found_cons_of_ne_nil h, List.flatMap_cons]
      rfl

/-- Behind the first level with a match nothing is visited. -/
theorem filter_rulesOf_visited (t : Topic) (q : Query) (entries : List (Scope × Level)) :
    (t.rulesOf (t.visited q entries)).filter (t.accepts q) =
      ((t.found q entries).head?.map Prod.snd).getD [] := by
  induction entries with
  | nil => rfl
  | cons entry rest ih =>
    rw [visited]
    split
    · next h =>
      rw [found_cons_of_nil h, ← ih, rulesOf, List.flatMap_cons, List.filter_append, ← applying, h]
      rfl
    · next h =>
      rw [found_cons_of_ne_nil h, rulesOf, List.flatMap_singleton]
      rfl

end Topic

/-! ## What walks record -/

theorem map_addAll_nil (recording : Recording) : recording.map (addAll []) = recording := by
  cases recording <;> rfl

theorem map_addAll_cons (recording : Recording) (visit : Step.Visit) (visits : List Step.Visit) :
    recording.map (addAll (visit :: visits)) =
      (recording.add visit.1 visit.2).map (addAll visits) := by
  cases recording <;> rfl

theorem map_addAll_singleton (recording : Recording) (visit : Step.Visit) :
    recording.map (addAll [visit]) = recording.add visit.1 visit.2 := by
  rw [map_addAll_cons, map_addAll_nil]

/-- What a level adds to a record, and where. -/
def RuleLookup.visit (l : RuleLookup) (t : Topic) (q : Query) (entry : Scope × Level) :
    Step.Visit :=
  (l.place entry.1, (t.list entry.2).map fun rule => .leaf rule.text (t.accepts q rule))

namespace RuleLookup.Serves

variable {l : RuleLookup} {t : Topic} (h : l.Serves t)
include h

theorem snd_run_single (q : Query) (entries : List (Scope × Level)) (recording : Recording) :
    ((l.single q entries).run recording).2 =
      recording.map (addAll ((t.visited q entries).map (l.visit t q))) := by
  induction entries generalizing recording with
  | nil => exact (map_addAll_nil recording).symm
  | cons entry rest ih =>
    rw [single, StateT.run_bind, h.run_examine, Topic.visited]
    cases t.applying q entry.2 with
    | nil =>
      rw [if_pos rfl, List.map_cons, map_addAll_cons]
      exact ih _
    | cons rule others =>
      rw [if_neg (List.cons_ne_nil _ _), List.map_singleton, map_addAll_singleton]
      cases others <;> rfl

theorem snd_run_nearest (q : Query) (entries : List (Scope × Level)) (recording : Recording) :
    ((l.nearest q entries).run recording).2 =
      recording.map (addAll ((t.visited q entries).map (l.visit t q))) := by
  induction entries generalizing recording with
  | nil => exact (map_addAll_nil recording).symm
  | cons entry rest ih =>
    rw [nearest, StateT.run_bind, h.run_examine, Topic.visited]
    cases t.applying q entry.2 with
    | nil =>
      rw [if_pos rfl, List.map_cons, map_addAll_cons]
      exact ih _
    | cons rule rules =>
      rw [if_neg (List.cons_ne_nil _ _), List.map_singleton, map_addAll_singleton]
      rfl

theorem snd_run_stacked (q : Query) (entries : List (Scope × Level)) (recording : Recording) :
    ((l.stacked q entries).run recording).2 =
      recording.map (addAll (entries.map (l.visit t q))) := by
  induction entries generalizing recording with
  | nil => exact (map_addAll_nil recording).symm
  | cons entry rest ih =>
    rw [stacked, StateT.run_bind, h.run_examine, List.map_cons, map_addAll_cons]
    exact ih _

end RuleLookup.Serves

/-! ## One place behind the other -/

theorem Bucket.container_ne_method (b : Bucket) (kind : String) (method : HttpMethod) :
    Container.method method ≠ b.container kind := by
  cases b <;> exact nofun

theorem chain_cases (r : Repository) (q : Query) :
    (∃ whole, r.chain q = [(.global, whole)]) ∨
      (∃ path level whole, r.chain q = [(.path path, level), (.global, whole)]) ∨
      ∃ path method own level whole,
        r.chain q = [(.method path method, own), (.path path, level), (.global, whole)] := by
  rw [Repository.chain]
  cases r.endpointOf? q with
  | none => exact .inl ⟨r.global, rfl⟩
  | some entry =>
    obtain ⟨path, endpoint⟩ := entry
    cases h : endpoint.methods.find? fun entry => q.coversMethod path entry.1 with
    | none => exact .inr (.inl ⟨path, endpoint.level, r.global, by simp [h]⟩)
    | some own =>
      exact .inr (.inr ⟨path, own.1, own.2, endpoint.level, r.global, by simp [h]⟩)

namespace RuleLookup

/-- From the most specific level on, every list comes behind those that are there. -/
theorem inTurn_visits (l : RuleLookup) (t : Topic) (r : Repository) (q : Query) :
    InTurn ((r.chain q).map (l.visit t q)) [] := by
  obtain ⟨whole, h⟩ | ⟨path, level, whole, h⟩ | ⟨path, method, own, level, whole, h⟩ :=
    chain_cases r q
  · rw [h]
    exact ⟨.absent (Step.absent_nil _) _, trivial⟩
  · rw [h]
    have hglobal := Step.absent_inside (c := .global) (d := .endpoint path) nofun
    exact ⟨.absent (Step.absent_nil _) _, .absent (hglobal _ (Step.absent_nil _)) _, trivial⟩
  · rw [h]
    have hglobal := Step.absent_inside (c := .global) (d := .endpoint path) nofun
    refine ⟨.absent (Step.absent_nil _) _, ?_,
      .absent (hglobal _ (hglobal _ (Step.absent_nil _))) _, trivial⟩
    -- The container of the path is there already, but holds nothing besides the method.
    have hbucket := Step.absent_singleton (l.bucket.container_ne_method l.kind method)
    exact .of_added (Step.absent_nil _) (.absent (hbucket _) _)

/-- So does it from the least specific level on. -/
theorem inTurn_visits_reverse (l : RuleLookup) (t : Topic) (r : Repository) (q : Query) :
    InTurn ((r.chain q).reverse.map (l.visit t q)) [] := by
  obtain ⟨whole, h⟩ | ⟨path, level, whole, h⟩ | ⟨path, method, own, level, whole, h⟩ :=
    chain_cases r q
  · rw [h]
    exact ⟨.absent (Step.absent_nil _) _, trivial⟩
  · rw [h]
    have hpath := Step.absent_singleton (c := .endpoint path) (d := .global) nofun
    exact ⟨.absent (Step.absent_nil _) _, .absent (hpath _) _, trivial⟩
  · rw [h]
    have hpath := Step.absent_singleton (c := .endpoint path) (d := .global) nofun
    refine ⟨.absent (Step.absent_nil _) _, .absent (hpath _) _, ?_, trivial⟩
    have hmethod := Step.absent_singleton (l.bucket.container_ne_method l.kind method).symm
    exact .of_added (hpath _) (.absent (hmethod _) _)

theorem leavesOf_visits {l : RuleLookup} {t : Topic} {q : Query} {entries : List (Scope × Level)}
    (h : InTurn (entries.map (l.visit t q)) []) :
    leavesOf (addAll (entries.map (l.visit t q)) []) =
      (t.rulesOf entries).map fun rule => (rule.text, t.accepts q rule) := by
  rw [Step.leavesOf_addAll h, List.flatMap_map, Topic.rulesOf, List.map_flatMap]
  simp only [visit, Step.leavesOf_map_leaf]
  rfl

end RuleLookup

/-- All rules of an extension are recorded in one container. -/
theorem leavesOf_extension (name : String) (rules : List NameAnnotationRule)
    (values : List String) :
    leavesOf (Step.add [.extension name] (values.flatMap fun value =>
        rules.map fun rule => .leaf rule.text (rule.name == value)) []) =
      (values.flatMap fun value => rules.map fun rule => (value, rule)).map fun pair =>
        (pair.2.text, pair.2.name == pair.1) := by
  rw [Step.leavesOf_add_nil]
  induction values with
  | nil => rfl
  | cons value values ih =>
    rw [List.flatMap_cons, Step.leavesOf_append, ih, Step.leavesOf_map_leaf, List.flatMap_cons,
      List.map_append, List.map_map]
    rfl

/-! ## Finished traces -/

theorem Options.traced_trace {α : Type} {o : Options} (h : o.tracing.enabled = true)
    {title : String} {q : Query} {lookup : Recorder α} {steps : List Step}
    (hsteps : (lookup.run (some [])).2 = some steps) :
    (o.traced title q lookup).trace = some ⟨title, q.text, steps⟩ := by
  rw [Options.traced, h]
  exact congrArg (Option.map fun steps => (⟨title, q.text, steps⟩ : Trace)) hsteps

/-! ## Main result -/

/-- A trace shows the things that were looked at, in this order and each with its verdict.  What
it marks is what was found, and the trace as a whole is marked if there is such a thing. -/
structure Trace.Truthful {α : Type} (t : Trace) (text : α → String) (accepts : α → Bool)
    (looked found : List α) : Prop where
  found_eq : found = looked.filter accepts
  leaves : leavesOf t.steps = looked.map fun x => (text x, accepts x)
  shown : List.SublistForall₂ Step.ShownBy (leavesOf t.steps) t.lines
  matched : ((leavesOf t.steps).filter Prod.snd).map Prod.fst = found.map text
  isMatch : Step.anyMatch t.steps = true ↔ found ≠ []

theorem Trace.truthful_of_leaves {α : Type} {t : Trace} {text : α → String} {accepts : α → Bool}
    {looked : List α} (h : leavesOf t.steps = looked.map fun x => (text x, accepts x)) :
    t.Truthful text accepts looked (looked.filter accepts) where
  found_eq := rfl
  leaves := h
  shown := t.sublistForall₂_lines
  matched := by
    rw [h, List.filter_map, List.map_map]
    rfl
  isMatch := by
    rw [Step.anyMatch_eq_any, h, List.any_map, List.any_eq_true, ne_eq, List.filter_eq_nil_iff]
    simp

/-- What a single-winner lookup answers when it finds some rules: nothing, the only one of them,
or a complaint that lists them. -/
inductive SingleLookup.Answers (base : String) :
    List Rule → Except Ambiguity (Option Rule) → Prop where
  | nothing : Answers base [] (.ok none)
  | only (rule : Rule) : Answers base [rule] (.ok (some (rule.settle base)))
  | several {found : List Rule} {a : Ambiguity} (hseveral : 2 ≤ found.length)
      (hrules : a.rules = found.map Rule.text) : Answers base found (.error a)

theorem Topic.answers_verdict (t : Topic) (q : Query) (base : String)
    (finding : Option (Scope × List Rule)) :
    SingleLookup.Answers base ((finding.map Prod.snd).getD [])
      ((t.verdict q finding).map fun rule => rule.map (Rule.settle base)) := by
  cases finding with
  | none => exact .nothing
  | some finding =>
    obtain ⟨scope, rules⟩ := finding
    cases rules with
    | nil => exact .nothing
    | cons rule others =>
      cases others with
      | nil => exact .only rule
      | cons other others => exact .several (Nat.le_add_left 2 others.length) rfl

/-- Every lookup of rules leaves a truthful trace.  A walk that stops at the first match shows the
lists up to there, one that collects all matches shows all lists, and an extension shows its rules
for one value after the other. -/
theorem trace_truthful (c : Config) (h : c.options.tracing.enabled = true) (q : Query) :
    (∀ l : SingleLookup, ∃ t found, (c.single l q).trace = some t ∧
        t.Truthful Rule.text (l.topic.accepts q)
          (l.topic.rulesOf (l.topic.visited q (c.repository.chain q))) found ∧
        SingleLookup.Answers c.options.basePackage found (c.single l q).value) ∧
      (∀ l : StackedLookup, ∃ t found, (c.stacked l q).trace = some t ∧
        t.Truthful Rule.text (l.topic.accepts q)
          (l.topic.rulesOf (c.repository.chain q).reverse) found ∧
        (c.stacked l q).value = found.map (Rule.settle c.options.basePackage)) ∧
      (∀ l : NearestLookup, ∃ t found, (c.nearest l q).trace = some t ∧
        t.Truthful Rule.text (l.topic.accepts q)
          (l.topic.rulesOf (l.topic.visited q (c.repository.chain q))) found ∧
        (c.nearest l q).value = found.map (Rule.settle c.options.basePackage)) ∧
      ∀ name values, ∃ t found, (c.extension name values).trace = some t ∧
        t.Truthful (fun pair => pair.2.text) (fun pair => pair.2.name == pair.1)
          (values.flatMap fun value =>
            (c.repository.extension name).map fun rule => (value, rule)) found ∧
        (c.extension name values).value = found.map fun (_, rule) =>
          { rule with annotation := rule.annotation.settle c.options.basePackage } := by
  have hvisited : ∀ (l : RuleLookup) (t : Topic),
      InTurn ((t.visited q (c.repository.chain q)).map (l.visit t q)) [] := by
    intro l t
    obtain ⟨others, hothers⟩ := t.visited_isPrefix q (c.repository.chain q)
    have hall := l.inTurn_visits t c.repository q
    rw [← hothers, List.map_append] at hall
    exact hall.of_append
  refine ⟨fun l => ?_, fun l => ?_, fun l => ?_, fun name values => ?_⟩
  · have hleaves := RuleLookup.leavesOf_visits (hvisited l.rules l.topic)
    refine ⟨_, _, Options.traced_trace h (l.serves.snd_run_single q _ (some [])),
      Trace.truthful_of_leaves hleaves, ?_⟩
    rw [single_value, l.topic.filter_rulesOf_visited, l.topic.found_chain]
    exact l.topic.answers_verdict q _ _
  · have hleaves := RuleLookup.leavesOf_visits
      (l.rules.inTurn_visits_reverse l.topic c.repository q)
    refine ⟨_, _, Options.traced_trace h (l.serves.snd_run_stacked q _ (some [])),
      Trace.truthful_of_leaves hleaves, ?_⟩
    rw [stacked_value, l.topic.filter_rulesOf, l.topic.found_reverse, l.topic.found_chain]
  · have hleaves := RuleLookup.leavesOf_visits (hvisited l.rules l.topic)
    refine ⟨_, _, Options.traced_trace h (l.serves.snd_run_nearest q _ (some [])),
      Trace.truthful_of_leaves hleaves, ?_⟩
    rw [nearest_value, l.topic.filter_rulesOf_visited, l.topic.found_chain]
  · have hrun := run_extensionMatches name (c.repository.extension name) values (some []) []
    refine ⟨_, _, Options.traced_trace h (congrArg Prod.snd hrun),
      Trace.truthful_of_leaves (leavesOf_extension name _ values), ?_⟩
    rw [extension_value, List.filter_flatMap, List.map_flatMap, List.map_flatMap]
    simp only [List.filter_map, List.map_map]
    rfl

/-- A rule at a method of a path, one at the path and one for everything. -/
def threeLevels : Repository :=
  let level (source target : String) : Level :=
    { Level.empty with types := [.type ⟨some source, none, .ofName target, false, false⟩] }
  { global := level "Foo" "C"
    endpoints := [("/foo", ⟨level "Foo" "B", [(.get, level "Bar" "A")]⟩)]
    extensions := [] }

/-- The rule of the method is shown without a mark, that of the path with one; the rule for
everything is hidden and not shown. -/
theorem trace_truthful_threeLevels :
    let c : Config := ⟨threeLevels, { Options.default with tracing := ⟨true, .stdout⟩ }⟩
    let q := ((Query.empty.withPath "/foo").withMethod .get).withName "Foo"
    ∃ t, (c.single .type q).trace = some t ∧
      leavesOf t.steps = [("Bar => A", false), ("Foo => B", true)] ∧
      Step.anyMatch t.steps = true := by
  intro c q
  obtain ⟨t, found, htrace, htruthful, -⟩ := (trace_truthful c rfl q).1 .type
  refine ⟨t, htrace, htruthful.leaves.trans (by decide +kernel), htruthful.isMatch.2 ?_⟩
  rw [htruthful.found_eq]
  decide +kernel

end TypeRules
