import TypeRules.Proofs.Lookup.Topic
import TypeRules.Proofs.Repository.Scopes

/-! # What walks find

Every walk over the levels of a query sees the same thing: at each scope the rules that apply.
`Topic.findings` lists the scopes at which some rule of a topic applies, with these rules, the most
specific scope first.  The three walks over rules are functions of this list alone, whether a
record is made on the way or not.

* `run_filterRecorded`, `run_examine` — what is found in one list, and what is recorded there.
* `fst_run_single`, `fst_run_stacked`, `fst_run_nearest` evaluate the walks on any entries.
* `single_value`, `stacked_value`, `nearest_value` say so for a configuration and a query, and
  `setting_value` says the same for the walk that looks for a setting.
-/

namespace TypeRules

/-! ## Running recorders -/

/-- What a traced lookup answers is the answer of the lookup, run with a record or without. -/
theorem Options.traced_value {α : Type} (o : Options) (title : String) (q : Query)
    (lookup : Recorder α) :
    (o.traced title q lookup).value =
      (lookup.run (if o.tracing.enabled then some [] else none)).1 := rfl

theorem run_bind_of_run {α β : Type} {x : Recorder α} {f : α → Recorder β} {a : α}
    {before after : Recording} (h : x.run before = (a, after)) :
    (x >>= f).run before = (f a).run after := by
  rw [StateT.run_bind, h]
  rfl

namespace Step

theorem inside_inside (c : Container) (f g : List Step → List Step) (steps : List Step) :
    inside c f (inside c g steps) = inside c (fun steps => f (g steps)) steps := by
  induction steps with
  | nil => exact if_pos rfl
  | cons step steps ih =>
    cases step with
    | leaf text matched => rw [inside, inside, inside, ih]
    | node d inner =>
      by_cases h : d = c
      · simp only [inside, if_pos h]
      · simp only [inside, if_neg h, ih]

theorem within_within (place : List Container) (f g : List Step → List Step)
    (steps : List Step) :
    within place f (within place g steps) = within place (fun steps => f (g steps)) steps := by
  induction place generalizing steps with
  | nil => rfl
  | cons c place ih =>
    rw [within, within, within, inside_inside]
    congr 1
    funext steps
    exact ih steps

/-- Two additions at a place are one. -/
theorem add_add (place : List Container) (front back steps : List Step) :
    add place back (add place front steps) = add place (front ++ back) steps := by
  rw [add, add, within_within, add]
  simp only [List.append_assoc]

end Step

theorem Recording.add_add (recording : Recording) (place : List Container)
    (front back : List Step) :
    (recording.add place front).add place back = recording.add place (front ++ back) := by
  cases recording with
  | none => rfl
  | some steps => exact congrArg some (Step.add_add place front back steps)

/-- A recorded filter is a filter, and leaves all verdicts at its place, one behind the other. -/
theorem run_filterRecorded {α : Type} (place : List Container) (text : α → String)
    (accepts : α → Bool) (items : List α) (recording : Recording) (leaves : List Step) :
    (filterRecorded place text accepts items).run (recording.add place leaves) =
      (items.filter accepts, recording.add place
        (leaves ++ items.map fun item => .leaf (text item) (accepts item))) := by
  induction items generalizing leaves with
  | nil =>
    rw [List.map_nil, List.append_nil]
    rfl
  | cons item items ih =>
    have hrecord : (record place [.leaf (text item) (accepts item)]).run
        (recording.add place leaves) =
          ((), recording.add place (leaves ++ [.leaf (text item) (accepts item)])) :=
      congrArg (Prod.mk ()) (recording.add_add place _ _)
    rw [filterRecorded, run_bind_of_run hrecord, run_bind_of_run (ih _), List.append_assoc,
      List.filter_cons]
    rfl

/-- What is found in the list of a level are the rules that apply; every rule is recorded. -/
theorem RuleLookup.Serves.run_examine {l : RuleLookup} {t : Topic} (h : l.Serves t) (q : Query)
    (entry : Scope × Level) (recording : Recording) :
    (l.examine q entry).run recording =
      (t.applying q entry.2, recording.add (l.place entry.1)
        ((t.list entry.2).map fun rule => .leaf rule.text (t.accepts q rule))) := by
  have hfilter := run_filterRecorded (l.place entry.1) Rule.text (l.matcher.accepts q)
    (entry.2.bucket l.bucket) recording []
  have hrecord : (record (l.place entry.1) []).run recording =
      ((), recording.add (l.place entry.1) []) := rfl
  rw [RuleLookup.examine, run_bind_of_run hrecord, run_bind_of_run hfilter, Topic.applying,
    ← h.filterMap_ofKind?_filter, ← h.accepts_eq, ← h.bucket]
  rfl

/-! ## Findings -/

namespace Topic

def found (t : Topic) (q : Query) (entries : List (Scope × Level)) : List (Scope × List Rule) :=
  (entries.map fun entry => (entry.1, t.applying q entry.2)).filter fun finding =>
    !finding.2.isEmpty

theorem found_cons_of_nil {t : Topic} {q : Query} {entry : Scope × Level}
    (h : t.applying q entry.2 = []) (rest : List (Scope × Level)) :
    t.found q (entry :: rest) = t.found q rest := by
  simp [found, h]

theorem found_cons_of_ne_nil {t : Topic} {q : Query} {entry : Scope × Level}
    (h : t.applying q entry.2 ≠ []) (rest : List (Scope × Level)) :
    t.found q (entry :: rest) = (entry.1, t.applying q entry.2) :: t.found q rest := by
  simp [found, h]

theorem found_reverse (t : Topic) (q : Query) (entries : List (Scope × Level)) :
    t.found q entries.reverse = (t.found q entries).reverse := by
  rw [found, found, List.map_reverse, List.filter_reverse]

/-- The scopes of a query at which some rule applies, the most specific one first, with the rules
that do. -/
def findings (t : Topic) (r : Repository) (q : Query) : List (Scope × List Rule) :=
  (q.scopes.map fun s => (s, t.applying q (r.levelOf s))).filter fun finding =>
    !finding.2.isEmpty

/-- A missing level counts as one that says nothing, and that is no finding. -/
theorem found_chain (t : Topic) (r : Repository) (q : Query) :
    t.found q (r.chain q) = t.findings r q := by
  rw [chain_eq_filterMap_scopes, findings]
  induction q.scopes with
  | nil => rfl
  | cons s rest ih =>
    cases hlevel : r.level? s with
    | none => simpa [found, Repository.levelOf, hlevel] using ih
    | some level =>
      by_cases h : t.applying q level = [] <;>
        simpa [found, Repository.levelOf, hlevel, h] using ih

/-- What a single-winner lookup makes of the first finding. -/
def verdict (t : Topic) (q : Query) : Option (Scope × List Rule) →
    Except Ambiguity (Option Rule)
  | none => .ok none
  | some (_, []) => .ok none
  | some (_, [rule]) => .ok (some rule)
  | some (scope, rules) => .error ⟨t.name, scope.text, q.text, rules.map Rule.text⟩

end Topic

/-! ## Walks over entries -/

namespace RuleLookup.Serves

variable {l : RuleLookup} {t : Topic} (h : l.Serves t)
include h

theorem fst_run_single (q : Query) (entries : List (Scope × Level)) (recording : Recording) :
    ((l.single q entries).run recording).1 = t.verdict q (t.found q entries).head? := by
  induction entries generalizing recording with
  | nil => rfl
  | cons entry rest ih =>
    rw [single, StateT.run_bind, h.run_examine, h.kind]
    match hrules : t.applying q entry.2 with
    | [] => rw [Topic.found_cons_of_nil hrules]; exact ih _
    | [rule] => rw [Topic.found_cons_of_ne_nil (by simp [hrules]), hrules]; rfl
    | rule :: other :: others =>
      rw [Topic.found_cons_of_ne_nil (by simp [hrules]), hrules]
      rfl

theorem fst_run_stacked (q : Query) (entries : List (Scope × Level)) (recording : Recording) :
    ((l.stacked q entries).run recording).1 = (t.found q entries).flatMap Prod.snd := by
  induction entries generalizing recording with
  | nil => rfl
  | cons entry rest ih =>
    rw [stacked, StateT.run_bind, h.run_examine]
    have hrest := ih (recording.add (l.place entry.1)
      ((t.list entry.2).map fun rule => .leaf rule.text (t.accepts q rule)))
    by_cases hrules : t.applying q entry.2 = []
    · rw [Topic.found_cons_of_nil hrules, ← hrest, hrules]; rfl
    · rw [Topic.found_cons_of_ne_nil hrules, List.flatMap_cons, ← hrest]; rfl

theorem fst_run_nearest (q : Query) (entries : List (Scope × Level)) (recording : Recording) :
    ((l.nearest q entries).run recording).1 =
      ((t.found q entries).head?.map Prod.snd).getD [] := by
  induction entries generalizing recording with
  | nil => rfl
  | cons entry rest ih =>
    rw [nearest, StateT.run_bind, h.run_examine]
    match hrules : t.applying q entry.2 with
    | [] => rw [Topic.found_cons_of_nil hrules]; exact ih _
    | rule :: rules => rw [Topic.found_cons_of_ne_nil (by simp [hrules]), hrules]; rfl

end RuleLookup.Serves

theorem Setting.fst_run_first (s : Setting) (entries : List (Scope × Level))
    (recording : Recording) :
    ((s.first entries).run recording).1 = entries.findSome? fun entry => entry.2.get s := by
  induction entries generalizing recording with
  | nil => rfl
  | cons entry rest ih =>
    obtain ⟨scope, level⟩ := entry
    rw [first, List.findSome?_cons]
    cases level.get s with
    | none => exact ih recording
    | some value => rfl

theorem Setting.findSome?_chain (s : Setting) (r : Repository) (q : Query) :
    (r.chain q).findSome? (fun entry => entry.2.get s) =
      q.scopes.findSome? fun scope => (r.levelOf scope).get s := by
  have hempty : Level.empty.get s = none := by cases s <;> rfl
  rw [chain_eq_filterMap_scopes]
  induction q.scopes with
  | nil => rfl
  | cons scope rest ih =>
    cases hlevel : r.level? scope with
    | none => simpa [Repository.levelOf, hlevel, hempty] using ih
    | some level => simp [Repository.levelOf, hlevel, List.findSome?_cons, ih]

/-! ## Lookups of a configuration -/

theorem single_value (c : Config) (l : SingleLookup) (q : Query) :
    (c.single l q).value =
      (l.topic.verdict q (l.topic.findings c.repository q).head?).map fun rule =>
        rule.map (Rule.settle c.options.basePackage) := by
  rw [← l.topic.found_chain, Config.single, Options.traced_value,
    ← l.serves.fst_run_single q _ (if c.options.tracing.enabled then some [] else none)]
  rfl

theorem stacked_value (c : Config) (l : StackedLookup) (q : Query) :
    (c.stacked l q).value =
      ((l.topic.findings c.repository q).reverse.flatMap Prod.snd).map
        (Rule.settle c.options.basePackage) := by
  rw [← l.topic.found_chain, ← l.topic.found_reverse, Config.stacked, Options.traced_value,
    ← l.serves.fst_run_stacked q _ (if c.options.tracing.enabled then some [] else none)]
  rfl

theorem nearest_value (c : Config) (l : NearestLookup) (q : Query) :
    (c.nearest l q).value =
      (((l.topic.findings c.repository q).head?.map Prod.snd).getD []).map
        (Rule.settle c.options.basePackage) := by
  rw [← l.topic.found_chain, Config.nearest, Options.traced_value,
    ← l.serves.fst_run_nearest q _ (if c.options.tracing.enabled then some [] else none)]
  rfl

theorem setting_value (c : Config) (s : Setting) (q : Query) :
    (c.setting s q).value =
      (q.scopes.findSome? fun scope => (c.repository.levelOf scope).get s).map
        (s.settle c.options.basePackage) := by
  rw [← s.findSome?_chain, Config.setting, Options.traced_value,
    ← s.fst_run_first _ (if c.options.tracing.enabled then some [] else none)]
  rfl

end TypeRules
