import TypeRules.Lookup

/-! # What lookups are about

Each of the thirteen lookups of rules has a topic of its own: one of the four lists of a level, one
kind of rule, and the name that complaints give to this kind.

* `Rule.appliesTo` tells, kind by kind, whether a rule applies to a query.
* `SingleLookup.topic`, `StackedLookup.topic` and `NearestLookup.topic` say which topic a lookup
  has, apart from the list, the matcher and the selection that it searches with.
* `RuleLookup.Serves` says that a search keeps to a topic; `serves` says so for all lookups.
* `Serves.filterMap_ofKind?_filter` — whatever the matcher accepts is picked out by the selection.
-/

namespace TypeRules

/-! ## Rules that apply -/

/-- A rule for things of a certain name asks for this name and a rule for a content type asks for
the content type.  Additional and dropped parameters are the same for all things. -/
def Rule.appliesTo (q : Query) : Rule → Bool
  | .type r => q.acceptsType r
  | .name r => q.name == some r.parameter
  | .content r => q.contentType == some r.contentType
  | .annotate r => q.acceptsAnnotation r
  | .annotateName r => q.name == some r.name
  | .interface r => q.acceptsInterface r
  | .add _ => true
  | .drop _ => true

/-! ## Topics -/

/-- What a lookup is about: the rules of one kind in one of the lists of a level.  An empty level
has none. -/
structure Topic where
  name : String
  kind : RuleKind
  list : Level → List Rule
  list_empty : list Level.empty = []

namespace Topic

def accepts (t : Topic) (q : Query) (rule : Rule) : Bool :=
  rule.kind == t.kind && rule.appliesTo q

/-- The rules of a level that are of the topic's kind, in document order. -/
def own (t : Topic) (level : Level) : List Rule :=
  (t.list level).filter fun rule => rule.kind == t.kind

/-- The rules of a level that are accepted, in document order. -/
def applying (t : Topic) (q : Query) (level : Level) : List Rule :=
  (t.list level).filter (t.accepts q)

@[simp] theorem applying_empty (t : Topic) (q : Query) : t.applying q Level.empty = [] := by
  rw [applying, t.list_empty, List.filter_nil]

/-- Rules of other kinds make no difference. -/
theorem applying_eq_filter_own (t : Topic) (q : Query) (level : Level) :
    t.applying q level = (t.own level).filter fun rule => rule.appliesTo q := by
  rw [applying, own, List.filter_filter]
  congr 1
  funext rule
  exact Bool.and_comm _ _

end Topic

/-- The topic of a single-winner lookup. -/
def SingleLookup.topic : SingleLookup → Topic
  | type => ⟨"type", .type, Level.types, rfl⟩
  | schema => ⟨"schema", .type, Level.schemas, rfl⟩
  | parameter => ⟨"type", .type, Level.parameters, rfl⟩
  | parameterName => ⟨"name", .name, Level.parameters, rfl⟩
  | contentType => ⟨"content type", .content, Level.responses, rfl⟩

/-- The topic of a stacking lookup: annotations of types, schemas, parameter types and parameter
names, and interfaces of types and parameters. -/
def StackedLookup.topic : StackedLookup → Topic
  | annotations => ⟨"annotation", .annotate, Level.types, rfl⟩
  | schemaAnnotations => ⟨"annotation", .annotate, Level.schemas, rfl⟩
  | parameterAnnotations => ⟨"annotation", .annotate, Level.parameters, rfl⟩
  | parameterNameAnnotations => ⟨"annotation name", .annotateName, Level.parameters, rfl⟩
  | interfaces => ⟨"interface", .interface, Level.types, rfl⟩
  | parameterInterfaces => ⟨"interface", .interface, Level.parameters, rfl⟩

/-- The topic of an overriding lookup. -/
def NearestLookup.topic : NearestLookup → Topic
  | addParameters => ⟨"add", .add, Level.parameters, rfl⟩
  | dropParameters => ⟨"drop", .drop, Level.parameters, rfl⟩

/-! ## Searches that keep to a topic -/

def Matcher.kind : Matcher → RuleKind
  | type => .type
  | annotate => .annotate
  | interface => .interface
  | parameterName => .name
  | annotateParameter => .annotateName
  | contentType => .content
  | addParameter => .add
  | dropParameter => .drop

/-- A matcher accepts rules of its kind only, and of these the ones that apply. -/
theorem Matcher.accepts_eq (m : Matcher) (q : Query) (rule : Rule) :
    m.accepts q rule = (rule.kind == m.kind && rule.appliesTo q) := by
  cases m <;> cases rule <;> rfl

/-- The search looks into the list of the topic, and both its matcher and its selection are for
rules of the topic's kind. -/
structure RuleLookup.Serves (l : RuleLookup) (t : Topic) : Prop where
  kind : l.kind = t.name
  bucket : ∀ level : Level, level.bucket l.bucket = t.list level
  matcher : l.matcher.kind = t.kind
  selects : l.selects = t.kind

theorem SingleLookup.serves (l : SingleLookup) : l.rules.Serves l.topic := by
  cases l <;> exact ⟨rfl, fun _ => rfl, rfl, rfl⟩

theorem StackedLookup.serves (l : StackedLookup) : l.rules.Serves l.topic := by
  cases l <;> exact ⟨rfl, fun _ => rfl, rfl, rfl⟩

theorem NearestLookup.serves (l : NearestLookup) : l.rules.Serves l.topic := by
  cases l <;> exact ⟨rfl, fun _ => rfl, rfl, rfl⟩

namespace RuleLookup.Serves

variable {l : RuleLookup} {t : Topic} (h : l.Serves t)
include h

theorem accepts_eq (q : Query) : l.matcher.accepts q = t.accepts q := by
  funext rule
  rw [Matcher.accepts_eq, h.matcher, Topic.accepts]

/-- The kind is asked for twice, and a rule that the matcher accepts passes the second time too. -/
theorem ofKind?_of_accepts {q : Query} {rule : Rule} (haccepts : l.matcher.accepts q rule = true) :
    rule.ofKind? l.selects = some rule := by
  rw [Matcher.accepts_eq, Bool.and_eq_true, beq_iff_eq] at haccepts
  rw [Rule.ofKind?, h.selects, ← h.matcher, if_pos haccepts.1]

theorem filterMap_ofKind?_filter (q : Query) (rules : List Rule) :
    (rules.filter (l.matcher.accepts q)).filterMap (Rule.ofKind? l.selects) =
      rules.filter (t.accepts q) := by
  rw [← h.accepts_eq]
  induction rules with
  | nil => rfl
  | cons rule rules ih =>
    by_cases haccepts : l.matcher.accepts q rule = true
    · rw [List.filter_cons_of_pos haccepts,
        List.filterMap_cons_some (h.ofKind?_of_accepts haccepts), ih]
    · rw [List.filter_cons_of_neg haccepts, ih]

end RuleLookup.Serves

end TypeRules
