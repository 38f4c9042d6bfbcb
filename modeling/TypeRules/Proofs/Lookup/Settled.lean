import TypeRules.Proofs.Lookup.Record
import TypeRules.Proofs.Lookup.Single
import TypeRules.Proofs.Rule.Names

/-! # Rules as they are handed out

Answers have the base package in place of the placeholder.  This is done to what was found, and
could as well be done to the whole repository before the search.

* `Repository.settle` does it to the whole repository, `Config.settle` with the base package at
  hand.
* `accepts_settle` — whether a rule applies does not depend on type names, so the same rules do;
  hence `findings_settle` and `verdict_settle_eq_ok_iff`.
* `value_handedOut` is the statement about every lookup.
-/

namespace TypeRules

/-! ## Settled repositories -/

def NameAnnotationRule.settle (base : String) (r : NameAnnotationRule) : NameAnnotationRule :=
  { r with annotation := r.annotation.settle base }

def Level.settle (base : String) (l : Level) : Level :=
  { l with
    result := l.result.map (ResultRule.settle base)
    single := l.single.map (TypeRule.settle base)
    multi := l.multi.map (TypeRule.settle base)
    nullable := l.nullable.map (NullRule.settle base)
    types := l.types.map (Rule.settle base)
    schemas := l.schemas.map (Rule.settle base)
    parameters := l.parameters.map (Rule.settle base)
    responses := l.responses.map (Rule.settle base) }

def Endpoint.settle (base : String) (e : Endpoint) : Endpoint where
  level := e.level.settle base
  methods := e.methods.map fun entry => (entry.1, entry.2.settle base)

/-- The repository with the base package in every rule. -/
def Repository.settle (base : String) (r : Repository) : Repository where
  global := r.global.settle base
  endpoints := r.endpoints.map fun entry => (entry.1, entry.2.settle base)
  extensions := r.extensions.map fun entry =>
    (entry.1, entry.2.map (NameAnnotationRule.settle base))

variable {base : String}

namespace Level

theorem bucket_settle (l : Level) (b : Bucket) :
    (l.settle base).bucket b = (l.bucket b).map (Rule.settle base) := by
  cases b <;> rfl

theorem get_settle (l : Level) (s : Setting) :
    (l.settle base).get s = (l.get s).map (s.settle base) := by
  cases s with
  | resultStyle => exact Option.map_id'.symm
  | resultStatus => exact Option.map_id'.symm
  | bodyStyle => exact Option.map_id'.symm
  | _ => rfl

end Level

/-- Whatever is done to the values, they are found under the same keys. -/
theorem find?_map_entries {κ α β : Type} [BEq κ] (f : α → β) (entries : List (κ × α)) (key : κ) :
    (((entries.map fun entry => (entry.1, f entry.2)).find? fun entry => entry.1 == key).map
      Prod.snd) = ((entries.find? fun entry => entry.1 == key).map Prod.snd).map f := by
  rw [List.find?_map, Option.map_map, Option.map_map]
  rfl

theorem Endpoint.method?_settle (e : Endpoint) (method : HttpMethod) :
    (e.settle base).method? method = (e.method? method).map (Level.settle base) :=
  find?_map_entries _ _ _

namespace Repository

theorem endpoint?_settle (r : Repository) (path : String) :
    (r.settle base).endpoint? path = (r.endpoint? path).map (Endpoint.settle base) :=
  find?_map_entries _ _ _

theorem level?_settle (r : Repository) (s : Scope) :
    (r.settle base).level? s = (r.level? s).map (Level.settle base) := by
  cases s with
  | global => rfl
  | path path =>
    rw [level?_path, level?_path, endpoint?_settle]
    cases r.endpoint? path <;> rfl
  | method path method =>
    rw [level?_method, level?_method, endpoint?_settle]
    cases r.endpoint? path with
    | none => rfl
    | some endpoint => exact endpoint.method?_settle method

theorem levelOf_settle (r : Repository) (s : Scope) :
    (r.settle base).levelOf s = (r.levelOf s).settle base := by
  rw [levelOf, levelOf, level?_settle]
  cases r.level? s <;> rfl

theorem extension_settle (r : Repository) (name : String) :
    (r.settle base).extension name =
      (r.extension name).map (NameAnnotationRule.settle base) := by
  have hfind := find?_map_entries (List.map (NameAnnotationRule.settle base)) r.extensions name
  rw [extension, settle, hfind, extension]
  cases r.extensions.find? fun entry => entry.1 == name <;> rfl

theorem excludes_settle (r : Repository) (q : Query) :
    (r.settle base).excludes q = r.excludes q := by
  rw [excludes, excludes, endpointOf?, endpointOf?, settle, List.find?_map, Option.any_map]
  congr 1
  funext entry
  simp only [Endpoint.excludes]
  cases hmethod : q.method with
  | none => rfl
  | some method =>
    simp only [Option.bind_some, Endpoint.method?_settle, Option.any_map]
    rfl

end Repository

/-! ## Findings in a settled repository -/

namespace Topic

/-- No test looks at a name that settling may change. -/
theorem accepts_settle (t : Topic) (q : Query) (rule : Rule) :
    t.accepts q (rule.settle base) = t.accepts q rule := by
  cases rule <;> rfl

def settleFinding (base : String) (finding : Scope × List Rule) : Scope × List Rule :=
  (finding.1, finding.2.map (Rule.settle base))

theorem flatMap_settleFinding (findings : List (Scope × List Rule)) :
    (findings.map (settleFinding base)).flatMap Prod.snd =
      (findings.flatMap Prod.snd).map (Rule.settle base) := by
  rw [List.flatMap_map, List.map_flatMap]
  rfl

end Topic

namespace RuleLookup.Serves

variable {l : RuleLookup} {t : Topic} (h : l.Serves t)
include h

theorem list_settle (level : Level) :
    t.list (level.settle base) = (t.list level).map (Rule.settle base) := by
  rw [← h.bucket, ← h.bucket, level.bucket_settle]

theorem applying_settle (q : Query) (level : Level) :
    t.applying q (level.settle base) = (t.applying q level).map (Rule.settle base) := by
  rw [Topic.applying, h.list_settle, List.filter_map, Topic.applying]
  congr 2
  funext rule
  exact t.accepts_settle q rule

theorem findings_settle (r : Repository) (q : Query) :
    t.findings (r.settle base) q = (t.findings r q).map (Topic.settleFinding base) := by
  rw [Topic.findings, Topic.findings]
  induction q.scopes with
  | nil => rfl
  | cons s rest ih =>
    rw [List.map_cons, List.map_cons, r.levelOf_settle, h.applying_settle]
    cases hrules : t.applying q (r.levelOf s) with
    | nil => simpa [hrules] using ih
    | cons rule others => simpa [hrules, Topic.settleFinding] using ih

end RuleLookup.Serves

theorem Setting.findSome?_settle (s : Setting) (r : Repository) (scopes : List Scope) :
    (scopes.findSome? fun scope => ((r.settle base).levelOf scope).get s) =
      (scopes.findSome? fun scope => (r.levelOf scope).get s).map (s.settle base) := by
  rw [List.map_findSome?]
  congr 1
  funext scope
  rw [r.levelOf_settle, Level.get_settle]
  rfl

/-! ## Settling twice -/

section

variable (h : BasePackage base)
include h

theorem Rule.handedOut_settle (rule : Rule) : naming.HandedOut base rule (rule.settle base) := by
  rw [settle_eq_rename]
  exact naming.handedOut_rename h rule

theorem Rule.settle_settle (rule : Rule) : (rule.settle base).settle base = rule.settle base := by
  rw [settle_eq_rename, settle_eq_rename]
  exact naming.rename_settleName_settleName h rule

theorem Rule.settle_comp_settle : settle base ∘ settle base = settle base :=
  funext (settle_settle h)

theorem Setting.handedOut_settle (s : Setting) (v : s.Value) :
    s.naming.HandedOut base v (s.settle base v) := by
  rw [s.settle_eq_rename]
  exact s.naming.handedOut_rename h v

theorem Setting.settle_comp_settle (s : Setting) :
    s.settle base ∘ s.settle base = s.settle base := by
  funext v
  rw [Function.comp_apply, s.settle_eq_rename, s.settle_eq_rename]
  exact s.naming.rename_settleName_settleName h v

theorem NameAnnotationRule.handedOut_settle (rule : NameAnnotationRule) :
    naming.HandedOut base rule (rule.settle base) :=
  naming.handedOut_rename h rule

theorem NameAnnotationRule.settle_comp_settle : settle base ∘ settle base = settle base :=
  funext (naming.rename_settleName_settleName h)

/-- Complaints show rules as they are written, so it is only the other verdicts that agree. -/
theorem Topic.verdict_settle_eq_ok_iff (t : Topic) (q : Query)
    (finding : Option (Scope × List Rule)) (answer : Option Rule) :
    ((t.verdict q (finding.map (settleFinding base))).map fun rule =>
        rule.map (Rule.settle base)) = .ok answer ↔
      ((t.verdict q finding).map fun rule => rule.map (Rule.settle base)) = .ok answer := by
  match finding with
  | none => rfl
  | some (scope, []) => rfl
  | some (scope, [rule]) =>
    show Except.ok (some ((rule.settle base).settle base)) = Except.ok answer ↔
      Except.ok (some (rule.settle base)) = Except.ok answer
    rw [Rule.settle_settle h]
  | some (scope, rule :: other :: others) =>
    constructor
    · intro hok
      cases hok
    · intro hok
      cases hok

end

/-! ## Lookups in a settled repository -/

/-- The configuration with its base package in every rule. -/
def Config.settle (c : Config) : Config :=
  { c with repository := c.repository.settle c.options.basePackage }

section

variable {c : Config} (h : BasePackage c.options.basePackage)
include h

theorem single_settle_eq_ok_iff (l : SingleLookup) (q : Query) (answer : Option Rule) :
    (c.settle.single l q).value = .ok answer ↔ (c.single l q).value = .ok answer := by
  rw [single_value, single_value, Config.settle, l.serves.findings_settle, List.head?_map]
  exact l.topic.verdict_settle_eq_ok_iff h q _ answer

theorem stacked_settle (l : StackedLookup) (q : Query) :
    (c.settle.stacked l q).value = (c.stacked l q).value := by
  rw [stacked_value, stacked_value, Config.settle, l.serves.findings_settle, ← List.map_reverse,
    Topic.flatMap_settleFinding, List.map_map, Rule.settle_comp_settle h]

theorem nearest_settle (l : NearestLookup) (q : Query) :
    (c.settle.nearest l q).value = (c.nearest l q).value := by
  rw [nearest_value, nearest_value, Config.settle, l.serves.findings_settle, List.head?_map]
  cases (l.topic.findings c.repository q).head? with
  | none => rfl
  | some finding =>
    have htwice := congrArg (List.map · finding.2) (Rule.settle_comp_settle h)
    rw [← List.map_map] at htwice
    exact htwice

theorem setting_settle (s : Setting) (q : Query) :
    (c.settle.setting s q).value = (c.setting s q).value := by
  rw [setting_value, setting_value, Config.settle, s.findSome?_settle, Option.map_map,
    s.settle_comp_settle h]

theorem extension_value_settle (name : String) (values : List String) :
    (c.settle.extension name values).value = (c.extension name values).value := by
  rw [extension_value, extension_value, Config.settle, c.repository.extension_settle]
  simp only [List.filter_map, List.map_flatMap, List.map_map]
  refine List.flatMap_congr fun value _ => ?_
  exact congrArg (List.map · _) (NameAnnotationRule.settle_comp_settle h)

end

/-! ## Main result -/

theorem forall₂_map_right_of_forall {α : Type} {R : α → α → Prop} {f : α → α}
    (h : ∀ x, R x (f x)) (xs : List α) : List.Forall₂ R xs (xs.map f) :=
  List.forall₂_map_right_iff.2 (List.forall₂_same.2 fun x _ => h x)

/-- Under a base package every lookup hands out what it found with nothing changed but the names
of types, in which the package has taken the place of the placeholder and the placeholder does not
occur any more; and it could have found the same in a repository that was settled before. -/
theorem value_handedOut (c : Config) (h : BasePackage c.options.basePackage) (q : Query) :
    let base := c.options.basePackage
    (∀ l : SingleLookup,
        (∀ rule, (c.single l q).value = .ok (some rule) →
          ∃ scope level stored, l.topic.Decides c.repository q scope level ∧
            (l.topic.list level).filter (l.topic.accepts q) = [stored] ∧
            Rule.naming.HandedOut base stored rule) ∧
        ∀ answer, (c.settle.single l q).value = .ok answer ↔ (c.single l q).value = .ok answer) ∧
      (∀ l : StackedLookup,
        List.Forall₂ (Rule.naming.HandedOut base)
          ((l.topic.rulesOf (c.repository.chain q).reverse).filter (l.topic.accepts q))
          (c.stacked l q).value ∧
        (c.settle.stacked l q).value = (c.stacked l q).value) ∧
      (∀ l : NearestLookup,
        List.Forall₂ (Rule.naming.HandedOut base)
          ((l.topic.rulesOf (l.topic.visited q (c.repository.chain q))).filter
            (l.topic.accepts q))
          (c.nearest l q).value ∧
        (c.settle.nearest l q).value = (c.nearest l q).value) ∧
      (∀ s : Setting,
        Option.Rel (s.naming.HandedOut base)
          (q.scopes.findSome? fun scope => (c.repository.levelOf scope).get s)
          (c.setting s q).value ∧
        (c.settle.setting s q).value = (c.setting s q).value) ∧
      (∀ name values,
        List.Forall₂ (NameAnnotationRule.naming.HandedOut base)
          (values.flatMap fun value =>
            (c.repository.extension name).filter fun rule => rule.name == value)
          (c.extension name values).value ∧
        (c.settle.extension name values).value = (c.extension name values).value) ∧
      (c.settle.excludes q).value = (c.excludes q).value := by
  intro base
  refine ⟨fun l => ⟨fun rule hrule => ?_, single_settle_eq_ok_iff h l q⟩,
    fun l => ⟨?_, stacked_settle h l q⟩, fun l => ⟨?_, nearest_settle h l q⟩,
    fun s => ⟨?_, setting_settle h s q⟩,
    fun name values => ⟨?_, extension_value_settle h name values⟩, ?_⟩
  · rw [single_value, Topic.outcome_iff] at hrule
    cases hrule with
    | only hdecides honly => exact ⟨_, _, _, hdecides, honly, Rule.handedOut_settle h _⟩
  · rw [stacked_value, l.topic.filter_rulesOf, l.topic.found_reverse, l.topic.found_chain]
    exact forall₂_map_right_of_forall (Rule.handedOut_settle h) _
  · rw [nearest_value, l.topic.filter_rulesOf_visited, l.topic.found_chain]
    exact forall₂_map_right_of_forall (Rule.handedOut_settle h) _
  · rw [setting_value]
    cases q.scopes.findSome? fun scope => (c.repository.levelOf scope).get s with
    | none => exact .none
    | some v => exact .some (s.handedOut_settle h v)
  · rw [extension_value]
    exact forall₂_map_right_of_forall (NameAnnotationRule.handedOut_settle h) _
  · rw [excludes_value, excludes_value, Config.settle, c.repository.excludes_settle]

/-- An envelope with the placeholder; a type rule that has it next to the name itself and inside
of an argument; and an annotation that has it in its name and in a parameter. -/
def packagedRepository : Repository :=
  { Repository.empty with
    global := { Level.empty with
      result := some ⟨none, .ofName "\x7bpackage-name\x7d.Result"⟩
      types := [.type ⟨some "Foo", none, .mk "\x7bpackage-name\x7dPage"
        [.mk "java.util.List" [.ofName "\x7bpackage-name\x7d.Foo"]], false, false⟩]
      parameters := [.annotateName ⟨"Foo", ⟨"\x7bpackage-name\x7d.Id",
        [("", .simple "\x7bpackage-name\x7d")]⟩⟩] } }

/-- The package is in all names, and in the settled repository the type rule is found as well; the
parameter stays as it is. -/
theorem value_packagedRepository :
    let o := { Options.default with basePackage := "io.oap" }
    let c : Config := ⟨packagedRepository, o⟩
    let q := Query.empty.withName "Foo"
    BasePackage "io.oap" ∧
      (c.settle.single .type q).value =
        .ok (some (.type ⟨some "Foo", none, .mk "io.oapPage"
          [.mk "java.util.List" [.ofName "io.oap.Foo"]], false, false⟩)) ∧
      List.Forall₂ (Rule.naming.HandedOut "io.oap") packagedRepository.global.parameters
        [.annotateName ⟨"Foo", ⟨"io.oap.Id", [("", .simple "\x7bpackage-name\x7d")]⟩⟩] ∧
      Option.Rel (ResultRule.naming.HandedOut "io.oap") packagedRepository.global.result
        (c.setting .result q).value := by
  intro o c q
  have hbase : BasePackage "io.oap" := ⟨by decide, by decide, by decide⟩
  obtain ⟨hsingle, hstacked, -, hsetting, -, -⟩ := value_handedOut c hbase q
  refine ⟨hbase, ((hsingle .type).2 _).2 ?_, ?_, (hsetting .result).1⟩
  · decide +kernel
  · have hvalue : (c.stacked .parameterNameAnnotations q).value =
        [.annotateName ⟨"Foo", ⟨"io.oap.Id", [("", .simple "\x7bpackage-name\x7d")]⟩⟩] := by
      decide +kernel
    rw [← hvalue]
    exact (hstacked .parameterNameAnnotations).1

end TypeRules
