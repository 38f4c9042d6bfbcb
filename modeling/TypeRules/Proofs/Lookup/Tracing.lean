import TypeRules.Proofs.Lookup.Walk
import TypeRules.Proofs.TypeRef.Text
import TypeRules.Wrapper

/-! # Tracing changes no answer

A lookup runs with a record or without one, as the options say.  Its answer is the same.

* `excludes_value`, `extension_value` — the two lookups that do not walk over rules or settings.
* `Options.generic_eq` — what wrappers take from the options is the base package and the suffix.
* `value_eq_of_tracing` — every lookup and every wrapper, under any two ways of tracing.
-/

namespace TypeRules

/-! ## Exclusion and extensions -/

theorem run_extensionMatches (name : String) (rules : List NameAnnotationRule)
    (values : List String) (recording : Recording) (leaves : List Step) :
    (extensionMatches name rules values).run (recording.add [.extension name] leaves) =
      (values.flatMap fun value => rules.filter fun rule => rule.name == value,
        recording.add [.extension name] (leaves ++ values.flatMap fun value =>
          rules.map fun rule => .leaf rule.text (rule.name == value))) := by
  induction values generalizing leaves with
  | nil =>
    rw [List.flatMap_nil, List.flatMap_nil, List.append_nil]
    rfl
  | cons value values ih =>
    have hfilter := run_filterRecorded [.extension name] NameAnnotationRule.text
      (fun rule => rule.name == value) rules recording leaves
    rw [extensionMatches, run_bind_of_run hfilter, run_bind_of_run (ih _), List.append_assoc,
      List.flatMap_cons, List.flatMap_cons]
    rfl

theorem extension_value (c : Config) (name : String) (values : List String) :
    (c.extension name values).value =
      (values.flatMap fun value =>
        (c.repository.extension name).filter fun rule => rule.name == value).map fun rule =>
          { rule with annotation := rule.annotation.settle c.options.basePackage } := by
  have hrun := run_extensionMatches name (c.repository.extension name) values
    (if c.options.tracing.enabled then some [] else none) []
  exact congrArg (fun found => found.1.map fun rule =>
    { rule with annotation := rule.annotation.settle c.options.basePackage }) hrun

theorem excludes_value (c : Config) (q : Query) :
    (c.excludes q).value = c.repository.excludes q := by
  rw [Config.excludes, Options.traced_value]
  cases c.repository.excludes q <;> rfl

/-! ## Wrappers -/

namespace Options

variable {o o' : Options}

theorem genericName_eq (hpackage : o.basePackage = o'.basePackage)
    (hsuffix : o.modelSuffix = o'.modelSuffix) (name : String) :
    o.genericName name = o'.genericName name := by
  rw [genericName, genericName, modelName, modelName, hpackage, hsuffix]

theorem genericsOf_eq_map (o : Options) (args : List TypeRef) :
    o.genericsOf args = args.map o.generic := by
  induction args with
  | nil => rfl
  | cons arg args ih => rw [genericsOf, ih, List.map_cons]

theorem generic_eq (hpackage : o.basePackage = o'.basePackage)
    (hsuffix : o.modelSuffix = o'.modelSuffix) (t : TypeRef) : o.generic t = o'.generic t := by
  induction t using TypeRef.induct with
  | mk name args ih =>
    rw [generic, generic, genericName_eq hpackage hsuffix, genericsOf_eq_map, genericsOf_eq_map,
      List.map_congr_left ih]

theorem wrapResult_eq (hpackage : o.basePackage = o'.basePackage)
    (hsuffix : o.modelSuffix = o'.modelSuffix) (rule : Option ResultRule) (d : DataType) :
    o.wrapResult rule d = o'.wrapResult rule d := by
  have hgenerics : ∀ target : TypeRef, o.generics target = o'.generics target := by
    intro target
    rw [generics, generics, genericsOf_eq_map, genericsOf_eq_map]
    exact List.map_congr_left fun arg _ => generic_eq hpackage hsuffix arg
  cases rule with
  | none => rfl
  | some r => rw [wrapResult, wrapResult, hgenerics]

end Options

/-! ## Main result -/

/-- Whether and where a trace is left makes no difference to what lookups answer, complaints
included, and to what wrappers make of a type. -/
theorem value_eq_of_tracing (r : Repository) (o : Options) (t t' : Tracing) (q : Query) :
    let c : Config := ⟨r, { o with tracing := t }⟩
    let c' : Config := ⟨r, { o with tracing := t' }⟩
    (∀ l : SingleLookup, (c.single l q).value = (c'.single l q).value) ∧
      (∀ l : StackedLookup, (c.stacked l q).value = (c'.stacked l q).value) ∧
      (∀ l : NearestLookup, (c.nearest l q).value = (c'.nearest l q).value) ∧
      (∀ s : Setting, (c.setting s q).value = (c'.setting s q).value) ∧
      (c.excludes q).value = (c'.excludes q).value ∧
      (∀ name values, (c.extension name values).value = (c'.extension name values).value) ∧
      ∀ w d, c.wrap w q d = c'.wrap w q d := by
  intro c c'
  have hsetting : ∀ s : Setting, (c.setting s q).value = (c'.setting s q).value := by
    intro s
    rw [setting_value, setting_value]
  refine ⟨fun l => ?_, fun l => ?_, fun l => ?_, hsetting, ?_, fun name values => ?_,
    fun w d => ?_⟩
  · rw [single_value, single_value]
  · rw [stacked_value, stacked_value]
  · rw [nearest_value, nearest_value]
  · rw [excludes_value, excludes_value]
  · rw [extension_value, extension_value]
  · cases w with
    | result =>
      simp only [Config.wrap, hsetting]
      have hwrap := @Options.wrapResult_eq c.options c'.options rfl rfl
      exact hwrap _ d
    | single => simp only [Config.wrap, hsetting]
    | multi => simp only [Config.wrap, hsetting]
    | nullable => simp only [Config.wrap, hsetting]

end TypeRules
