import TypeRules.Proofs.Document.WellFormed
import TypeRules.Proofs.Lookup.Walk
import TypeRules.Wrapper

/-! # Wrappers one after the other

A wrapper asks for one setting.  It puts the target of this setting around a type, or it leaves
the type alone.

* `Config.Wraps` is all that one wrapper can do, `wraps_wrap` says that it does so.
* `Config.wrapAll` puts wrappers on one after the other; what each of them keeps is kept by all
  of them (`wrapAll_induction`).
* `exists_of_setting_value` — settings come from a level of the repository.
-/

namespace TypeRules

/-! ## Settings of wrappers -/

def Wrapper.setting : Wrapper → Setting
  | result => .result
  | single => .single
  | multi => .multi
  | nullable => .nullable

theorem Document.wellFormed_of_config {d : Document} {c : Config} (h : d.config = .ok c) :
    ∀ l ∈ c.repository.levels, l.WellFormed := by
  obtain ⟨r, hr, rfl⟩ := map_eq_ok_iff.1 h
  intro l hl
  obtain ⟨clauses, hclauses, -⟩ := (Block.repository_eq_ok_iff.1 hr).exists_clauses hl
  exact hclauses.wellFormed

/-- The value of a setting is that of the first level in the chain that has one. -/
theorem setting_value_chain (c : Config) (s : Setting) (q : Query) :
    (c.setting s q).value =
      ((c.repository.chain q).findSome? fun entry => entry.2.get s).map
        (s.settle c.options.basePackage) := by
  rw [setting_value, s.findSome?_chain]

theorem exists_of_setting_value {c : Config} {s : Setting} {q : Query} {v : s.Value}
    (h : (c.setting s q).value = some v) :
    ∃ l ∈ c.repository.levels, ∃ w, l.get s = some w ∧ v = s.settle c.options.basePackage w := by
  rw [setting_value_chain] at h
  obtain ⟨w, hfound, rfl⟩ := Option.map_eq_some_iff.1 h
  obtain ⟨entry, hentry, hw⟩ := List.exists_of_findSome?_eq_some hfound
  exact ⟨entry.2, Repository.mem_levels_of_mem_chain hentry, w, hw, rfl⟩

/-! ## One wrapper -/

/-- What a wrapper makes of a type. -/
inductive Config.Wraps (c : Config) (q : Query) : Wrapper → DataType → DataType → Prop where
  | alone (w : Wrapper) (t : DataType) : c.Wraps q w t t
  | result {t : DataType} {r : ResultRule} (hrule : (c.setting .result q).value = some r)
      (hplain : r.isPlain = false) :
      c.Wraps q .result t
        (.result r.target.wrapperName t.boxed (c.options.generics r.target) r.isReplacement)
  | single {t : DataType} {r : TypeRule} (hrule : (c.setting .single q).value = some r)
      (hplain : r.isPlain = false) : c.Wraps q .single t (.single r.target.wrapperName t)
  | multi {t item : DataType} {r : TypeRule} (hrule : (c.setting .multi q).value = some r)
      (hplain : r.isPlain = false) (hitem : t.item? = some item) :
      c.Wraps q .multi t (.mapped r.target.wrapperName item true)
  | nullable {t : DataType} {r : NullRule} (hrule : (c.setting .nullable q).value = some r) :
      c.Wraps q .nullable t (.nullable r.target.wrapperName t r.initial)

theorem Config.wraps_wrap (c : Config) (w : Wrapper) (q : Query) (t : DataType) :
    c.Wraps q w t (c.wrap w q t) := by
  cases w with
  | result =>
    rw [wrap]
    cases hrule : (c.setting .result q).value with
    | none => exact .alone _ t
    | some r =>
      cases hplain : r.isPlain with
      | true => simpa [Options.wrapResult, hplain] using .alone _ t
      | false => simpa [Options.wrapResult, hplain] using .result hrule hplain
  | single =>
    rw [wrap]
    split
    · exact .alone _ t
    · cases hrule : (c.setting .single q).value with
      | none => exact .alone _ t
      | some r =>
        cases hplain : r.isPlain with
        | true => simpa [DataType.wrapSingle, hplain] using .alone _ t
        | false => simpa [DataType.wrapSingle, hplain] using .single hrule hplain
  | multi =>
    rw [wrap]
    split
    · cases hrule : (c.setting .multi q).value with
      | none => exact .alone _ t
      | some r =>
        cases hitem : t.item? with
        | none => simpa [DataType.wrapMulti, hitem] using .alone _ t
        | some item =>
          cases hplain : r.isPlain with
          | true => simpa [DataType.wrapMulti, hitem, hplain] using .alone _ t
          | false => simpa [DataType.wrapMulti, hitem, hplain] using .multi hrule hplain hitem
    · exact .alone _ t
  | nullable =>
    rw [wrap]
    cases hrule : (c.setting .nullable q).value with
    | none => exact .alone _ t
    | some r => exact .nullable hrule

/-! ## Several wrappers -/

/-- A type with wrappers put on one after the other, each as it is configured for a query of its
own. -/
def Config.wrapAll (c : Config) (steps : List (Wrapper × Query)) (t : DataType) : DataType :=
  steps.foldl (fun t step => c.wrap step.1 step.2 t) t

/-- What every wrapper keeps is kept by all of them together. -/
theorem Config.wrapAll_induction {c : Config} {P : DataType → Prop}
    (hstep : ∀ q w t u, c.Wraps q w t u → P t → P u) (steps : List (Wrapper × Query)) {t : DataType}
    (h : P t) : P (c.wrapAll steps t) := by
  induction steps generalizing t with
  | nil => exact h
  | cons step steps ih => exact ih (hstep step.2 step.1 t _ (c.wraps_wrap step.1 step.2 t) h)

end TypeRules
