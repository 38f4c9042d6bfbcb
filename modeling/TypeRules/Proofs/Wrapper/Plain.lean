import TypeRules.Proofs.Text.Replace
import TypeRules.Proofs.Wrapper.Step

/-! # Types that are left alone

A wrapper leaves a type alone if no rule is set for the query, and if the rule that counts is the
sentinel `plain`, whatever less specific levels say.  The null wrapper knows no sentinel: it puts
the name `plain` around the type.

* `Wrapper.Sentinel` — the rules that have nothing but the sentinel.
* `Wrapper.underSentinel` is what a wrapper makes of a type under such a rule.
* `wrap_of_none_or_sentinel` is the statement about configurations.
-/

namespace TypeRules

open Text

/-! ## The sentinel -/

namespace Wrapper

/-- The target is the sentinel alone.  An envelope that takes the place of the response is no
sentinel, whatever its name. -/
def Sentinel : (w : Wrapper) → w.setting.Value → Prop
  | result, (r : ResultRule) => r.target = .ofName plainName ∧ r.isReplacement = false
  | single, (r : TypeRule) => r.target = .ofName plainName
  | multi, (r : TypeRule) => r.target = .ofName plainName
  | nullable, (r : NullRule) => r.target = .ofName plainName

def underSentinel : (w : Wrapper) → w.setting.Value → DataType → DataType
  | nullable, (r : NullRule), t => .nullable ⟨plainName, ""⟩ t r.initial
  | _, _, t => t

end Wrapper

theorem TypeRef.settle_plain (base : String) :
    (ofName plainName).settle base = ofName plainName := by
  have hfree : ¬ placeholder.toList <:+: plainName.toList := by decide
  have hname : settleName base plainName = plainName := by
    rw [settleName, replaceAll_of_not_infix (by decide) hfree, String.ofList_toList]
  rw [ofName, settle, hname]
  rfl

theorem TypeRule.isPlain_settle {r : TypeRule} (h : r.target = .ofName plainName) (base : String) :
    (r.settle base).isPlain = true := by
  rw [isPlain, settle, h, TypeRef.settle_plain]
  rfl

/-- In a document an envelope has no source but the sentinel, which makes it a replacement. -/
theorem ResultRule.isPlain_settle {r : ResultRule} (hr : r.WellFormed)
    (h : r.target = .ofName plainName) (hreplacement : r.isReplacement = false) (base : String) :
    (r.settle base).isPlain = true := by
  rcases hr.source with hsource | hsource
  · rw [isPlain, settle, h, TypeRef.settle_plain, hsource]
    rfl
  · simp [isReplacement, hsource] at hreplacement

theorem DataType.wrapMulti_of_isPlain {r : TypeRule} (h : r.isPlain = true) (t : DataType) :
    t.wrapMulti (some r) = t := by
  cases hitem : t.item? with
  | none => simp [wrapMulti, hitem]
  | some item => simp [wrapMulti, hitem, h]

/-! ## Wrapping -/

theorem wrap_of_value_none {c : Config} {w : Wrapper} {q : Query}
    (h : (c.setting w.setting q).value = none) (t : DataType) : c.wrap w q t = t := by
  cases w <;> simp only [Wrapper.setting] at h <;> simp only [Config.wrap, h]
  · rfl
  · exact ite_self t
  · exact ite_self t
  · rfl

theorem wrap_of_sentinel {c : Config} {w : Wrapper} {q : Query} {l : Level} (hl : l.WellFormed)
    {v : w.setting.Value}
    (hvalue : l.get w.setting = some v) (hv : w.Sentinel v)
    (h : (c.setting w.setting q).value = some (w.setting.settle c.options.basePackage v))
    (t : DataType) : c.wrap w q t = w.underSentinel v t := by
  cases w with
  | result =>
    have hr := hl.result v hvalue
    have hplain := ResultRule.isPlain_settle hr hv.1 hv.2 c.options.basePackage
    simp only [Wrapper.setting, Setting.settle] at h
    simp only [Config.wrap, h, Options.wrapResult, hplain]
    rfl
  | single =>
    have hplain := TypeRule.isPlain_settle hv c.options.basePackage
    simp only [Wrapper.setting, Setting.settle] at h
    simp only [Config.wrap, h, DataType.wrapSingle, hplain]
    exact ite_self t
  | multi =>
    have hplain := TypeRule.isPlain_settle hv c.options.basePackage
    have hwrap := DataType.wrapMulti_of_isPlain hplain t
    simp only [Wrapper.setting, Setting.settle] at h
    simp only [Config.wrap, h]
    exact (if_congr Iff.rfl hwrap rfl).trans (ite_self t)
  | nullable =>
    have htarget : (NullRule.settle c.options.basePackage v).target = .ofName plainName := by
      exact (congrArg (TypeRef.settle c.options.basePackage) hv).trans (TypeRef.settle_plain _)
    simp only [Wrapper.setting, Setting.settle] at h
    simp only [Config.wrap, h, DataType.wrapNullable, htarget]
    rfl

/-! ## Main result -/

/-- Whatever a document says: without a rule for the query every wrapper leaves every type alone.
If the first level that has a rule has the sentinel, so do all wrappers but the null wrapper, which
wraps into the sentinel as if it were a type; what less specific levels say makes no difference. -/
theorem wrap_of_none_or_sentinel {d : Document} {c : Config} (h : d.config = .ok c) (w : Wrapper)
    (q : Query) (t : DataType) :
    ((∀ entry ∈ c.repository.chain q, entry.2.get w.setting = none) → c.wrap w q t = t) ∧
      ∀ front entry back v, c.repository.chain q = front ++ entry :: back →
        (∀ other ∈ front, other.2.get w.setting = none) → entry.2.get w.setting = some v →
        w.Sentinel v → c.wrap w q t = w.underSentinel v t := by
  refine ⟨fun hnone => ?_, fun front entry back v hchain hfront hvalue hv => ?_⟩
  · apply wrap_of_value_none
    rw [setting_value_chain, List.findSome?_eq_none_iff.2 hnone]
    rfl
  · have hmem : entry ∈ c.repository.chain q := by simp [hchain]
    have hlevel := Document.wellFormed_of_config h _ (Repository.mem_levels_of_mem_chain hmem)
    refine wrap_of_sentinel hlevel hvalue hv ?_ t
    have hfirst := List.findSome?_eq_some_iff.2 ⟨front, entry, back, hchain, hvalue, hfront⟩
    rw [setting_value_chain, hfirst]
    rfl

/-- All responses are wrapped, but not those of one path. -/
def plainPath : Document :=
  { Document.empty with
    map := .mk { Clauses.empty with result := some "io.Envelope<io.Body>" }
      [("/foo", .mk { Clauses.empty with result := some " plain " } [] [] [])] [] [] }

def plainPathLevel : Level := { Level.empty with result := some ⟨none, .ofName "plain"⟩ }

def plainPathConfig : Config where
  options := plainPath.options
  repository :=
    { Repository.empty with
      global := { Level.empty with
        result := some ⟨none, .mk "io.Envelope" [.ofName "io.Body"]⟩ }
      endpoints := [("/foo", ⟨plainPathLevel, []⟩)] }

def plainPathQuery : Query := Query.empty.withPath "/foo"

/-- The sentinel of the path hides the envelope of the global level. -/
theorem wrap_plainPath :
    plainPath.config = .ok plainPathConfig ∧
      plainPathConfig.repository.chain plainPathQuery =
        [] ++ (.path "/foo", plainPathLevel) :: [(.global, plainPathConfig.repository.global)] ∧
      plainPathLevel.get Wrapper.result.setting = some ⟨none, .ofName "plain"⟩ ∧
      Wrapper.result.Sentinel ⟨none, .ofName "plain"⟩ ∧
      plainPathConfig.wrap .result plainPathQuery (.noContent false) = .noContent false := by
  have hconfig : plainPath.config = .ok plainPathConfig := by decide +kernel
  have hchain : plainPathConfig.repository.chain plainPathQuery =
      [] ++ (.path "/foo", plainPathLevel) :: [(.global, plainPathConfig.repository.global)] := by
    decide +kernel
  have hnone : ∀ other ∈ ([] : List (Scope × Level)),
      other.2.get Wrapper.result.setting = none := by simp
  have hvalue : plainPathLevel.get Wrapper.result.setting = some ⟨none, .ofName "plain"⟩ := rfl
  have hsentinel : Wrapper.result.Sentinel ⟨none, .ofName "plain"⟩ := ⟨rfl, rfl⟩
  obtain ⟨-, hwrap⟩ :=
    wrap_of_none_or_sentinel hconfig .result plainPathQuery (.noContent false)
  exact ⟨hconfig, hchain, hvalue, hsentinel,
    hwrap [] (.path "/foo", plainPathLevel) [(.global, plainPathConfig.repository.global)]
      (⟨none, .ofName "plain"⟩ : ResultRule) hchain hnone hvalue hsentinel⟩

/-- The sentinel as the only null wrapper of a document. -/
def plainNull : Document :=
  { Document.empty with map := .mk { Clauses.empty with nullable := some "plain" } [] [] [] }

def plainNullConfig : Config where
  options := plainNull.options
  repository :=
    { Repository.empty with
      global := { Level.empty with nullable := some ⟨.ofName "plain", none⟩ } }

/-- It does not leave a type alone. -/
theorem wrap_plainNull :
    let t : DataType := .simple ⟨"Foo", "io"⟩
    plainNull.config = .ok plainNullConfig ∧
      plainNullConfig.repository.global.nullable = some ⟨.ofName "plain", none⟩ ∧
      Wrapper.nullable.Sentinel ⟨.ofName "plain", none⟩ ∧
      plainNullConfig.wrap .nullable .empty t = .nullable ⟨"plain", ""⟩ t none := by
  refine ⟨by decide +kernel, rfl, rfl, by decide +kernel⟩

end TypeRules
