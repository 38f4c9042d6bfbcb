import Mathlib.Data.List.Forall2
import TypeRules.Proofs.Lookup.Tracing
import TypeRules.Proofs.Rule.Names
import TypeRules.Proofs.Text.Cut
import TypeRules.Wrapper

/-! # The suffix of generated models

The arguments of a configured type become arguments of a wrapper.  Those from the base package, or
from a package below it, are generated models and get the suffix.  So do types that only begin like
the base package, as one from `io.generic` if the base package is `io.gen`.

* `Options.Owns` — a package is the base package or below it; `Options.Mistakes` — a name is not
  from there, but begins like the base package.
* `Options.Renders` — a tree of arguments has the shape and the packages of a reference, and the
  suffix at given names only.
* `renders_generics` says which names get the suffix, and when these are those of generated models.
-/

namespace TypeRules

open Text

namespace Options

/-! ## Generated packages -/

/-- The base package or a package below it. -/
def Owns (o : Options) (package : String) : Prop :=
  package = o.basePackage ∨ (o.basePackage ++ ".").toList <+: package.toList

/-- The characters of the base package begin the name, but its package is another one. -/
def Mistakes (o : Options) (name : String) : Prop :=
  o.basePackage.toList <+: name.toList ∧ ¬ o.Owns (TypeRef.packageOf name)

/-- A name begins with its package. -/
theorem packageOf_isPrefix (name : String) : (TypeRef.packageOf name).toList <+: name.toList := by
  rw [TypeRef.packageOf]
  split
  · next package simple hcut =>
    rw [append_of_cutAtLast? hcut, String.toList_ofList]
    exact List.prefix_append package ('.' :: simple)
  · exact List.nil_prefix

theorem Owns.isPrefix {o : Options} {name : String} (h : o.Owns (TypeRef.packageOf name)) :
    o.basePackage.toList <+: name.toList := by
  rcases h with heq | hbelow
  · rw [← heq]
    exact packageOf_isPrefix name
  · rw [String.toList_append] at hbelow
    exact ((List.prefix_append _ _).trans hbelow).trans (packageOf_isPrefix name)

theorem owns_or_mistakes_iff {o : Options} {name : String} :
    o.Owns (TypeRef.packageOf name) ∨ o.Mistakes name ↔ o.basePackage.toList <+: name.toList := by
  constructor
  · rintro (howns | hmistakes)
    · exact howns.isPrefix
    · exact hmistakes.1
  · intro h
    by_cases howns : o.Owns (TypeRef.packageOf name)
    · exact .inl howns
    · exact .inr ⟨h, howns⟩

/-! ## Names of arguments -/

theorem genericName_of_isPrefix {o : Options} {name : String}
    (h : o.basePackage.toList <+: name.toList) :
    o.genericName name = o.modelName (TypeRef.simpleOf name) :=
  if_pos (List.isPrefixOf_iff_prefix.2 h)

theorem genericName_of_not_isPrefix {o : Options} {name : String}
    (h : ¬ o.basePackage.toList <+: name.toList) : o.genericName name = TypeRef.simpleOf name :=
  if_neg fun hbegins => h (List.isPrefixOf_iff_prefix.1 hbegins)

/-- An argument of a wrapper stands for a reference: in shape and packages they are the same, and
the names are the simple names, with the suffix for the names that are marked. -/
inductive Renders (o : Options) (marked : String → Prop) : TypeRef → GenericType → Prop where
  | mk {name : String} {args : List TypeRef} {id : QualifiedName} {generics : List GenericType}
      (hpackage : id.package = TypeRef.packageOf name)
      (hmarked : marked name → id.name = o.modelName (TypeRef.simpleOf name))
      (hother : ¬ marked name → id.name = TypeRef.simpleOf name)
      (hargs : List.Forall₂ (Renders o marked) args generics) :
      Renders o marked (.mk name args) (.mk id generics)

theorem forall₂_renders_iff {o : Options} {marked : String → Prop} {args : List TypeRef} :
    List.Forall₂ (o.Renders marked) args (o.genericsOf args) ↔
      ∀ arg ∈ args, o.Renders marked arg (o.generic arg) := by
  rw [genericsOf_eq_map, List.forall₂_map_right_iff, List.forall₂_same]

/-- Shape and packages are always right, so the names alone count. -/
theorem renders_generic_iff {o : Options} {marked : String → Prop} {t : TypeRef} :
    o.Renders marked t (o.generic t) ↔ ∀ name ∈ t.names,
      (marked name → o.genericName name = o.modelName (TypeRef.simpleOf name)) ∧
        (¬ marked name → o.genericName name = TypeRef.simpleOf name) := by
  induction t using TypeRef.induct with
  | mk name args ih =>
    have hargs : List.Forall₂ (o.Renders marked) args (o.genericsOf args) ↔
        ∀ other ∈ args.flatMap TypeRef.names,
          (marked other → o.genericName other = o.modelName (TypeRef.simpleOf other)) ∧
            (¬ marked other → o.genericName other = TypeRef.simpleOf other) := by
      rw [forall₂_renders_iff, List.forall_mem_flatMap]
      exact forall₂_congr ih
    rw [generic, TypeRef.names, TypeRef.argNames_eq_flatMap, List.forall_mem_cons, ← hargs]
    constructor
    · rintro ⟨-, hmarked, hother, hrest⟩
      exact ⟨⟨hmarked, hother⟩, hrest⟩
    · rintro ⟨⟨hmarked, hother⟩, hrest⟩
      exact .mk rfl hmarked hother hrest

/-! ## Main result -/

/-- The arguments keep shape and packages at every depth.  The suffix goes to the names from the
base package and the packages below it, and by mistake to the names that only begin like it; where
it makes no difference to the latter, it goes to those of generated models alone. -/
theorem renders_generics (o : Options) (target : TypeRef) :
    List.Forall₂ (o.Renders fun name => o.Owns (TypeRef.packageOf name) ∨ o.Mistakes name)
        target.args (o.generics target) ∧
      (List.Forall₂ (o.Renders fun name => o.Owns (TypeRef.packageOf name))
          target.args (o.generics target) ↔
        ∀ name ∈ target.args.flatMap TypeRef.names, o.Mistakes name →
          o.modelName (TypeRef.simpleOf name) = TypeRef.simpleOf name) := by
  simp only [generics, forall₂_renders_iff, renders_generic_iff, List.forall_mem_flatMap]
  constructor
  · intro arg _ name _
    rw [owns_or_mistakes_iff]
    exact ⟨genericName_of_isPrefix, genericName_of_not_isPrefix⟩
  · refine forall₂_congr fun arg _ => forall₂_congr fun name _ => ?_
    constructor
    · rintro ⟨-, hother⟩ ⟨hbegins, howns⟩
      rw [← genericName_of_isPrefix hbegins, hother howns]
    · intro hmistakes
      refine ⟨fun howns => genericName_of_isPrefix howns.isPrefix, fun howns => ?_⟩
      by_cases hbegins : o.basePackage.toList <+: name.toList
      · rw [genericName_of_isPrefix hbegins, hmistakes ⟨hbegins, howns⟩]
      · exact genericName_of_not_isPrefix hbegins

/-- An argument from a package whose name only begins like the base package gets the suffix, which
makes it another type. -/
theorem renders_neighbourPackage :
    let o := { Options.default with basePackage := "io.gen", modelSuffix := "Dto" }
    let target : TypeRef := .mk "io.oap.Wrap" [.ofName "io.generic.Foo"]
    ¬ o.Owns (TypeRef.packageOf "io.generic.Foo") ∧
      o.generics target = [.mk ⟨"FooDto", "io.generic"⟩ []] ∧
      ¬ List.Forall₂ (o.Renders fun name => o.Owns (TypeRef.packageOf name)) target.args
        (o.generics target) := by
  intro o target
  have howns : ¬ o.Owns (TypeRef.packageOf "io.generic.Foo") := by
    rintro (heq | hbelow)
    · exact absurd heq (by decide +kernel)
    · exact absurd hbelow (by decide +kernel)
  refine ⟨howns, by decide +kernel, fun hall => ?_⟩
  cases hall with
  | cons hrenders _ =>
    cases hrenders with
    | mk _ _ hother _ => exact absurd (hother howns) (by decide +kernel)

end Options

end TypeRules
