import Mathlib.Data.List.Forall2
import TypeRules.Level
import TypeRules.Proofs.Text.Replace
import TypeRules.Proofs.TypeRef.Text

/-! # Type names in rules

What settling does to a rule is a matter of its type names alone: those of its target, at every
depth, and those of its annotations.

* `Naming` is a way to look at the type names in something: they can be listed, and others can be
  put in their places.  `Rule.naming` and `Setting.naming` are the ways for rules and for settings.
* `Rule.settle_eq_rename`, `Setting.settle_eq_rename` — settling puts other names in the places.
* `Naming.HandedOut` relates something that is stored with the same thing as it is handed out:
  no name has the placeholder any more, and nothing else has changed.
* `Naming.handedOut_rename`, `Naming.rename_settleName_settleName` — under a base package settling
  does that, and does it once and for all.
-/

namespace TypeRules

open Text

/-! ## Names -/

structure Naming (α : Type) where
  names : α → List String
  rename : (String → String) → α → α
  names_rename : ∀ f a, names (rename f a) = (names a).map f
  rename_rename : ∀ f g a, rename f (rename g a) = rename (f ∘ g) a

namespace TypeRef

mutual

/-- All names in a reference, from left to right. -/
def names : TypeRef → List String
  | mk name args => name :: argNames args

def argNames : List TypeRef → List String
  | [] => []
  | a :: as => a.names ++ argNames as

end

mutual

def rename (f : String → String) : TypeRef → TypeRef
  | mk name args => mk (f name) (renameArgs f args)

def renameArgs (f : String → String) : List TypeRef → List TypeRef
  | [] => []
  | a :: as => a.rename f :: renameArgs f as

end

@[simp] theorem argNames_eq_flatMap (as : List TypeRef) : argNames as = as.flatMap names := by
  induction as with
  | nil => rfl
  | cons a as ih => simp [argNames, ih]

@[simp] theorem renameArgs_eq_map (f : String → String) (as : List TypeRef) :
    renameArgs f as = as.map (rename f) := by
  induction as with
  | nil => rfl
  | cons a as ih => simp [renameArgs, ih]

@[simp] theorem names_rename (f : String → String) (t : TypeRef) :
    (t.rename f).names = t.names.map f := by
  induction t using induct with
  | mk name args ih =>
    simp only [rename, names, renameArgs_eq_map, argNames_eq_flatMap, List.flatMap_map,
      List.map_cons, List.map_flatMap]
    rw [List.flatMap_congr ih]

@[simp] theorem rename_rename (f g : String → String) (t : TypeRef) :
    (t.rename g).rename f = t.rename (f ∘ g) := by
  induction t using induct with
  | mk name args ih =>
    simp only [rename, renameArgs_eq_map, List.map_map, Function.comp_apply]
    exact congrArg (mk _) (List.map_congr_left ih)

theorem settle_eq_rename (base : String) (t : TypeRef) :
    t.settle base = t.rename (settleName base) := by
  induction t using induct with
  | mk name args ih =>
    rw [settle, rename, settleArgs_eq_map, renameArgs_eq_map, List.map_congr_left ih]

end TypeRef

def Annotation.rename (f : String → String) (a : Annotation) : Annotation :=
  { a with typeName := f a.typeName }

def TypeRule.rename (f : String → String) (r : TypeRule) : TypeRule :=
  { r with target := r.target.rename f }

/-! ## Rules -/

namespace Rule

def names : Rule → List String
  | .type r => r.target.names
  | .name r => r.mapping.target.names
  | .content r => r.mapping.target.names
  | .annotate r => [r.annotation.typeName]
  | .annotateName r => [r.annotation.typeName]
  | .interface r => r.type.names
  | .add r => r.mapping.target.names ++ (r.annotation.map Annotation.typeName).toList
  | .drop _ => []

def rename (f : String → String) : Rule → Rule
  | .type r => .type (r.rename f)
  | .name r => .name { r with mapping := r.mapping.rename f }
  | .content r => .content { r with mapping := r.mapping.rename f }
  | .annotate r => .annotate { r with annotation := r.annotation.rename f }
  | .annotateName r => .annotateName { r with annotation := r.annotation.rename f }
  | .interface r => .interface { r with type := r.type.rename f }
  | .add r =>
    .add { r with
      mapping := r.mapping.rename f
      annotation := r.annotation.map fun a => a.rename f }
  | .drop r => .drop r

def naming : Naming Rule where
  names := names
  rename := rename
  names_rename f r := by
    cases r with
    | add r =>
      cases h : r.annotation <;> simp [names, rename, TypeRule.rename, Annotation.rename, h]
    | _ => simp [names, rename, TypeRule.rename, Annotation.rename]
  rename_rename f g r := by
    cases r with
    | add r => cases h : r.annotation <;> simp [rename, TypeRule.rename, Annotation.rename, h]
    | _ => simp [rename, TypeRule.rename, Annotation.rename]

theorem settle_eq_rename (base : String) (r : Rule) :
    r.settle base = naming.rename (TypeRef.settleName base) r := by
  cases r with
  | annotate r => rfl
  | annotateName r => rfl
  | drop r => rfl
  | interface r => rw [settle, TypeRef.settle_eq_rename]; rfl
  | _ => rw [settle, TypeRule.settle, TypeRef.settle_eq_rename]; rfl

end Rule

/-! ## Rules of extensions -/

def NameAnnotationRule.naming : Naming NameAnnotationRule where
  names r := [r.annotation.typeName]
  rename f r := { r with annotation := r.annotation.rename f }
  names_rename _ _ := rfl
  rename_rename _ _ _ := rfl

/-! ## Settings -/

def ResultRule.naming : Naming ResultRule where
  names r := r.target.names
  rename f r := { r with target := r.target.rename f }
  names_rename f r := TypeRef.names_rename f r.target
  rename_rename f g r := by simp

def TypeRule.naming : Naming TypeRule where
  names r := r.target.names
  rename := TypeRule.rename
  names_rename f r := TypeRef.names_rename f r.target
  rename_rename f g r := by simp [TypeRule.rename]

def NullRule.naming : Naming NullRule where
  names r := r.target.names
  rename f r := { r with target := r.target.rename f }
  names_rename f r := TypeRef.names_rename f r.target
  rename_rename f g r := by simp

/-- Something in which there are no type names. -/
def Naming.none (α : Type) : Naming α where
  names _ := []
  rename _ a := a
  names_rename _ _ := rfl
  rename_rename _ _ _ := rfl

namespace Setting

def naming : (s : Setting) → Naming s.Value
  | result => ResultRule.naming
  | resultStyle => .none ResultStyle
  | resultStatus => .none Bool
  | single => TypeRule.naming
  | multi => TypeRule.naming
  | nullable => NullRule.naming
  | bodyStyle => .none BodyStyle

theorem settle_eq_rename (base : String) (s : Setting) (v : s.Value) :
    s.settle base v = s.naming.rename (TypeRef.settleName base) v := by
  cases s with
  | result => exact congrArg (ResultRule.mk v.source) (TypeRef.settle_eq_rename base v.target)
  | resultStyle => rfl
  | resultStatus => rfl
  | single =>
    exact congrArg (fun t => { v with target := t }) (TypeRef.settle_eq_rename base v.target)
  | multi =>
    exact congrArg (fun t => { v with target := t }) (TypeRef.settle_eq_rename base v.target)
  | nullable =>
    exact congrArg (fun t => NullRule.mk t v.initial) (TypeRef.settle_eq_rename base v.target)
  | bodyStyle => rfl

end Setting

/-! ## Settling under a base package -/

/-- A package with a dot in its name, and without braces. -/
structure BasePackage (base : String) : Prop where
  dot : '.' ∈ base.toList
  no_opening : '\x7b' ∉ base.toList
  no_closing : '\x7d' ∉ base.toList

/-- No occurrence of the placeholder can begin or end in a base package, nor go across it. -/
theorem BasePackage.separates {base : String} (h : BasePackage base) :
    Separates TypeRef.placeholder.toList base.toList where
  ne_nil := by decide
  head c hc := by
    obtain rfl : '\x7b' = c := by simpa [TypeRef.placeholder] using hc
    exact h.no_opening
  last c hc := by
    obtain rfl : '\x7d' = c := by simpa [TypeRef.placeholder] using hc
    exact h.no_closing
  mark := ⟨'.', h.dot, by decide⟩

namespace TypeRef

theorem replaced_settleName (base name : String) :
    Replaced placeholder.toList base.toList name.toList (settleName base name).toList := by
  rw [settleName, String.toList_ofList]
  exact replaced_replaceAll (by decide) base.toList name.toList

theorem not_infix_settleName {base : String} (h : BasePackage base) (name : String) :
    ¬ placeholder.toList <:+: (settleName base name).toList :=
  not_infix_of_replaced h.separates (replaced_settleName base name)

theorem settleName_settleName {base : String} (h : BasePackage base) (name : String) :
    settleName base (settleName base name) = settleName base name := by
  rw [settleName, replaceAll_of_not_infix h.separates.ne_nil (not_infix_settleName h name),
    String.ofList_toList]

end TypeRef

namespace Naming

variable {α : Type}

/-- Something as it is handed out: the base package has taken the place of the placeholder in all
names, none of which has the placeholder any more, and with all names struck out it is the same
thing as before. -/
structure HandedOut (n : Naming α) (base : String) (stored handed : α) : Prop where
  free : ∀ name ∈ n.names handed, ¬ TypeRef.placeholder.toList <:+: name.toList
  replaced : List.Forall₂ (fun before after => Replaced TypeRef.placeholder.toList base.toList
    before.toList after.toList) (n.names stored) (n.names handed)
  rest : n.rename (fun _ => "") handed = n.rename (fun _ => "") stored

theorem handedOut_rename {base : String} (h : BasePackage base) (n : Naming α) (stored : α) :
    n.HandedOut base stored (n.rename (TypeRef.settleName base) stored) where
  free name hname := by
    rw [n.names_rename] at hname
    obtain ⟨before, -, rfl⟩ := List.mem_map.1 hname
    exact TypeRef.not_infix_settleName h before
  replaced := by
    rw [n.names_rename, List.forall₂_map_right_iff, List.forall₂_same]
    exact fun name _ => TypeRef.replaced_settleName base name
  rest := n.rename_rename _ _ stored

theorem rename_settleName_settleName {base : String} (h : BasePackage base) (n : Naming α)
    (stored : α) :
    n.rename (TypeRef.settleName base) (n.rename (TypeRef.settleName base) stored) =
      n.rename (TypeRef.settleName base) stored := by
  rw [n.rename_rename]
  congr 1
  exact funext (TypeRef.settleName_settleName h)

end Naming

end TypeRules
