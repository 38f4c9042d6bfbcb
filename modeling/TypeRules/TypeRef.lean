import TypeRules.Text.Cut
import TypeRules.Text.Replace
import TypeRules.TypeRef.Name

/-! # References to types

A `TypeRef` names a type and gives its arguments, which are references themselves.

* `TypeRef.text` writes it as `io.Map<io.Key, io.Value>`.
* `TypeRef.simpleName` and `TypeRef.package` are the parts of its name.
* `TypeRef.settle` puts the base package in place of the placeholder, at every depth.
-/

namespace TypeRules

open Text

/-! ## Names and arguments -/

inductive TypeRef where
  | mk (name : String) (args : List TypeRef)
  deriving BEq, Repr, Inhabited

namespace TypeRef

def name : TypeRef → String
  | mk name _ => name

def args : TypeRef → List TypeRef
  | mk _ args => args

@[simp] theorem name_mk (name : String) (args : List TypeRef) : (mk name args).name = name := rfl
@[simp] theorem args_mk (name : String) (args : List TypeRef) : (mk name args).args = args := rfl

def ofName (name : String) : TypeRef := mk name []

mutual

def decEq : (s t : TypeRef) → Decidable (s = t)
  | mk n as, mk m bs =>
    if hn : n = m then
      match decEqArgs as bs with
      | isTrue h => isTrue (by rw [hn, h])
      | isFalse h => isFalse (by intro hc; injection hc with _ hc; exact h hc)
    else isFalse (by intro hc; injection hc with hc; exact hn hc)

def decEqArgs : (as bs : List TypeRef) → Decidable (as = bs)
  | [], [] => isTrue rfl
  | [], _ :: _ => isFalse (by simp)
  | _ :: _, [] => isFalse (by simp)
  | a :: as, b :: bs =>
    match decEq a b, decEqArgs as bs with
    | isTrue h, isTrue hs => isTrue (by rw [h, hs])
    | isFalse h, _ => isFalse (by simp [h])
    | _, isFalse hs => isFalse (by simp [hs])

end

instance : DecidableEq TypeRef := decEq

/-! ## Parts of a name -/

/-- The part of a qualified name behind its last dot. -/
def simpleOf (name : String) : String :=
  match cutAtLast? '.' name.toList with
  | some (_, simple) => String.ofList simple
  | none => name

/-- The part of a qualified name before its last dot; empty if there is none. -/
def packageOf (name : String) : String :=
  match cutAtLast? '.' name.toList with
  | some (package, _) => String.ofList package
  | none => ""

def simpleName (t : TypeRef) : String := simpleOf t.name

def package (t : TypeRef) : String := packageOf t.name

/-- The target that leaves a type as it is; its arguments play no role. -/
def isPlain (t : TypeRef) : Bool := t.name == plainName

/-! ## Text -/

mutual

/-- The reference as it is written in a rule. -/
def text : TypeRef → String
  | mk name [] => name
  | mk name (a :: as) => name ++ "<" ++ ", ".intercalate (argTexts (a :: as)) ++ ">"

def argTexts : List TypeRef → List String
  | [] => []
  | a :: as => a.text :: argTexts as

end

@[simp] theorem argTexts_eq_map (as : List TypeRef) : argTexts as = as.map text := by
  induction as with
  | nil => rfl
  | cons a as ih => simp [argTexts, ih]

/-! ## The base package -/

/-- The phrase in type names that stands for the base package. -/
def placeholder : String := "\x7bpackage-name\x7d"

/-- A name with the base package in place of the placeholder. -/
def settleName (base name : String) : String :=
  String.ofList (replaceAll placeholder.toList base.toList name.toList)

mutual

/-- The reference with the base package in place of the placeholder, at every depth. -/
def settle (base : String) : TypeRef → TypeRef
  | mk name args => mk (settleName base name) (settleArgs base args)

/-- Several references with the base package in place of the placeholder. -/
def settleArgs (base : String) : List TypeRef → List TypeRef
  | [] => []
  | a :: as => a.settle base :: settleArgs base as

end

@[simp] theorem settleArgs_eq_map (base : String) (as : List TypeRef) :
    settleArgs base as = as.map (settle base) := by
  induction as with
  | nil => rfl
  | cons a as ih => simp [settleArgs, ih]

end TypeRef

end TypeRules
