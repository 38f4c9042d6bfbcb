import Mathlib.Data.List.Forall2
import TypeRules.Trace

/-! # The leaves of a trace

A trace is a tree, but what it says is in its leaves: a text each, with a mark.

* `Step.leavesOf` lists them in the order of the lines; `sublistForall₂_lines` ties the list to
  the lines that are shown.
* `anyMatch_eq_any` — the mark of a node is the marks of the leaves below it.
* `Step.AtEnd` — the places where nothing comes behind; `leavesOf_add` — what is added at such a
  place comes behind all leaves; `leavesOf_addAll` — so do the leaves of one visit after the other.
-/

namespace TypeRules

namespace Step

/-! ## Leaves -/

mutual

/-- The texts and marks of the leaves in a node, in the order of its lines. -/
def leaves : Step → List (String × Bool)
  | leaf text matched => [(text, matched)]
  | node _ steps => leavesOf steps

def leavesOf : List Step → List (String × Bool)
  | [] => []
  | step :: steps => step.leaves ++ leavesOf steps

end

@[simp] theorem leavesOf_append (l r : List Step) :
    leavesOf (l ++ r) = leavesOf l ++ leavesOf r := by
  induction l with
  | nil => rfl
  | cons step l ih => rw [List.cons_append, leavesOf, leavesOf, ih, List.append_assoc]

@[simp] theorem leavesOf_singleton (c : Container) (steps : List Step) :
    leavesOf [node c steps] = leavesOf steps := by
  rw [leavesOf, leavesOf, leaves, List.append_nil]

theorem leavesOf_map_leaf {α : Type} (text : α → String) (matched : α → Bool) (xs : List α) :
    leavesOf (xs.map fun x => leaf (text x) (matched x)) = xs.map fun x => (text x, matched x) := by
  induction xs with
  | nil => rfl
  | cons x xs ih => rw [List.map_cons, List.map_cons, leavesOf, leaves, ih, List.singleton_append]

/-! ## Marks -/

mutual

theorem isMatch_eq_any : (step : Step) → step.isMatch = step.leaves.any Prod.snd
  | leaf _ _ => by rw [isMatch, leaves, List.any_cons, List.any_nil, Bool.or_false]
  | node _ steps => by rw [isMatch, leaves, anyMatch_eq_any steps]

theorem anyMatch_eq_any : (steps : List Step) → anyMatch steps = (leavesOf steps).any Prod.snd
  | [] => rfl
  | step :: steps => by
    rw [anyMatch, leavesOf, List.any_append, isMatch_eq_any step, anyMatch_eq_any steps]

end

mutual

theorem hasLeaf_eq : (step : Step) → step.hasLeaf = !step.leaves.isEmpty
  | leaf _ _ => rfl
  | node _ steps => by rw [hasLeaf, leaves, anyLeaf_eq steps]

theorem anyLeaf_eq : (steps : List Step) → anyLeaf steps = !(leavesOf steps).isEmpty
  | [] => rfl
  | step :: steps => by
    rw [anyLeaf, leavesOf, hasLeaf_eq step, anyLeaf_eq steps]
    cases step.leaves <;> rfl

end

theorem leavesOf_eq_nil_of_anyLeaf {steps : List Step} (h : anyLeaf steps = false) :
    leavesOf steps = [] := by
  rw [anyLeaf_eq] at h
  simpa using h

/-! ## Lines -/

/-- A line that shows a leaf: its mark and its text behind some indentation. -/
def ShownBy (leaf : String × Bool) (line : String) : Prop :=
  ∃ indent, line = indent ++ mark leaf.2 ++ leaf.1

theorem sublistForall₂_append {α β : Type} {R : α → β → Prop} {xs xs' : List α} {ys ys' : List β}
    (h : List.SublistForall₂ R xs ys) (h' : List.SublistForall₂ R xs' ys') :
    List.SublistForall₂ R (xs ++ xs') (ys ++ ys') := by
  obtain ⟨zs, hzs, hsub⟩ := List.sublistForall₂_iff.1 h
  obtain ⟨zs', hzs', hsub'⟩ := List.sublistForall₂_iff.1 h'
  exact List.sublistForall₂_iff.2 ⟨zs ++ zs', List.rel_append hzs hzs', hsub.append hsub'⟩

mutual

theorem sublistForall₂_lines (indent : String) : (step : Step) →
    List.SublistForall₂ ShownBy step.leaves (step.lines indent)
  | leaf text matched => .cons ⟨indent, rfl⟩ .nil
  | node c steps => by
    rw [leaves, lines]
    split
    · exact .cons_right (sublistForall₂_linesOf (indent ++ "  ") steps)
    · next h =>
      rw [leavesOf_eq_nil_of_anyLeaf (Bool.eq_false_iff.2 h)]
      exact .nil

theorem sublistForall₂_linesOf (indent : String) : (steps : List Step) →
    List.SublistForall₂ ShownBy (leavesOf steps) (linesOf indent steps)
  | [] => .nil
  | step :: steps => by
    rw [leavesOf, linesOf]
    exact sublistForall₂_append (sublistForall₂_lines indent step)
      (sublistForall₂_linesOf indent steps)

end

/-! ## Adding at the end -/

def Absent (c : Container) (steps : List Step) : Prop := ∀ inner, node c inner ∉ steps

theorem absent_nil (c : Container) : Absent c [] := fun _ h => by cases h

theorem absent_singleton {c d : Container} (h : d ≠ c) (steps : List Step) :
    Absent c [node d steps] := by
  intro inner hmem
  rw [List.mem_singleton, node.injEq] at hmem
  exact h hmem.1.symm

theorem absent_cons {c : Container} {step : Step} {steps : List Step} :
    Absent c (step :: steps) ↔ Absent c [step] ∧ Absent c steps := by
  constructor
  · intro h
    refine ⟨fun inner hmem => ?_, fun inner hmem => h inner (List.mem_cons_of_mem _ hmem)⟩
    exact h inner (List.mem_cons.2 (.inl (List.mem_singleton.1 hmem)))
  · rintro ⟨hstep, hsteps⟩ inner hmem
    cases List.mem_cons.1 hmem with
    | inl heq => exact hstep inner (List.mem_singleton.2 heq)
    | inr hmem => exact hsteps inner hmem

theorem absent_inside {c d : Container} (h : d ≠ c) (change : List Step → List Step)
    {steps : List Step} (hsteps : Absent c steps) : Absent c (inside d change steps) := by
  induction steps with
  | nil => exact absent_singleton h _
  | cons step steps ih =>
    obtain ⟨hstep, hrest⟩ := absent_cons.1 hsteps
    cases step with
    | leaf text matched => exact absent_cons.2 ⟨hstep, ih hrest⟩
    | node e inner =>
      rw [inside]
      split
      · next heq => exact absent_cons.2 ⟨absent_singleton (heq ▸ h) _, hrest⟩
      · exact absent_cons.2 ⟨hstep, ih hrest⟩

theorem inside_append {c : Container} {front : List Step} (h : Absent c front)
    (change : List Step → List Step) (steps : List Step) :
    inside c change (front ++ steps) = front ++ inside c change steps := by
  induction front with
  | nil => rfl
  | cons step front ih =>
    obtain ⟨hstep, hfront⟩ := absent_cons.1 h
    cases step with
    | leaf text matched => rw [List.cons_append, inside, ih hfront, List.cons_append]
    | node d inner =>
      have hne : d ≠ c := by
        rintro rfl
        exact hstep inner (List.mem_singleton.2 rfl)
      rw [List.cons_append, inside, if_neg hne, ih hfront, List.cons_append]

theorem add_of_absent {c : Container} {steps : List Step} (h : Absent c steps)
    (place : List Container) (new : List Step) :
    add (c :: place) new steps = steps ++ [node c (add place new [])] := by
  have happend := inside_append h (within place (· ++ new)) []
  rwa [List.append_nil] at happend

/-- Nothing comes behind the place: on the way to it, a container is the last one of its list, or
it is not there yet. -/
inductive AtEnd : List Container → List Step → Prop where
  | here (steps : List Step) : AtEnd [] steps
  | absent {c : Container} {steps : List Step} (h : Absent c steps) (place : List Container) :
      AtEnd (c :: place) steps
  | last {c : Container} {place : List Container} {front inner : List Step} (h : Absent c front)
      (hinner : AtEnd place inner) : AtEnd (c :: place) (front ++ [node c inner])

/-- Behind a new container, in it: there only what was added there can come behind. -/
theorem AtEnd.of_added {c : Container} {steps new : List Step} {place other : List Container}
    (h : Absent c steps) (hinner : AtEnd other (add place new [])) :
    AtEnd (c :: other) (add (c :: place) new steps) := by
  rw [add_of_absent h]
  exact .last h hinner

theorem leavesOf_add_nil (place : List Container) (new : List Step) :
    leavesOf (add place new []) = leavesOf new := by
  induction place with
  | nil => rfl
  | cons c place ih => rw [add_of_absent (absent_nil c), List.nil_append, leavesOf_singleton, ih]

theorem leavesOf_add {place : List Container} {steps : List Step} (h : AtEnd place steps)
    (new : List Step) : leavesOf (add place new steps) = leavesOf steps ++ leavesOf new := by
  induction h with
  | here steps => exact leavesOf_append steps new
  | absent h place =>
    rw [add_of_absent h, leavesOf_append, leavesOf_singleton, leavesOf_add_nil]
  | @last c place front inner h _ ih =>
    rw [add] at ih
    rw [add, within, inside_append h, inside, if_pos rfl, leavesOf_append, leavesOf_append,
      leavesOf_singleton, leavesOf_singleton, ih, List.append_assoc]

/-! ## Adding at one place after the other -/

/-- A place and the leaves that are added there. -/
abbrev Visit := List Container × List Step

def addAll (visits : List Visit) (steps : List Step) : List Step :=
  visits.foldl (fun steps visit => add visit.1 visit.2 steps) steps

/-- Every visit finds nothing behind its place. -/
def InTurn : List Visit → List Step → Prop
  | [], _ => True
  | visit :: visits, steps => AtEnd visit.1 steps ∧ InTurn visits (add visit.1 visit.2 steps)

theorem InTurn.of_append {visits others : List Visit} {steps : List Step}
    (h : InTurn (visits ++ others) steps) : InTurn visits steps := by
  induction visits generalizing steps with
  | nil => trivial
  | cons visit visits ih => exact ⟨h.1, ih h.2⟩

theorem leavesOf_addAll {visits : List Visit} {steps : List Step} (h : InTurn visits steps) :
    leavesOf (addAll visits steps) =
      leavesOf steps ++ visits.flatMap fun visit => leavesOf visit.2 := by
  induction visits generalizing steps with
  | nil => rw [List.flatMap_nil, List.append_nil]; rfl
  | cons visit visits ih =>
    calc leavesOf (addAll (visit :: visits) steps)
      _ = leavesOf (add visit.1 visit.2 steps) ++ visits.flatMap fun visit => leavesOf visit.2 :=
        ih h.2
      _ = leavesOf steps ++ (visit :: visits).flatMap fun visit => leavesOf visit.2 := by
        rw [leavesOf_add h.1, List.append_assoc, List.flatMap_cons]

end Step

theorem Trace.sublistForall₂_lines (t : Trace) :
    List.SublistForall₂ Step.ShownBy (Step.leavesOf t.steps) t.lines := by
  refine .cons_right ?_
  split
  · exact Step.sublistForall₂_linesOf "  " t.steps
  · next h =>
    rw [Step.leavesOf_eq_nil_of_anyLeaf (Bool.eq_false_iff.2 h)]
    exact .nil

end TypeRules
