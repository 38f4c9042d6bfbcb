import Mathlib.Data.List.Induction
import TypeRules.Proofs.Trace.Leaves

/-! # Records in the making

A record is made by operations, each of which goes to a place and may leave something there.
Operations on different containers can take turns.

* `Trace.Op` is an operation, `Trace.run` the record that some operations make.
* `Trace.below` lists the operations that go into a container, from there on.
* `Trace.parts` are the leaves and containers that are not below others, in the order of their first
  appearance.
* `run_eq_map_parts` — the record consists of the parts, each with the record of the operations
  below it.
-/

namespace TypeRules

namespace Trace

/-! ## Operations -/

/-- The way to a container, and the text and mark that are left there, if any. -/
structure Op where
  place : List Container
  leaf : Option (String × Bool)
  deriving DecidableEq, Repr

namespace Op

def visit (op : Op) : Step.Visit :=
  (op.place, (op.leaf.map fun leaf => Step.leaf leaf.1 leaf.2).toList)

/-- The operation as one that starts in a container, if it goes there. -/
def below? (c : Container) : Op → Option Op
  | ⟨[], _⟩ => none
  | ⟨d :: place, leaf⟩ => if d = c then some ⟨place, leaf⟩ else none

end Op

/-- The record that some operations make, one after the other. -/
def run (ops : List Op) : List Step := Step.addAll (ops.map Op.visit) []

def recorded (ops : List Op) : List (String × Bool) := ops.filterMap Op.leaf

def below (c : Container) (ops : List Op) : List Op := ops.filterMap (Op.below? c)

/-! ## Parts -/

inductive Part where
  | leaf (text : String) (matched : Bool)
  | container (c : Container)
  deriving DecidableEq, Repr

def Part.container? : Part → Option Container
  | leaf _ _ => none
  | container c => some c

def Op.part? : Op → Option Part
  | ⟨[], leaf⟩ => leaf.map fun leaf => .leaf leaf.1 leaf.2
  | ⟨c :: _, _⟩ => some (.container c)

/-- The parts in the order of their first appearance; a container counts once. -/
def firsts : List Part → List Part
  | [] => []
  | .leaf text matched :: parts => .leaf text matched :: firsts parts
  | .container c :: parts =>
    .container c :: (firsts parts).filter fun part => part ≠ .container c

def parts (ops : List Op) : List Part := firsts (ops.filterMap Op.part?)

theorem mem_firsts {part : Part} {ps : List Part} : part ∈ firsts ps ↔ part ∈ ps := by
  induction ps with
  | nil => exact Iff.rfl
  | cons first ps ih =>
    cases first with
    | leaf text matched => rw [firsts, List.mem_cons, List.mem_cons, ih]
    | container c =>
      rw [firsts, List.mem_cons, List.mem_cons, List.mem_filter, ih]
      by_cases h : part = .container c <;> simp [h]

theorem firsts_append_leaf (ps : List Part) (text : String) (matched : Bool) :
    firsts (ps ++ [.leaf text matched]) = firsts ps ++ [.leaf text matched] := by
  induction ps with
  | nil => rfl
  | cons first ps ih =>
    cases first with
    | leaf text matched => rw [List.cons_append, firsts, firsts, ih, List.cons_append]
    | container c => simp [firsts, ih]

theorem firsts_append_container (ps : List Part) (c : Container) :
    firsts (ps ++ [.container c]) =
      if .container c ∈ ps then firsts ps else firsts ps ++ [.container c] := by
  induction ps with
  | nil => rfl
  | cons first ps ih =>
    cases first with
    | leaf text matched =>
      rw [List.cons_append, firsts, firsts, ih]
      by_cases h : .container c ∈ ps <;> simp [h]
    | container d =>
      rw [List.cons_append, firsts, firsts, ih]
      by_cases hd : c = d
      · subst hd
        by_cases h : .container c ∈ ps <;> simp [h]
      · by_cases h : .container c ∈ ps <;> simp [h, hd]

theorem nodup_containers_firsts (ps : List Part) :
    ((firsts ps).filterMap Part.container?).Nodup := by
  induction ps with
  | nil => exact List.nodup_nil
  | cons first ps ih =>
    cases first with
    | leaf text matched => exact ih
    | container c =>
      have hcons : (firsts (.container c :: ps)).filterMap Part.container? =
          c :: ((firsts ps).filter fun part => part ≠ .container c).filterMap Part.container? := rfl
      rw [hcons, List.nodup_cons]
      refine ⟨?_, ih.sublist (List.filter_sublist.filterMap _)⟩
      rw [List.mem_filterMap]
      rintro ⟨part, hpart, hc⟩
      cases part with
      | leaf text matched => cases hc
      | container d =>
        cases hc
        simp at hpart

/-- A container stands at one place only. -/
theorem exists_split_parts {ops : List Op} {c : Container} (h : .container c ∈ parts ops) :
    ∃ front back, parts ops = front ++ .container c :: back ∧
      .container c ∉ front ∧ .container c ∉ back := by
  obtain ⟨front, back, hsplit⟩ := List.append_of_mem h
  have hnodup := nodup_containers_firsts (ops.filterMap Op.part?)
  rw [← parts, hsplit, List.filterMap_append, List.nodup_append] at hnodup
  obtain ⟨-, hback, hdisjoint⟩ := hnodup
  have hmem : ∀ {ps : List Part}, .container c ∈ ps → c ∈ ps.filterMap Part.container? :=
    fun hps => List.mem_filterMap.2 ⟨_, hps, rfl⟩
  refine ⟨front, back, hsplit, fun hfront => ?_, fun hmemback => ?_⟩
  · exact hdisjoint c (hmem hfront) c (hmem List.mem_cons_self) rfl
  · exact (List.nodup_cons.1 hback).1 (hmem hmemback)

/-! ## The tree by its parts -/

/-- A part with all that the operations put into it. -/
def Part.step (ops : List Op) : Part → Step
  | leaf text matched => .leaf text matched
  | container c => .node c (run (below c ops))

theorem run_append_singleton (ops : List Op) (op : Op) :
    run (ops ++ [op]) = Step.add op.place op.visit.2 (run ops) := by
  rw [run, run, Step.addAll, List.map_append, List.foldl_append]
  rfl

theorem below_cons (c d : Container) (place : List Container) (leaf : Option (String × Bool))
    (ops : List Op) :
    below c (⟨d :: place, leaf⟩ :: ops) =
      if d = c then ⟨place, leaf⟩ :: below c ops else below c ops := by
  by_cases h : d = c <;> simp [below, Op.below?, h]

@[simp] theorem below_append_here (c : Container) (ops : List Op)
    (leaf : Option (String × Bool)) : below c (ops ++ [⟨[], leaf⟩]) = below c ops := by
  simp [below, Op.below?]

@[simp] theorem below_append_self (c : Container) (ops : List Op) (place : List Container)
    (leaf : Option (String × Bool)) :
    below c (ops ++ [⟨c :: place, leaf⟩]) = below c ops ++ [⟨place, leaf⟩] := by
  simp [below, Op.below?]

theorem below_append_of_ne {c d : Container} (h : d ≠ c) (ops : List Op) (place : List Container)
    (leaf : Option (String × Bool)) : below d (ops ++ [⟨c :: place, leaf⟩]) = below d ops := by
  simp [below, Op.below?, h.symm]

theorem absent_map_step {c : Container} {ps : List Part} (ops : List Op)
    (h : .container c ∉ ps) : Step.Absent c (ps.map (Part.step ops)) := by
  intro inner hmem
  obtain ⟨part, hpart, hstep⟩ := List.mem_map.1 hmem
  cases part with
  | leaf text matched => cases hstep
  | container d => cases hstep; exact h hpart

theorem map_step_congr {ops ops' : List Op} {c : Container} {ps : List Part}
    (h : .container c ∉ ps) (hbelow : ∀ d, d ≠ c → below d ops' = below d ops) :
    ps.map (Part.step ops') = ps.map (Part.step ops) := by
  refine List.map_congr_left fun part hpart => ?_
  cases part with
  | leaf text matched => rfl
  | container d =>
    have hne : d ≠ c := by rintro rfl; exact h hpart
    rw [Part.step, Part.step, hbelow d hne]

theorem parts_append_leaf (ops : List Op) (leaf : Option (String × Bool)) :
    parts (ops ++ [⟨[], leaf⟩]) =
      parts ops ++ (leaf.map fun leaf => .leaf leaf.1 leaf.2).toList := by
  rw [parts, parts, List.filterMap_append]
  cases leaf with
  | none => exact (congrArg firsts (List.append_nil _)).trans (List.append_nil _).symm
  | some leaf => exact firsts_append_leaf _ leaf.1 leaf.2

theorem parts_append_container (ops : List Op) (c : Container) (place : List Container)
    (leaf : Option (String × Bool)) :
    parts (ops ++ [⟨c :: place, leaf⟩]) =
      if .container c ∈ parts ops then parts ops else parts ops ++ [.container c] := by
  rw [parts, parts, List.filterMap_append]
  simp only [mem_firsts]
  exact firsts_append_container _ c

theorem below_eq_nil {c : Container} {ops : List Op} (h : .container c ∉ parts ops) :
    below c ops = [] := by
  rw [parts, mem_firsts, List.mem_filterMap] at h
  refine List.filterMap_eq_nil_iff.2 fun op hop => ?_
  obtain ⟨place, leaf⟩ := op
  cases place with
  | nil => rfl
  | cons d place =>
    have hne : d ≠ c := by rintro rfl; exact h ⟨_, hop, rfl⟩
    rw [Op.below?, if_neg hne]

theorem run_eq_map_parts (ops : List Op) : run ops = (parts ops).map (Part.step ops) := by
  induction ops using List.reverseRecOn with
  | nil => rfl
  | append_singleton ops op ih =>
    obtain ⟨place, leaf⟩ := op
    rw [run_append_singleton, ih]
    cases place with
    | nil =>
      have hstep : Part.step (ops ++ [⟨[], leaf⟩]) = Part.step ops := by
        funext part
        cases part with
        | leaf text matched => rfl
        | container d => rw [Part.step, Part.step, below_append_here]
      rw [parts_append_leaf, hstep, List.map_append]
      cases leaf <;> rfl
    | cons c place =>
      have hother : ∀ d, d ≠ c → below d (ops ++ [⟨c :: place, leaf⟩]) = below d ops :=
        fun d hd => below_append_of_ne hd ops place leaf
      have hstep : Part.step (ops ++ [⟨c :: place, leaf⟩]) (.container c) =
          .node c (Step.add place (Op.visit ⟨c :: place, leaf⟩).2 (run (below c ops))) := by
        rw [Part.step, below_append_self, run_append_singleton]
        rfl
      rw [parts_append_container]
      split
      -- The container is there, and its place is the only one that changes.
      · next hmem =>
        obtain ⟨front, back, hsplit, hfront, hback⟩ := exists_split_parts hmem
        rw [hsplit, List.map_append, List.map_cons, List.map_append, List.map_cons,
          map_step_congr hfront hother, map_step_congr hback hother, hstep, Step.add, Step.within,
          Step.inside_append (absent_map_step ops hfront), Part.step, Step.inside, if_pos rfl]
        rfl
      · next hmem =>
        rw [Step.add_of_absent (absent_map_step ops hmem), List.map_append, List.map_singleton,
          map_step_congr hmem hother, hstep, below_eq_nil hmem]
        rfl

end Trace

end TypeRules
