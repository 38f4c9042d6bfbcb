import TypeRules.Proofs.Trace.Operations

/-! # Lines of a record

The lines of a trace are told from the operations that made its record, without the tree.

* `Trace.listing` — part by part, in the order of their first appearance: a leaf has one line, a
  container without any leaf below has none, and every other container has one line before those of
  what is in it.
* `linesOf_run` — these are the lines of the tree; `filter_listing` — which of them stand directly
  in a container.
* `Step.Distinct` — no two containers next to each other are equal.
* `lines_run` is the statement about traces.

Tree and listing are compared part by part (`run_eq_map_parts`).  Marks are not compared in order:
the leaves of the tree are a permutation of what was recorded (`leavesOf_run_perm`), which decides
whether there is a leaf and whether one matched.
-/

namespace TypeRules

namespace Trace

/-! ## Lines -/

/-- A line of a trace, below the containers on the way to it. -/
structure Line where
  above : List Container
  text : String
  matched : Bool
  deriving DecidableEq, Repr

/-- Two blanks for each container above, and two more. -/
def indentation (above : List Container) : String :=
  String.ofList (List.replicate (2 * above.length + 2) ' ')

def Line.shown (line : Line) : String :=
  indentation line.above ++ Step.mark line.matched ++ line.text

theorem indentation_append (above : List Container) (c : Container) :
    indentation (above ++ [c]) = indentation above ++ "  " := by
  have hlength : 2 * (above ++ [c]).length + 2 = (2 * above.length + 2) + 2 := by
    rw [List.length_append, List.length_singleton]
    omega
  rw [indentation, hlength, ← List.replicate_append_replicate, String.ofList_append]
  rfl

def Part.line (above : List Container) (ops : List Op) : Part → Option Line
  | leaf text matched => some ⟨above, text, matched⟩
  | container c =>
    if recorded (below c ops) = [] then none
    else some ⟨above, c.text, (recorded (below c ops)).any Prod.snd⟩

/-- How many containers the operations go into. -/
def weight : List Op → Nat
  | [] => 0
  | op :: ops => op.place.length + weight ops

theorem weight_below_add_length_le (c : Container) (ops : List Op) :
    weight (below c ops) + (below c ops).length ≤ weight ops := by
  induction ops with
  | nil => exact Nat.le_refl 0
  | cons op ops ih =>
    obtain ⟨place, leaf⟩ := op
    cases place with
    | nil =>
      rw [weight, List.length_nil, Nat.zero_add]
      exact ih
    | cons d place =>
      rw [below_cons, weight, List.length_cons]
      split
      -- The operation comes out one container shorter, which makes up for its own length.
      · have hown : weight (⟨place, leaf⟩ :: below c ops) = place.length + weight (below c ops) :=
          rfl
        rw [hown, List.length_cons]
        omega
      · omega

theorem weight_below_lt {c : Container} {ops : List Op} (h : below c ops ≠ []) :
    weight (below c ops) < weight ops := by
  have hle := weight_below_add_length_le c ops
  have hpos := List.length_pos_iff.2 h
  omega

theorem below_ne_nil_of_recorded {c : Container} {ops : List Op}
    (h : recorded (below c ops) ≠ []) : below c ops ≠ [] := by
  intro hnil
  rw [hnil] at h
  exact h rfl

def listing (above : List Container) (ops : List Op) : List Line :=
  (parts ops).flatMap fun
    | .leaf text matched => [⟨above, text, matched⟩]
    | .container c =>
      if _h : recorded (below c ops) = [] then []
      else
        ⟨above, c.text, (recorded (below c ops)).any Prod.snd⟩ ::
          listing (above ++ [c]) (below c ops)
termination_by weight ops
decreasing_by exact weight_below_lt (below_ne_nil_of_recorded _h)

end Trace

namespace Step

/-! ## Leaves of a record -/

/-- Wherever leaves are added, all others stay. -/
theorem leavesOf_add_perm (place : List Container) (new steps : List Step) :
    (leavesOf (add place new steps)).Perm (leavesOf steps ++ leavesOf new) := by
  induction place generalizing steps with
  | nil => rw [add, within, leavesOf_append]
  | cons c place ihplace =>
    rw [add, within]
    induction steps with
    | nil =>
      rw [inside, leavesOf_singleton]
      exact ihplace []
    | cons step steps ih =>
      cases step with
      | leaf text matched => exact ih.cons _
      | node d inner =>
        rw [inside]
        split
        · have hinner := (ihplace inner).append_right (leavesOf steps)
          rw [leavesOf, leavesOf, leaves, leaves]
          refine hinner.trans ?_
          rw [List.append_assoc, List.append_assoc]
          exact List.perm_append_comm.append_left _
        · rw [leavesOf, leavesOf, List.append_assoc]
          exact ih.append_left _

theorem linesOf_eq_flatMap (indent : String) (steps : List Step) :
    linesOf indent steps = steps.flatMap (lines indent) := by
  induction steps with
  | nil => rfl
  | cons step steps ih => rw [linesOf, ih, List.flatMap_cons]

end Step

namespace Trace

theorem leavesOf_run_perm (ops : List Op) : (Step.leavesOf (run ops)).Perm (recorded ops) := by
  induction ops using List.reverseRecOn with
  | nil => exact .nil
  | append_singleton ops op ih =>
    have hleaf : Step.leavesOf op.visit.2 = op.leaf.toList := by
      rw [Op.visit]
      cases op.leaf <;> rfl
    have hrecorded : recorded (ops ++ [op]) = recorded ops ++ op.leaf.toList := by
      rw [recorded, recorded, List.filterMap_append, List.filterMap_cons]
      cases op.leaf <;> rfl
    rw [run_append_singleton, hrecorded]
    refine (Step.leavesOf_add_perm op.place _ _).trans ?_
    rw [hleaf]
    exact ih.append_right _

theorem anyMatch_run (ops : List Op) :
    Step.anyMatch (run ops) = (recorded ops).any Prod.snd := by
  rw [Step.anyMatch_eq_any, (leavesOf_run_perm ops).any_eq]

theorem anyLeaf_run (ops : List Op) : Step.anyLeaf (run ops) = !(recorded ops).isEmpty := by
  rw [Step.anyLeaf_eq, (leavesOf_run_perm ops).isEmpty_eq]

theorem linesOf_run (above : List Container) (ops : List Op) :
    Step.linesOf (indentation above) (run ops) = (listing above ops).map Line.shown := by
  fun_induction listing above ops with
  | case1 above ops ih =>
    rw [Step.linesOf_eq_flatMap, run_eq_map_parts, List.flatMap_map, List.map_flatMap]
    congr 1
    funext part
    cases part with
    | leaf text matched => rfl
    | container c =>
      rw [Part.step, Step.lines, anyLeaf_run, anyMatch_run, ← indentation_append _ c]
      by_cases h : recorded (below c ops) = []
      · simp [h]
      · simp [h, ih c h, Line.shown]

/-! ## Places -/

/-- The operations that go through a place, from there on. -/
def under : List Container → List Op → List Op
  | [], ops => ops
  | c :: place, ops => under place (below c ops)

theorem mem_recorded_of_mem_parts {ops : List Op} {text : String} {matched : Bool}
    (h : .leaf text matched ∈ parts ops) : (text, matched) ∈ recorded ops := by
  obtain ⟨op, hop, hpart⟩ := List.mem_filterMap.1 (mem_firsts.1 h)
  obtain ⟨place, leaf⟩ := op
  cases place with
  | nil =>
    obtain ⟨leaf, rfl, heq⟩ := Option.map_eq_some_iff.1 hpart
    cases heq
    exact List.mem_filterMap.2 ⟨_, hop, rfl⟩
  | cons c place => cases hpart

theorem mem_recorded_of_mem_below {c : Container} {ops : List Op} {leaf : String × Bool}
    (h : leaf ∈ recorded (below c ops)) : leaf ∈ recorded ops := by
  obtain ⟨inner, hinner, hleaf⟩ := List.mem_filterMap.1 h
  obtain ⟨op, hop, hbelow⟩ := List.mem_filterMap.1 hinner
  refine List.mem_filterMap.2 ⟨op, hop, ?_⟩
  obtain ⟨place, leaf⟩ := op
  cases place with
  | nil => cases hbelow
  | cons d place =>
    rw [Op.below?] at hbelow
    split at hbelow
    · cases hbelow; exact hleaf
    · cases hbelow

theorem listing_eq_nil {ops : List Op} (h : recorded ops = []) (above : List Container) :
    listing above ops = [] := by
  rw [listing, List.flatMap_eq_nil_iff]
  intro part hpart
  cases part with
  | leaf text matched =>
    have hmem := mem_recorded_of_mem_parts hpart
    rw [h] at hmem
    cases hmem
  | container c =>
    have hbelow : recorded (below c ops) = [] := by
      rw [List.eq_nil_iff_forall_not_mem]
      intro leaf hleaf
      have hmem := mem_recorded_of_mem_below hleaf
      rw [h] at hmem
      cases hmem
    exact dif_pos hbelow

/-- The lines below the line of a part. -/
def Part.listing (above : List Container) (ops : List Op) : Part → List Line
  | leaf _ _ => []
  | container c => Trace.listing (above ++ [c]) (below c ops)

theorem listing_eq_flatMap (above : List Container) (ops : List Op) :
    listing above ops =
      (parts ops).flatMap fun part => (part.line above ops).toList ++ part.listing above ops := by
  rw [listing]
  congr 1
  funext part
  cases part with
  | leaf text matched => rfl
  | container c =>
    by_cases h : recorded (below c ops) = []
    · simp [Part.line, Part.listing, h, listing_eq_nil h]
    · simp [Part.line, Part.listing, h]

theorem above_isPrefix {line : Line} {above : List Container} {ops : List Op}
    (h : line ∈ listing above ops) : above <+: line.above := by
  fun_induction listing above ops with
  | case1 above ops ih =>
    obtain ⟨part, -, hline⟩ := List.mem_flatMap.1 h
    cases part with
    | leaf text matched =>
      obtain rfl := List.mem_singleton.1 hline
      exact List.prefix_rfl
    | container c =>
      by_cases hnone : recorded (below c ops) = []
      · simp [hnone] at hline
      · simp only [hnone, dite_false, List.mem_cons] at hline
        rcases hline with rfl | hbelow
        · exact List.prefix_rfl
        · exact (List.prefix_append above [c]).trans (ih c hnone hbelow)

namespace Part

variable {above : List Container} {ops : List Op}

theorem above_line {part : Part} {line : Line} (h : line ∈ (part.line above ops).toList) :
    line.above = above := by
  rw [Option.mem_toList] at h
  cases part with
  | leaf text matched => cases h; rfl
  | container c =>
    rw [Part.line] at h
    split at h
    · cases h
    · cases h; rfl

/-- All lines below the line of a container are below this container. -/
theorem exists_container_of_mem_listing {part : Part} {line : Line}
    (h : line ∈ part.listing above ops) :
    ∃ c, part = .container c ∧ above ++ [c] <+: line.above := by
  cases part with
  | leaf text matched => cases h
  | container c => exact ⟨c, rfl, above_isPrefix h⟩

theorem filter_line_here (part : Part) :
    (part.line above ops).toList.filter (fun line => line.above = above) =
      (part.line above ops).toList :=
  List.filter_eq_self.2 fun line hline => by simpa using above_line hline

theorem filter_listing_here (part : Part) :
    (part.listing above ops).filter (fun line => line.above = above) = [] := by
  rw [List.filter_eq_nil_iff]
  intro line hline
  obtain ⟨c, -, hbelow⟩ := exists_container_of_mem_listing hline
  have hlength := hbelow.length_le
  rw [List.length_append, List.length_singleton] at hlength
  simp only [decide_eq_true_eq]
  intro heq
  rw [heq] at hlength
  omega

theorem filter_line_inside (part : Part) (c : Container) (place : List Container) :
    (part.line above ops).toList.filter (fun line => line.above = above ++ c :: place) = [] := by
  rw [List.filter_eq_nil_iff]
  intro line hline
  simp [above_line hline]

theorem filter_listing_of_ne {part : Part} {c : Container} (h : part ≠ .container c)
    (place : List Container) :
    (part.listing above ops).filter (fun line => line.above = above ++ c :: place) = [] := by
  rw [List.filter_eq_nil_iff]
  intro line hline
  obtain ⟨d, rfl, hbelow⟩ := exists_container_of_mem_listing hline
  simp only [decide_eq_true_eq]
  intro heq
  rw [heq, List.prefix_append_right_inj] at hbelow
  exact h (congrArg Part.container (List.cons_prefix_cons.1 hbelow).1)

end Part

/-- What only one container adds to comes from there. -/
theorem flatMap_parts {α : Type} {f : Part → List α} {c : Container} {ops : List Op}
    (hother : ∀ part, part ≠ .container c → f part = [])
    (habsent : .container c ∉ parts ops → f (.container c) = []) :
    (parts ops).flatMap f = f (.container c) := by
  by_cases hmem : .container c ∈ parts ops
  · obtain ⟨front, back, hsplit, hfront, hback⟩ := exists_split_parts hmem
    have hnil : ∀ {ps : List Part}, .container c ∉ ps → ps.flatMap f = [] := by
      intro ps hps
      refine List.flatMap_eq_nil_iff.2 fun part hpart => hother part ?_
      rintro rfl
      exact hps hpart
    rw [hsplit, List.flatMap_append, List.flatMap_cons, hnil hfront, hnil hback, List.nil_append,
      List.append_nil]
  · rw [habsent hmem, List.flatMap_eq_nil_iff]
    intro part hpart
    refine hother part ?_
    rintro rfl
    exact hmem hpart

/-- The lines directly in a container are those of its parts. -/
theorem filter_listing (above place : List Container) (ops : List Op) :
    (listing above ops).filter (fun line => line.above = above ++ place) =
      (parts (under place ops)).filterMap (Part.line (above ++ place) (under place ops)) := by
  induction place generalizing above ops with
  | nil =>
    rw [List.append_nil, under, listing_eq_flatMap, List.filter_flatMap,
      List.filterMap_eq_flatMap_toList]
    congr 1
    funext part
    rw [List.filter_append, part.filter_line_here, part.filter_listing_here, List.append_nil]
  | cons c place ih =>
    have hbelow := ih (above ++ [c]) (below c ops)
    rw [← List.append_cons] at hbelow
    rw [under, ← hbelow, listing_eq_flatMap, List.filter_flatMap]
    simp only [List.filter_append, Part.filter_line_inside, List.nil_append]
    refine flatMap_parts (f := fun part => (part.listing above ops).filter
      fun line => line.above = above ++ c :: place) (fun part hpart => ?_) fun habsent => ?_
    · exact Part.filter_listing_of_ne hpart place
    · rw [Part.listing, below_eq_nil habsent, listing_eq_nil rfl, List.filter_nil]

end Trace

/-! ## Siblings -/

namespace Step

def container? : Step → Option Container
  | leaf _ _ => none
  | node c _ => some c

/-- At every depth, no two containers next to each other are equal. -/
inductive Distinct : List Step → Prop where
  | mk {steps : List Step} (hnodup : (steps.filterMap container?).Nodup)
      (hinner : ∀ c inner, node c inner ∈ steps → Distinct inner) : Distinct steps

end Step

namespace Trace

theorem below_ne_nil {c : Container} {ops : List Op} (h : .container c ∈ parts ops) :
    below c ops ≠ [] := by
  obtain ⟨op, hop, hpart⟩ := List.mem_filterMap.1 (mem_firsts.1 h)
  obtain ⟨place, leaf⟩ := op
  have hmem : ⟨place.tail, leaf⟩ ∈ below c ops := by
    refine List.mem_filterMap.2 ⟨_, hop, ?_⟩
    cases place with
    | nil => cases leaf <;> cases hpart
    | cons d place => cases hpart; exact if_pos rfl
  exact List.ne_nil_of_mem hmem

theorem distinct_run (ops : List Op) : Step.Distinct (run ops) := by
  rw [run_eq_map_parts]
  refine .mk ?_ fun c inner hmem => ?_
  · have hcontainer : Step.container? ∘ Part.step ops = Part.container? := by
      funext part
      cases part <;> rfl
    rw [List.filterMap_map, hcontainer]
    exact nodup_containers_firsts _
  · obtain ⟨part, hpart, hstep⟩ := List.mem_map.1 hmem
    cases part with
    | leaf text matched => cases hstep
    | container d =>
      have hlt := weight_below_lt (below_ne_nil hpart)
      cases hstep
      exact distinct_run (below c ops)
termination_by weight ops

/-! ## Main result -/

/-- The line of a trace that says what was looked for. -/
def headline (t : Trace) : String := String.ofList (Text.trimEnd (t.title ++ " " ++ t.query).toList)

/-- Whatever operations make a record, it has no two equal containers next to each other, and its
trace shows the listing of the operations, or that there was nothing to record.  In the listing,
the lines directly in a container are those of its leaves and of its containers with a leaf below
them, in the order of their first appearance. -/
theorem lines_run (title query : String) (ops : List Op) :
    let t : Trace := ⟨title, query, run ops⟩
    Step.Distinct t.steps ∧
      t.lines = t.headline ::
        (if recorded ops = [] then ["  -  no mappings"] else (listing [] ops).map Line.shown) ∧
      ∀ place, (listing [] ops).filter (fun line => line.above = place) =
        (parts (under place ops)).filterMap (Part.line place (under place ops)) := by
  intro t
  refine ⟨distinct_run ops, ?_, fun place => filter_listing [] place ops⟩
  have hlines : Step.linesOf "  " t.steps = (listing [] ops).map Line.shown := linesOf_run [] ops
  rw [lines, hlines, anyLeaf_run, headline]
  cases h : recorded ops with
  | nil => rfl
  | cons leaf leaves => rfl

/-- The second rule of `types` comes last but is shown with the first one, and the empty container
of the path is left out. -/
example :
    (⟨"looking for", "name: 'Foo'", run [⟨[.global, .types], some ("A", false)⟩,
        ⟨[.endpoint "/foo", .types], none⟩, ⟨[.global], some ("B", true)⟩,
        ⟨[.global, .types], some ("C", false)⟩]⟩ : Trace).lines =
      ["looking for name: 'Foo'", "  +  global", "    -  types", "      -  A", "      -  C",
        "    +  B"] := by
  decide +kernel

end Trace

end TypeRules
