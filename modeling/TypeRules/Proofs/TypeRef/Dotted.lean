import TypeRules.Proofs.Rule.Names
import TypeRules.Wrapper

/-! # Dotted names from left to right

A dotted name can be checked one character after the other.  In this form it is easy to see what
becomes of a name when its placeholder is replaced, and when it is cut at its last dot.

* `NameScan` is the check, `dotted_iff` shows what it accepts.
* `Dotted.replaced` — a dotted name is one again if the placeholder is replaced by a dotted name.
* `TypeRef.typeName_settleName`, `TypeRef.typeName_simpleOf` — type names remain type names.
* `Options.Fitting` — options that have the same effect on the names of models.
-/

namespace TypeRules

open Text

theorem isWord_of_isAlpha {c : Char} (h : c.isAlpha = true) : isWord c = true := by
  have hupper : (0x41, 0x5A) ∈ wordRanges := by decide +kernel
  have hlower : (0x61, 0x7A) ∈ wordRanges := by decide +kernel
  rw [isWord, List.any_eq_true]
  rcases Bool.or_eq_true_iff.1 h with hcase | hcase
  · have hrange : 0x41 ≤ c.toNat ∧ c.toNat ≤ 0x5A := of_decide_eq_true hcase
    exact ⟨_, hupper, by simpa using hrange⟩
  · have hbounds : (decide (c.val ≥ 'a'.val) && decide (c.val ≤ 'z'.val)) = true := hcase
    have hrange : 0x61 ≤ c.toNat ∧ c.toNat ≤ 0x7A := by
      rw [Bool.and_eq_true] at hbounds
      exact ⟨of_decide_eq_true hbounds.1, of_decide_eq_true hbounds.2⟩
    exact ⟨_, hlower, by simpa using hrange⟩

theorem isNameNext_of_isNameStart {c : Char} (h : isNameStart c = true) : isNameNext c = true := by
  have hunderscore : isWord '_' = true := by decide +kernel
  simp only [isNameStart, isIdentifierStart, Bool.or_eq_true, beq_iff_eq] at h
  simp only [isNameNext, isIdentifierNext, Bool.or_eq_true, beq_iff_eq]
  rcases h with ((h | rfl) | rfl) | rfl
  · simp [isWord_of_isAlpha h]
  · simp [hunderscore]
  · simp
  · simp

theorem nameSegment_cons_iff {c : Char} {cs : List Char} :
    NameSegment (c :: cs) ↔ isNameStart c = true ∧ ∀ x ∈ cs, isNameNext x = true :=
  ⟨fun ⟨hstart, hnext⟩ => ⟨hstart, hnext⟩, fun ⟨hstart, hnext⟩ => ⟨hstart, hnext⟩⟩

/-- Where in a dotted name a check is: in front of a segment, or inside of one.  A check that is
broken off stays so. -/
inductive NameScan where
  | front
  | inside
  | broken
  deriving DecidableEq

namespace NameScan

def next : NameScan → Char → NameScan
  | front, c => if isNameStart c then inside else broken
  | inside, c => if c = '.' then front else if isNameNext c then inside else broken
  | broken, _ => broken

def run (s : NameScan) (cs : List Char) : NameScan := cs.foldl next s

@[simp] theorem run_nil (s : NameScan) : s.run [] = s := rfl

@[simp] theorem run_cons (s : NameScan) (c : Char) (cs : List Char) :
    s.run (c :: cs) = (s.next c).run cs := rfl

@[simp] theorem run_append (s : NameScan) (cs ds : List Char) :
    s.run (cs ++ ds) = (s.run cs).run ds := List.foldl_append

@[simp] theorem run_broken (cs : List Char) : broken.run cs = broken := by
  induction cs with
  | nil => rfl
  | cons c cs ih => exact ih

theorem next_inside_dot : inside.next '.' = front := rfl

theorem next_dot (s : NameScan) : s.next '.' = front ∨ s.next '.' = broken := by
  cases s with
  | front => exact .inr (by decide)
  | inside => exact .inl rfl
  | broken => exact .inr rfl

theorem next_of_isNameStart {s : NameScan} (hs : s ≠ broken) {c : Char}
    (hc : isNameStart c = true) : s.next c = inside := by
  cases s with
  | front => rw [next, if_pos hc]
  | inside =>
    have hdot : c ≠ '.' := by
      rintro rfl
      exact absurd hc (by decide)
    rw [next, if_neg hdot, if_pos (isNameNext_of_isNameStart hc)]
  | broken => exact absurd rfl hs

end NameScan

open NameScan

/-- Segments that begin and go on as they have to, with dots between them. -/
def Dotted (cs : List Char) : Prop := front.run cs = inside

instance (cs : List Char) : Decidable (Dotted cs) := inferInstanceAs (Decidable (_ = _))

/-- A segment is not empty. -/
theorem not_forall_nameSegment (rest : List (List Char)) :
    ¬ ∀ segment ∈ [] :: rest, NameSegment segment := by
  intro h
  cases h [] List.mem_cons_self

/-- From inside of a segment the first piece goes on with it. -/
theorem run_eq_inside_iff (cs : List Char) :
    (front.run cs = inside ↔ ∀ segment ∈ splitAll '.' cs, NameSegment segment) ∧
      ∀ first rest, splitAll '.' cs = first :: rest → (inside.run cs = inside ↔
        (∀ c ∈ first, isNameNext c = true) ∧ ∀ segment ∈ rest, NameSegment segment) := by
  induction cs with
  | nil =>
    refine ⟨?_, fun first rest hsplit => ?_⟩
    · exact iff_of_false (by decide) (not_forall_nameSegment [])
    · cases hsplit
      simp
  | cons c cs ih =>
    obtain ⟨first, rest, hsplit⟩ := List.exists_cons_of_ne_nil (splitAll_ne_nil '.' cs)
    obtain ⟨hfront, hinside⟩ := ih
    have hinside := hinside first rest hsplit
    by_cases hdot : c = '.'
    · subst hdot
      have hnil : splitAll '.' ('.' :: cs) = [] :: splitAll '.' cs := by rw [splitAll, if_pos rfl]
      refine ⟨?_, fun first' rest' h => ?_⟩
      · have hbroken : front.run ('.' :: cs) = broken := run_broken cs
        rw [hbroken, hnil]
        exact iff_of_false (by decide) (not_forall_nameSegment _)
      · rw [hnil] at h
        cases h
        rw [run_cons, next_inside_dot, hfront]
        simp
    · have hcons := splitAll_cons_of_ne hdot hsplit
      refine ⟨?_, fun first' rest' h => ?_⟩
      · rw [hcons, List.forall_mem_cons, nameSegment_cons_iff, and_assoc, ← hinside, run_cons, next]
        split
        · next hstart => simp [hstart]
        · next hstart => simp [hstart]
      · rw [hcons] at h
        cases h
        rw [List.forall_mem_cons, and_assoc, ← hinside, run_cons, next, if_neg hdot]
        split
        · next hnext => simp [hnext]
        · next hnext => simp [hnext]

theorem dotted_iff {cs : List Char} :
    Dotted cs ↔ ∀ segment ∈ splitAll '.' cs, NameSegment segment :=
  (run_eq_inside_iff cs).1

theorem typeName_iff {cs : List Char} : TypeName cs ↔ cs = ['?'] ∨ Dotted cs := by
  rw [← isTypeName_iff, isTypeName, Bool.or_eq_true, beq_iff_eq, isDotted_iff, dotted_iff]

/-! ## Replacing the placeholder -/

theorem Dotted.isNameStart {c : Char} {cs : List Char} (h : Dotted (c :: cs)) :
    isNameStart c = true := by
  by_contra hstart
  rw [Dotted, run_cons, next, if_neg hstart, run_broken] at h
  cases h

theorem Dotted.run {cs : List Char} (h : Dotted cs) {s : NameScan} (hs : s ≠ broken) :
    s.run cs = inside := by
  cases cs with
  | nil => cases h
  | cons c cs =>
    have hstart := h.isNameStart
    rw [Dotted, run_cons, next_of_isNameStart (by decide) hstart] at h
    rw [run_cons, next_of_isNameStart hs hstart, h]

theorem Dotted.run_joinWith {before after : List Char} (hbefore : Dotted before)
    (hafter : Dotted after) (pieces : List (List Char)) {s : NameScan}
    (h : s.run (joinWith before pieces) = inside) : s.run (joinWith after pieces) = inside := by
  induction pieces generalizing s with
  | nil => exact h
  | cons piece pieces ih =>
    by_cases hnil : pieces = []
    · rw [hnil, joinWith_singleton] at h ⊢
      exact h
    · rw [joinWith_cons _ _ hnil, run_append, run_append] at h ⊢
      have hs : s.run piece ≠ broken := by
        intro hbroken
        rw [hbroken, run_broken, run_broken] at h
        cases h
      rw [hbefore.run hs] at h
      rw [hafter.run hs]
      exact ih h

theorem Dotted.replaced {phrase replacement before after : List Char} (hphrase : Dotted phrase)
    (hreplacement : Dotted replacement) (h : Replaced phrase replacement before after)
    (hbefore : Dotted before) : Dotted after := by
  obtain ⟨pieces, -, -, rfl, rfl⟩ := h
  exact hphrase.run_joinWith hreplacement pieces hbefore

namespace TypeRef

theorem dotted_placeholder : Dotted placeholder.toList := by decide +kernel

theorem typeName_settleName {base name : String} (hbase : Dotted base.toList)
    (h : TypeName name.toList) : TypeName (settleName base name).toList := by
  rcases typeName_iff.1 h with hwildcard | hdotted
  · have hfree : ¬ placeholder.toList <:+: name.toList := by
      rw [hwildcard]
      decide
    rw [settleName, replaceAll_of_not_infix (by decide) hfree, String.ofList_toList]
    exact h
  · exact typeName_iff.2 (.inr (dotted_placeholder.replaced hbase (replaced_settleName base name)
      hdotted))

theorem wellNamed_settle {base : String} (hbase : Dotted base.toList) {t : TypeRef}
    (h : t.WellNamed) : (t.settle base).WellNamed := by
  induction t using induct with
  | mk name args ih =>
    obtain ⟨hname, hargs⟩ := h
    rw [settle, settleArgs_eq_map]
    refine .mk (typeName_settleName hbase hname) fun arg harg => ?_
    obtain ⟨arg, hmem, rfl⟩ := List.mem_map.1 harg
    exact ih arg hmem (hargs arg hmem)

/-! ## Simple names -/

theorem dotted_simpleOf {name : String} (h : Dotted name.toList) :
    Dotted (simpleOf name).toList := by
  rw [simpleOf]
  split
  · next package simple hcut =>
    rw [Dotted, append_of_cutAtLast? hcut, run_append, run_cons] at h
    rw [String.toList_ofList]
    -- Behind a dot a segment begins, or the check is broken off.
    rcases next_dot (front.run package) with hfront | hbroken
    · rwa [hfront] at h
    · rw [hbroken, run_broken] at h
      cases h
  · exact h

theorem typeName_simpleOf {name : String} (h : TypeName name.toList) :
    TypeName (simpleOf name).toList := by
  rcases typeName_iff.1 h with hwildcard | hdotted
  · have hcut : cutAtLast? '.' name.toList = none := by
      rw [hwildcard]
      rfl
    rw [simpleOf, hcut]
    exact h
  · exact typeName_iff.2 (.inr (dotted_simpleOf hdotted))

end TypeRef

/-! ## Names of models -/

/-- The base package is a dotted name, and the suffix goes on with a name. -/
structure Options.Fitting (o : Options) : Prop where
  package : Dotted o.basePackage.toList
  suffix : ∀ c ∈ o.modelSuffix.toList, isNameNext c = true

example : Options.default.Fitting := ⟨by decide +kernel, nofun⟩

theorem NameScan.run_inside {cs : List Char} (h : ∀ c ∈ cs, isNameNext c = true) :
    inside.run cs = inside := by
  induction cs with
  | nil => rfl
  | cons c cs ih =>
    rw [List.forall_mem_cons] at h
    have hdot : c ≠ '.' := by
      rintro rfl
      exact absurd h.1 (by decide +kernel)
    rw [run_cons, next, if_neg hdot, if_pos h.1]
    exact ih h.2

theorem Options.Fitting.dotted_modelName {o : Options} (ho : o.Fitting) {name : String}
    (h : Dotted name.toList) : Dotted (o.modelName name).toList := by
  rw [modelName]
  split
  · exact h
  · rw [Dotted, String.toList_append, run_append, h]
    exact run_inside ho.suffix

theorem Options.Fitting.typeName_genericName {o : Options} (ho : o.Fitting) {name : String}
    (h : TypeName name.toList) : TypeName (o.genericName name).toList := by
  rw [genericName]
  split
  · next hprefix =>
    rcases typeName_iff.1 h with hwildcard | hdotted
    · have hpackage := ho.package
      rw [hwildcard, List.isPrefixOf_iff_prefix] at hprefix
      rcases List.prefix_cons_iff.1 hprefix with hnil | ⟨rest, hcons, -⟩
      · rw [hnil] at hpackage
        cases hpackage
      · rw [hcons] at hpackage
        exact absurd hpackage.isNameStart (by decide)
    · exact typeName_iff.2 (.inr (ho.dotted_modelName (TypeRef.dotted_simpleOf hdotted)))
  · exact TypeRef.typeName_simpleOf h

end TypeRules
