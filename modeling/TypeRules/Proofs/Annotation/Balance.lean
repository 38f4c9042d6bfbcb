import TypeRules.Proofs.Annotation.Merged
import TypeRules.Proofs.Phrase.Sides

/-! # Brackets inside of parameter lists

The parameters of an annotation stand between its first parenthesis and its last character.  What is
between them need not be balanced: brackets may be closed that were never opened, and brackets and
quotes may be left open.

* `WellBracketed` — the texts in which brackets and quotes come in pairs.
* `Annotation.exists_read_enclosed_iff` — parameters are accepted if each of them has a value,
  whatever the brackets in them do.
* `Phrase.after_cutAnnotation_front` — in front of a target the annotation as a whole leaves nothing
  open, since the blank behind it would not be seen otherwise.
* `Phrase.parameters_enclosed` is the statement about rule texts.
-/

namespace TypeRules

open Text

/-! ## Brackets in pairs -/

namespace Text

namespace Nesting

/-- Whether a character closes a bracket where none is open. -/
def overcloses (n : Nesting) (c : Char) : Bool :=
  !n.quoted && n.depth == 0 && (c == ')' || c == '>')

/-- Whether no character of a text closes a bracket where none is open. -/
def closesOwn : Nesting → List Char → Bool
  | _, [] => true
  | n, c :: cs => !n.overcloses c && closesOwn (n.step c) cs

/-- The same place inside of `k` more brackets. -/
def deeper (n : Nesting) (k : Nat) : Nesting := ⟨n.depth + k, n.quoted⟩

theorem step_deeper {n : Nesting} {c : Char} (h : n.overcloses c = false) (k : Nat) :
    (n.deeper k).step c = (n.step c).deeper k := by
  obtain ⟨depth, quoted⟩ := n
  cases quoted with
  | true => rfl
  | false =>
    simp only [overcloses, Bool.not_false, Bool.true_and, Bool.and_eq_false_iff,
      beq_eq_false_iff_ne, Bool.or_eq_false_iff] at h
    by_cases hclose : c = ')' ∨ c = '>'
    · have hdepth : depth ≠ 0 := by tauto
      have hsub : depth + k - 1 = depth - 1 + k := by omega
      rcases hclose with rfl | rfl <;> simp [deeper, step, hsub]
    · rw [not_or] at hclose
      by_cases hquote : c = '"'
      · simp [deeper, step, hquote]
      · by_cases hopen : c = '(' ∨ c = '<'
        · have hadd : depth + k + 1 = depth + 1 + k := by omega
          simp [deeper, step, hquote, hopen, hadd]
        · simp [deeper, step, hquote, hopen, hclose]

theorem after_deeper {n : Nesting} {cs : List Char} (h : n.closesOwn cs = true) (k : Nat) :
    (n.deeper k).after cs = (n.after cs).deeper k := by
  induction cs generalizing n with
  | nil => rfl
  | cons c cs ih =>
    rw [closesOwn, Bool.and_eq_true, Bool.not_eq_true'] at h
    rw [after_cons, after_cons, step_deeper h.1, ih h.2]

theorem step_of_isQuiet {c : Char} (h : isQuiet c = true) (n : Nesting) : n.step c = n := by
  obtain ⟨depth, quoted⟩ := n
  cases quoted with
  | false => exact Text.step_of_isQuiet h depth
  | true =>
    have hquote : (c != '"') = true := by
      simp only [isQuiet, Bool.and_eq_true] at h
      exact h.1.1.1.1
    simp [step, hquote]

theorem after_of_isQuiet {cs : List Char} (h : ∀ c ∈ cs, isQuiet c = true) (n : Nesting) :
    n.after cs = n := by
  induction cs with
  | nil => rfl
  | cons c cs ih =>
    rw [after_cons, step_of_isQuiet (h c List.mem_cons_self),
      ih fun x hx => h x (List.mem_cons_of_mem _ hx)]

theorem after_trim (n : Nesting) (cs : List Char) : n.after (trim cs) = n.after cs := by
  obtain ⟨l, r, hl, hr, hcs⟩ := exists_blanks_around_trim cs
  have hquiet : ∀ {b : List Char}, Blanks b → ∀ c ∈ b, isQuiet c = true :=
    fun hb c hc => isQuiet_of_isBlank (hb c hc)
  conv_rhs => rw [hcs]
  rw [after_append, after_append, after_of_isQuiet (hquiet hl), after_of_isQuiet (hquiet hr)]

end Nesting

/-- A text that closes only brackets which it has opened, and in which neither a bracket nor a quote
is left open. -/
structure WellBracketed (cs : List Char) : Prop where
  closes : Nesting.top.closesOwn cs = true
  ends : Nesting.top.after cs = Nesting.top

instance (cs : List Char) : Decidable (WellBracketed cs) :=
  decidable_of_iff (Nesting.top.closesOwn cs = true ∧ Nesting.top.after cs = Nesting.top)
    ⟨fun ⟨hcloses, hends⟩ => ⟨hcloses, hends⟩, fun h => ⟨h.closes, h.ends⟩⟩

/-- If nothing is open behind parentheses, what is inside of them has pairs of brackets, unless it
closes one that it has not opened. -/
theorem wellBracketed_iff_closesOwn {name inner : List Char}
    (hname : ∀ c ∈ name, isQuiet c = true)
    (h : Nesting.top.after (name ++ '(' :: (inner ++ [')'])) = Nesting.top) :
    WellBracketed inner ↔ Nesting.top.closesOwn inner = true := by
  refine ⟨WellBracketed.closes, fun hcloses => ⟨hcloses, ?_⟩⟩
  have hinside : Nesting.top.after (name ++ '(' :: (inner ++ [')'])) =
      ((Nesting.top.after inner).deeper 1).step ')' := by
    rw [Nesting.after_append, Nesting.after_of_isQuiet hname, Nesting.after_cons,
      Nesting.after_append, ← Nesting.after_deeper hcloses]
    rfl
  rw [hinside] at h
  cases hafter : Nesting.top.after inner with
  | mk depth quoted =>
    rw [hafter] at h
    cases quoted with
    | true => cases h
    | false => exact h

end Text

/-! ## Reading parameters -/

namespace Annotation

/-- A name with something in parentheses behind it. -/
def enclosed (name inner : List Char) : List Char := name ++ '(' :: (inner ++ [')'])

/-- The text of the value in a parameter: what is behind its first equals sign in the open, or all
of it. -/
def valuePart (piece : List Char) : List Char :=
  match cutTopAt? '=' piece with
  | some (_, value) => value
  | none => piece

/-- There are no parameters, or every segment between commas in the open has a value. -/
def HasValues (inner : List Char) : Prop :=
  Blanks inner ∨ ∀ piece ∈ splitTop ',' inner, ¬ Blanks (valuePart piece)

instance (inner : List Char) : Decidable (HasValues inner) :=
  inferInstanceAs (Decidable (Blanks inner ∨
    ∀ piece ∈ splitTop ',' inner, ¬ Blanks (valuePart piece)))

theorem exists_readParameter_iff {piece : List Char} :
    (∃ p, readParameter piece = .ok p) ↔ ¬ Blanks (valuePart piece) := by
  rw [readParameter, valuePart, Blanks]
  cases cutTopAt? '=' piece with
  | none => by_cases h : trim piece = [] <;> simp [h, ← trim_eq_nil_iff]
  | some cut => by_cases h : trim cut.2 = [] <;> simp [h, ← trim_eq_nil_iff]

theorem exists_readParameters_iff {pieces : List (List Char)} (a : Annotation) :
    (∃ b, readParameters a pieces = .ok b) ↔ ∀ piece ∈ pieces, ¬ Blanks (valuePart piece) := by
  induction pieces generalizing a with
  | nil => exact ⟨fun _ => nofun, fun _ => ⟨a, rfl⟩⟩
  | cons piece pieces ih =>
    rw [List.forall_mem_cons, ← exists_readParameter_iff, readParameters]
    constructor
    · rintro ⟨b, h⟩
      obtain ⟨p, hp, hrest⟩ := bind_eq_ok_iff.1 h
      exact ⟨⟨p, hp⟩, (ih _).1 ⟨b, hrest⟩⟩
    · rintro ⟨⟨p, hp⟩, hrest⟩
      obtain ⟨b, hb⟩ := (ih (a.set p.1 p.2)).2 hrest
      exact ⟨b, bind_eq_ok_iff.2 ⟨p, hp, hb⟩⟩

/-- Whether an annotation with parentheses is read is a matter of its name and of the values in
them. -/
theorem exists_read_enclosed_iff {name inner : List Char} (hname : '(' ∉ name)
    (hcs : Trimmed (enclosed name inner)) :
    (∃ a, read (enclosed name inner) = .ok a) ↔ TypeName (trim name) ∧ HasValues inner := by
  have hread : read (enclosed name inner) = _ := read_enclosed (trim_eq_self hcs) hname
  rw [hread]
  constructor
  · rintro ⟨a, h⟩
    obtain ⟨typeName, hread, h⟩ := bind_eq_ok_iff.1 h
    refine ⟨(TypeRef.readName_eq_ok_iff.1 hread).1, ?_⟩
    split at h
    · next hempty => exact .inl (trim_eq_nil_iff.1 (List.isEmpty_iff.1 hempty))
    · exact .inr ((exists_readParameters_iff _).1 ⟨a, h⟩)
  · rintro ⟨htype, hvalues⟩
    have hread : TypeRef.readName name = .ok (String.ofList (trim name)) :=
      TypeRef.readName_eq_ok_iff.2 ⟨htype, rfl⟩
    by_cases hempty : (trim inner).isEmpty = true
    · exact ⟨_, bind_eq_ok_iff.2 ⟨_, hread, if_pos hempty⟩⟩
    · have hblanks : ¬ Blanks inner := by
        rwa [List.isEmpty_iff, trim_eq_nil_iff] at hempty
      obtain ⟨a, ha⟩ := (exists_readParameters_iff (ofName (String.ofList (trim name)))).2
        (hvalues.resolve_left hblanks)
      exact ⟨a, bind_eq_ok_iff.2 ⟨_, hread, (if_neg hempty).trans ha⟩⟩

/-- An annotation with a parenthesis in it has another one at its end, or is refused. -/
theorem exists_enclosed_or_error {cs : List Char} (hcs : Trimmed cs) (h : '(' ∈ cs) :
    (∃ name inner, '(' ∉ name ∧ cs = enclosed name inner) ∨
      read cs = .error .unbalancedParameters := by
  obtain ⟨⟨name, rest⟩, hopen⟩ : ∃ cut, cutAt? (· == '(') (trim cs) = some cut := by
    rw [trim_eq_self hcs, ← Option.ne_none_iff_exists', ne_eq, cutAt?_eq_none_iff]
    exact fun hnone => absurd (hnone _ h) (by simp)
  obtain ⟨c, hc, hsplit, hname⟩ := eq_of_cutAt? hopen
  rw [trim_eq_self hcs, beq_iff_eq.1 hc] at hsplit
  cases hclose : withoutSuffix? [')'] (trimEnd rest) with
  | none =>
    right
    simp only [read, hopen, hclose]
  | some inner =>
    left
    have hrest : trimEnd rest = rest := by
      refine trimEnd_eq_self fun x hx => hcs.2 x ?_
      rw [hsplit, List.getLast?_append, List.getLast?_cons, hx]
      rfl
    refine ⟨name, inner, fun hmem => absurd (hname _ hmem) (by simp), ?_⟩
    rw [enclosed, hsplit, ← hrest, eq_of_withoutSuffix? hclose]

end Annotation

/-! ## Annotations in front of a target -/

namespace Phrase

open Annotation (enclosed)

theorem after_cutAnnotation_front {cs front back : List Char}
    (h : cutAnnotation cs = (some front, back)) : Nesting.top.after front = Nesting.top := by
  unfold cutAnnotation at h
  split at h
  · next l r hcut =>
    cases h
    obtain ⟨-, hne, -⟩ := append_of_cutTopFrom? hcut
    obtain ⟨c, r, rfl⟩ := List.exists_cons_of_ne_nil hne
    rw [Nesting.after_trim]
    exact Nesting.eq_top_of_exposes (exposes_of_cutTopFrom? hcut)
  · cases h

/-! ## Main result -/

theorem Sides.readText_eq {text : String} {left right : List Char} {operator : Operator}
    (h : Sides text left operator right) :
    readText text = (readSides (Source.readRule left) operator right).mapError
      (.unreadable text) := by
  obtain ⟨l, r, hcut, rfl, rfl⟩ := h.cut
  exact readText_of_cut? hcut h.left_ne_nil h.right_ne_nil

theorem readText_of_annotation_error {text : String} {cs : List Char} (h : AnnotatedBy text cs)
    {fault : ReadFault} (hfault : Annotation.read cs = .error fault) :
    readText text = .error (.unreadable text fault) := by
  cases h with
  | alone h =>
    rw [h.readText_eq]
    simp only [readSides, hfault]
    rfl
  | beforeTarget h hcut =>
    have hmark : (some cs).mapM Annotation.read = .error fault := by
      rw [Option.mapM_some, hfault]
      rfl
    rw [h.readText_eq]
    simp only [readSides, hcut, hmark]
    rfl

theorem exists_readText_annotate_iff {text : String} {left right : List Char}
    (h : Sides text left .annotate right) :
    (∃ phrase, readText text = .ok phrase) ↔ ∃ a, Annotation.read right = .ok a := by
  rw [h.readText_eq]
  simp only [mapError_eq_ok_iff]
  constructor
  · rintro ⟨phrase, h⟩
    obtain ⟨a, ha, -⟩ := bind_eq_ok_iff.1 h
    exact ⟨a, ha⟩
  · rintro ⟨a, ha⟩
    exact ⟨_, bind_eq_ok_iff.2 ⟨a, ha, rfl⟩⟩

theorem exists_readText_map_iff {text : String} {left right front back : List Char}
    (h : Sides text left .map right) (hcut : cutAnnotation right = (some front, back)) :
    (∃ phrase, readText text = .ok phrase) ↔
      (∃ a, Annotation.read front = .ok a) ∧ ∃ t, Target.read back = .ok t := by
  rw [h.readText_eq]
  simp only [mapError_eq_ok_iff, readSides, hcut]
  constructor
  · rintro ⟨phrase, h⟩
    obtain ⟨mark, hmark, h⟩ := bind_eq_ok_iff.1 h
    obtain ⟨t, ht, -⟩ := bind_eq_ok_iff.1 h
    cases optionMapM_eq_ok_iff.1 hmark with
    | some ha => exact ⟨⟨_, ha⟩, t, ht⟩
  · rintro ⟨⟨a, ha⟩, t, ht⟩
    exact ⟨_, bind_eq_ok_iff.2 ⟨some a, optionMapM_eq_ok_iff.2 (.some ha),
      bind_eq_ok_iff.2 ⟨t, ht, rfl⟩⟩⟩

/-- An annotation with a parenthesis is refused if there is none at its end.  What is between the
two is accepted exactly if each segment has a value, behind the sign `@` whatever is opened and
closed in it.  In front of a target nothing may be left open, so the only way not to come in pairs
is to close a bracket that is not open. -/
theorem parameters_enclosed (text : String) :
    (∀ cs, AnnotatedBy text cs → '(' ∈ cs →
      (∃ name inner, '(' ∉ name ∧ cs = enclosed name inner) ∨
        readText text = .error (.unreadable text .unbalancedParameters)) ∧
    ∀ name inner, '(' ∉ name →
      (∀ left, Sides text left .annotate (enclosed name inner) →
        ((∃ phrase, readText text = .ok phrase) ↔
          TypeName (trim name) ∧ Annotation.HasValues inner)) ∧
      ∀ left right back, Sides text left .map right →
        cutAnnotation right = (some (enclosed name inner), back) →
        ((∃ phrase, readText text = .ok phrase) ↔
          (TypeName (trim name) ∧ Annotation.HasValues inner) ∧ ∃ t, Target.read back = .ok t) ∧
        (TypeName (trim name) →
          (WellBracketed inner ↔ Nesting.top.closesOwn inner = true)) := by
  refine ⟨fun cs h hmem => ?_, fun name inner hname => ⟨fun left h => ?_,
    fun left right back h hcut => ⟨?_, fun htype => ?_⟩⟩⟩
  · have hcs : Trimmed cs := h.trim_eq ▸ trimmed_trim cs
    rcases Annotation.exists_enclosed_or_error hcs hmem with hshape | hfault
    · exact .inl hshape
    · exact .inr (readText_of_annotation_error h hfault)
  · have hcs := (AnnotatedBy.alone h).trim_eq ▸ trimmed_trim _
    rw [exists_readText_annotate_iff h, Annotation.exists_read_enclosed_iff hname hcs]
  · have hcs := (AnnotatedBy.beforeTarget h hcut).trim_eq ▸ trimmed_trim _
    rw [exists_readText_map_iff h hcut, Annotation.exists_read_enclosed_iff hname hcs]
  · have hquiet : ∀ c ∈ name, isQuiet c = true := by
      intro c hc
      cases hblank : isBlank c with
      | true => exact isQuiet_of_isBlank hblank
      | false => exact isQuiet_of_isNameChar (htype.isNameChar c (mem_trim hc hblank))
    exact wellBracketed_iff_closesOwn hquiet (after_cutAnnotation_front hcut)

/-- A list without its end, one in which brackets and a quote are left open, and one in front of a
target, with a literal that holds a bracket. -/
theorem parameters_enclosed_openAndClosed :
    readText "Foo @ io.A(1" = .error (.unreadable "Foo @ io.A(1" .unbalancedParameters) ∧
      (∃ phrase, readText "Foo @ io.A(a = (<, b\")" = .ok phrase) ∧
      (∃ phrase, readText "Foo => io.A(a = \"(\", b = c<1>) io.B" = .ok phrase) ∧
      WellBracketed "a = \"(\", b = c<1>".toList := by
  have hname : '(' ∉ "io.A".toList := by decide
  have htype : TypeName (trim "io.A".toList) := isTypeName_iff.1 (by decide +kernel)
  have hunclosedSides : Sides "Foo @ io.A(1" "Foo".toList .annotate "io.A(1".toList :=
    ⟨⟨"Foo ".toList, " io.A(1".toList, by decide +kernel, by decide +kernel, by decide +kernel⟩,
      by decide, by decide⟩
  have hunclosed : AnnotatedBy "Foo @ io.A(1" "io.A(1".toList := .alone hunclosedSides
  have halone : Sides "Foo @ io.A(a = (<, b\")" "Foo".toList .annotate
      (enclosed "io.A".toList "a = (<, b\"".toList) :=
    ⟨⟨"Foo ".toList, " io.A(a = (<, b\")".toList, by decide +kernel, by decide +kernel,
      by decide +kernel⟩, by decide, by decide⟩
  have hbefore : Sides "Foo => io.A(a = \"(\", b = c<1>) io.B" "Foo".toList .map
      "io.A(a = \"(\", b = c<1>) io.B".toList :=
    ⟨⟨"Foo ".toList, " io.A(a = \"(\", b = c<1>) io.B".toList, by decide +kernel,
      by decide +kernel, by decide +kernel⟩, by decide, by decide⟩
  have hcut : cutAnnotation "io.A(a = \"(\", b = c<1>) io.B".toList =
      (some (enclosed "io.A".toList "a = \"(\", b = c<1>".toList), "io.B".toList) := by
    decide +kernel
  have htarget : Target.read "io.B".toList = .ok ⟨.ofName "io.B", false, false⟩ := by
    decide +kernel
  obtain ⟨haccepted, hbrackets⟩ :=
    ((parameters_enclosed "Foo => io.A(a = \"(\", b = c<1>) io.B").2 _ _ hname).2 _ _ _ hbefore hcut
  refine ⟨?_, ?_, ?_, ?_⟩
  · refine ((parameters_enclosed _).1 _ hunclosed (by decide)).resolve_left ?_
    rintro ⟨name, inner, -, hshape⟩
    have hlast := congrArg List.getLast? hshape
    rw [enclosed, ← List.cons_append, ← List.append_assoc, List.getLast?_concat] at hlast
    exact absurd hlast (by decide)
  · exact (((parameters_enclosed _).2 _ _ hname).1 _ halone).2 ⟨htype, by decide +kernel⟩
  · exact haccepted.2 ⟨⟨htype, by decide +kernel⟩, _, htarget⟩
  · exact (hbrackets htype).2 (by decide)

/-- A parenthesis that closes nothing is accepted as a value. -/
theorem parameters_overclosed :
    let text := "Foo @ io.A())"
    AnnotatedBy text (enclosed "io.A".toList ")".toList) ∧
      ¬ WellBracketed ")".toList ∧
      readText text = .ok (.annotate ⟨"Foo", none⟩ ⟨"io.A", [("", .simple ")")]⟩) := by
  have hsides : Sides "Foo @ io.A())" "Foo".toList .annotate
      (enclosed "io.A".toList ")".toList) :=
    ⟨⟨"Foo ".toList, " io.A())".toList, by decide +kernel, by decide +kernel, by decide +kernel⟩,
      by decide, by decide⟩
  exact ⟨.alone hsides, by decide, by decide +kernel⟩

end Phrase

end TypeRules
