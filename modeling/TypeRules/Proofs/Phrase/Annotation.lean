import TypeRules.Proofs.Annotation.Written
import TypeRules.Proofs.Phrase.Operator
import TypeRules.Proofs.Phrase.Target
import TypeRules.Proofs.Source

/-! # Annotations in a rule text

An annotation stands behind the operator `@`, or behind `=>` with a target after it.

* `WrittenAnnotation.WellFormed.balanced_text`, `isBlank_of_mem_exposed_text` — what a scan makes
  of an annotation: it is balanced, and no blank of it is in the open.
* `Phrase.cutAnnotation_blank` — so the first blank in the open is the one in front of the target.
* `readText_annotated` — in both places an annotation is read back, whatever its literals hold.
-/

namespace TypeRules

open Text

/-! ## Annotations under a scan -/

namespace WrittenAnnotation

variable {a : WrittenAnnotation}

theorem WellFormed.balanced_typeName (h : a.WellFormed) : Balanced a.typeName.toList :=
  balanced_of_isQuiet fun c hc => isQuiet_of_isNameChar (h.typeName.isNameChar c hc)

theorem WellFormed.balanced_parameters (h : a.WellFormed) {pairs : List (String × String)}
    (hparameters : a.parameters = some pairs) : Balanced (inner pairs) := by
  have hpairs := pairs_of_some hparameters
  exact balanced_inner (hpairs ▸ h.parameter)

theorem WellFormed.balanced_text (h : a.WellFormed) : Balanced a.text.toList := by
  cases hparameters : a.parameters with
  | none =>
    rw [toList_text_none hparameters]
    exact h.balanced_typeName
  | some pairs =>
    rw [toList_text_some hparameters]
    exact h.balanced_typeName.append
      ((h.balanced_parameters hparameters).enclosed (.inl rfl) (.inl rfl))

theorem WellFormed.isBlank_of_mem_exposed_text (h : a.WellFormed) :
    ∀ c ∈ Nesting.top.exposed a.text.toList, isBlank c = false := by
  have hexposed : Nesting.top.exposed a.text.toList =
      Nesting.top.exposed a.typeName.toList := by
    cases hparameters : a.parameters with
    | none => rw [toList_text_none hparameters]
    | some pairs =>
      rw [toList_text_some hparameters, h.balanced_typeName.exposed_append, Nesting.top,
        exposed_enclosed (h.balanced_parameters hparameters) (.inl rfl), List.append_nil]
  intro c hc
  rw [hexposed] at hc
  exact isBlank_of_isNameChar (h.typeName.isNameChar c (Nesting.mem_of_mem_exposed hc))

theorem WellFormed.text_ne_nil (h : a.WellFormed) : a.text.toList ≠ [] := by
  have hne := h.typeName.ne_nil
  cases hparameters : a.parameters with
  | none => rwa [toList_text_none hparameters]
  | some pairs =>
    rw [toList_text_some hparameters]
    exact List.append_ne_nil_of_left_ne_nil hne _

end WrittenAnnotation

/-! ## Annotations in front of a target -/

namespace Phrase

theorem startsTarget_blank {c : Char} (hblank : isBlank c = false) (hangle : c ≠ '<')
    (hparen : c ≠ '(') (cs : List Char) : startsTarget (' ' :: c :: cs) = true := by
  have htrim : trimStart (' ' :: c :: cs) = c :: cs := by
    rw [trimStart_cons, if_pos (by decide), trimStart_cons, hblank]
    rfl
  have hspace : isBlank ' ' = true := by decide
  simp [startsTarget, htrim, hspace, hangle, hparen]

/-- The annotation ends at the first blank in the open, provided that a target begins there. -/
theorem cutAnnotation_blank {front back : List Char} (hbalanced : Balanced front)
    (hexposed : ∀ c ∈ Nesting.top.exposed front, isBlank c = false) (hfront : Trimmed front)
    (hback : Trimmed back) (hstarts : startsTarget (' ' :: back) = true) :
    cutAnnotation (front ++ ' ' :: back) = (some front, back) := by
  have hscan := cutTopFrom?_append isBlank_of_startsTarget hexposed (' ' :: back)
  have hhit : cutTopFrom? startsTarget Nesting.top (' ' :: back) = some ([], ' ' :: back) := by
    have hexposes : Nesting.top.exposes ' ' = true := by decide
    rw [cutTopFrom?, hexposes, hstarts]
    rfl
  rw [hbalanced.after_top, hhit] at hscan
  have hcut : cutTop? startsTarget (front ++ ' ' :: back) = some (front, ' ' :: back) := by
    rw [cutTop?, hscan, Option.map_some, List.append_nil]
  have htrim : trim (' ' :: back) = back := by
    rw [← List.singleton_append, trim_blanks_append blanks_space, trim_eq_self hback]
  unfold cutAnnotation
  rw [hcut]
  simp [trim_eq_self hfront, htrim]

theorem startsTarget_chars {t : Target} (h : t.Consistent) :
    startsTarget (' ' :: t.chars) = true := by
  obtain ⟨c, cs, hcons, hc⟩ := TypeRef.head?_text h.type
  rw [Target.chars, hcons, List.cons_append]
  exact startsTarget_blank (isBlank_of_isNameChar hc) (ne_of_class hc (by decide +kernel))
    (ne_of_class hc (by decide +kernel)) _

theorem readSides_annotate {a : WrittenAnnotation} (ha : a.WellFormed) (source : Source) :
    readSides source .annotate a.text.toList = .ok (annotate source a.meaning) := by
  simp only [readSides, WrittenAnnotation.read_text ha]
  rfl

theorem readSides_map_annotated {a : WrittenAnnotation} (ha : a.WellFormed) {t : Target}
    (ht : t.Consistent) (source : Source) :
    readSides source .map (a.text.toList ++ ' ' :: t.chars) =
      .ok (map source (some a.meaning) t) := by
  have hcut := cutAnnotation_blank ha.balanced_text ha.isBlank_of_mem_exposed_text ha.trimmed_text
    (Target.trimmed_chars ht) (startsTarget_chars ht)
  have hannotation : (some a.text.toList).mapM Annotation.read = .ok (some a.meaning) := by
    have hread := WrittenAnnotation.read_text ha
    show some <$> Annotation.read a.text.toList = _
    rw [hread]
    rfl
  simp only [readSides, hcut, hannotation, Target.read_chars ht]
  rfl

end Phrase

/-! ## Main result -/

/-- An annotation is read back parameter for parameter, in the order in which the parameters are
written, behind its own operator as well as in front of a target.  Keys and unquoted values are
tokens, quoted values may hold everything but a quote. -/
theorem readText_annotated {source : String} (hsource : SourceText source)
    {a : WrittenAnnotation} (ha : a.WellFormed) :
    Phrase.readText (source ++ " @ " ++ a.text) =
        .ok (.annotate ⟨source, none⟩ ⟨a.typeName, a.pairs.map WrittenParameter.meaning⟩) ∧
      ∀ target : Target, target.Consistent →
        Phrase.readText (source ++ " => " ++ a.text ++ " " ++ String.ofList target.chars) =
          .ok (.map ⟨source, none⟩
            (some ⟨a.typeName, a.pairs.map WrittenParameter.meaning⟩) target) := by
  have hformat : ∀ f ∈ (none : Option String), SourceText f := fun _ h => by cases h
  constructor
  · have htext : (source ++ " @ " ++ a.text).toList = (Source.textOf (some source) none).toList ++
        ' ' :: (Operator.annotate.sign ++ ' ' :: a.text.toList) := by
      simp [Operator.sign, Source.toList_textOf_none]
    rw [Phrase.readText_textOf hsource hformat ha.trimmed_text ha.text_ne_nil htext,
      Phrase.readSides_annotate ha]
    rfl
  · intro target htarget
    have htext : (source ++ " => " ++ a.text ++ " " ++ String.ofList target.chars).toList =
        (Source.textOf (some source) none).toList ++
          ' ' :: (Operator.map.sign ++ ' ' :: (a.text.toList ++ ' ' :: target.chars)) := by
      simp [Operator.sign, Source.toList_textOf_none]
    have htrimmed : Trimmed (a.text.toList ++ ' ' :: target.chars) := by
      have happend := trimmed_append ha.trimmed_text ha.text_ne_nil
        (Target.trimmed_chars htarget) (Target.chars_ne_nil htarget) [' ']
      simpa using happend
    have hne : a.text.toList ++ ' ' :: target.chars ≠ [] :=
      List.append_ne_nil_of_left_ne_nil ha.text_ne_nil _
    rw [Phrase.readText_textOf hsource hformat htrimmed hne htext,
      Phrase.readSides_map_annotated ha htarget]
    rfl

/-- A literal that holds an operator, the separators and an open parenthesis, and a qualified
name behind it. -/
def patternAnnotation : WrittenAnnotation :=
  ⟨"io.Pattern", some [("regexp", "\"a=>b, c@(d\""), ("flag", "com.x.Flag.ALL")]⟩

theorem patternAnnotation_wellFormed : patternAnnotation.WellFormed where
  typeName := isTypeName_iff.1 (by decide +kernel)
  value p hp := by
    rcases List.mem_cons.1 hp with rfl | hp
    · exact @WrittenValue.literal "a=>b, c@(d".toList (by decide)
    · rw [List.mem_singleton.1 hp]
      exact .token ⟨by decide, List.all_eq_true.1 (by decide +kernel)⟩
  key := by
    refine .inr ⟨fun p hp => ?_, by decide⟩
    rcases List.mem_cons.1 hp with rfl | hp
    · exact ⟨by decide, List.all_eq_true.1 (by decide +kernel)⟩
    · rw [List.mem_singleton.1 hp]
      exact ⟨by decide, List.all_eq_true.1 (by decide +kernel)⟩

theorem readText_annotated_pattern :
    let annotation : Annotation := ⟨"io.Pattern",
      [("regexp", .simple "\"a=>b, c@(d\""), ("flag", .qualified "Flag.ALL" (some "com.x.Flag"))]⟩
    let target : Target := ⟨.mk "Map" [.ofName "A", .ofName "?"], false, false⟩
    Phrase.readText "Foo @ io.Pattern(regexp = \"a=>b, c@(d\", flag = com.x.Flag.ALL)" =
        .ok (.annotate ⟨"Foo", none⟩ annotation) ∧
      Phrase.readText
          "Foo => io.Pattern(regexp = \"a=>b, c@(d\", flag = com.x.Flag.ALL) Map<A, ?>" =
        .ok (.map ⟨"Foo", none⟩ (some annotation) target) := by
  intro annotation target
  have hsource : SourceText "Foo" := by decide +kernel
  have htarget : target.Consistent := by decide +kernel
  have hmeaning : patternAnnotation.pairs.map WrittenParameter.meaning =
      annotation.parameters := by decide +kernel
  have hannotate : "Foo" ++ " @ " ++ patternAnnotation.text =
      "Foo @ io.Pattern(regexp = \"a=>b, c@(d\", flag = com.x.Flag.ALL)" := by decide +kernel
  have hmap : "Foo" ++ " => " ++ patternAnnotation.text ++ " " ++ String.ofList target.chars =
      "Foo => io.Pattern(regexp = \"a=>b, c@(d\", flag = com.x.Flag.ALL) Map<A, ?>" := by
    decide +kernel
  have hread := readText_annotated hsource patternAnnotation_wellFormed
  rw [hmeaning, hannotate] at hread
  have hread' := hread.2 target htarget
  rw [hmap] at hread'
  exact ⟨hread.1, hread'⟩

end TypeRules
