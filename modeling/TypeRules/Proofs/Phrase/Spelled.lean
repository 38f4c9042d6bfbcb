import Mathlib.Data.List.Infix
import TypeRules.Proofs.Phrase.Sides

/-! # Rule texts with any source

The left side of a rule is free text: it may have blanks, colons and slashes in it, as long as it
gives no operator away.

* `LeftText` — the texts that are sources as a whole.
* `Operator.Free` — the texts that give no operator away.  Behind one of them, the first operator is
  the one that follows it.
* `Target.WrittenAs` — the texts of targets, with any blanks that the grammar allows.
* `Phrase.readText_map`, `Phrase.readText_annotate` — such a source with a target or an annotation
  behind it is read as these two, whatever blanks are around them.
-/

namespace TypeRules

open Text

/-! ## Left sides -/

/-- A character that neither encloses something nor belongs to a sign. -/
def isLeftChar (c : Char) : Bool := !(['"', '(', ')', '<', '>', '=', '@'].contains c)

theorem isLeftChar_of_class {p : Char → Bool}
    (h : (['"', '(', ')', '<', '>', '=', '@'].any p) = false) {c : Char} (hc : p c = true) :
    isLeftChar c = true := by
  rw [isLeftChar, Bool.not_eq_true', Bool.eq_false_iff, ne_eq, List.contains_iff_mem]
  intro hmem
  exact Bool.eq_false_iff.1 h (List.any_eq_true.2 ⟨c, hmem, hc⟩)

/-- A text for the left side of a rule: it is not blank, and neither a quote, a bracket, a character
of a sign nor the word of an operator is in it. -/
structure LeftText (cs : List Char) : Prop where
  not_blanks : ¬ Blanks cs
  isLeftChar : ∀ c ∈ cs, isLeftChar c = true
  -- The word needs a blank behind it, and the operator of the rule gives one to the text.
  no_word : ¬ Operator.implementWord <:+: cs ++ [' ']

instance (cs : List Char) : Decidable (LeftText cs) :=
  decidable_of_iff (¬ Blanks cs ∧ cs.all TypeRules.isLeftChar = true ∧
      ¬ Operator.implementWord <:+: cs ++ [' '])
    ⟨fun ⟨hblanks, hchars, hword⟩ => ⟨hblanks, List.all_eq_true.1 hchars, hword⟩,
      fun h => ⟨h.not_blanks, List.all_eq_true.2 h.isLeftChar, h.no_word⟩⟩

namespace Operator

/-- A text in which nothing is enclosed and no operator begins. -/
structure Free (cs : List Char) : Prop where
  isQuiet : ∀ c ∈ cs, isQuiet c = true
  not_begins : ∀ r, r <:+ cs → begins r = false

/-- Behind such a text the first operator is the one that follows it. -/
theorem Free.cut?_append_sign {cs : List Char} (h : Free cs) (operator : Operator)
    (back : List Char) : cut? (cs ++ (operator.sign ++ back)) = some (cs, operator, back) := by
  have hnone : cut? cs = none := by
    have hcut : cutTop? (fun cs => (atStart? cs).isSome) cs = none :=
      cutTopFrom?_eq_none_of_suffixes (fun r hr _ => h.not_begins r hr) _
    rw [cut?, hcut]
    rfl
  exact cut?_append_sign_of_none hnone (balanced_of_isQuiet h.isQuiet).after_top operator back

/-- A sign begins with a character that is not in the text, and the word is not in it either. -/
theorem free_of_isLeftChar {cs : List Char} (hchars : ∀ c ∈ cs, isLeftChar c = true)
    (hword : ¬ implementWord <:+: cs) : Free cs := by
  refine ⟨fun c hc => isQuiet_of_class (by decide) (hchars c hc), fun r hr => ?_⟩
  refine Bool.eq_false_iff.2 fun hbegins => ?_
  obtain ⟨word, hmem, hfront⟩ := begins_iff.1 hbegins
  simp only [words, List.mem_cons, List.not_mem_nil, or_false] at hmem
  rcases hmem with rfl | rfl | rfl | rfl
  · exact absurd (hchars '=' (hr.subset (hfront.subset (by decide)))) (by decide)
  · exact absurd (hchars '=' (hr.subset (hfront.subset (by decide)))) (by decide)
  · exact absurd (hchars '@' (hr.subset (hfront.subset (by decide)))) (by decide)
  · exact hword (hfront.isInfix.trans hr.isInfix)

end Operator

theorem LeftText.free {cs : List Char} (h : LeftText cs) :
    Operator.Free (trimStart (cs ++ [' '])) := by
  have hsuffix := trimStart_isSuffix (cs ++ [' '])
  refine Operator.free_of_isLeftChar (fun c hc => ?_) fun hword =>
    h.no_word (hword.trans hsuffix.isInfix)
  rcases List.mem_append.1 (hsuffix.subset hc) with hc | hc
  · exact h.isLeftChar c hc
  · rw [List.mem_singleton.1 hc]
    decide

/-! ## Right sides -/

/-- A text of a target, where the marker of arrays follows its type directly. -/
structure Target.WrittenAs (t : Target) (cs : List Char) : Prop where
  read : Target.read cs = .ok t
  marker : ∀ base ∈ withoutSuffix? arrayMarker (trim cs), Trimmed base

instance (t : Target) (cs : List Char) : Decidable (t.WrittenAs cs) :=
  decidable_of_iff (Target.read cs = .ok t ∧
      ∀ base ∈ withoutSuffix? arrayMarker (trim cs), Trimmed base)
    ⟨fun ⟨hread, hmarker⟩ => ⟨hread, hmarker⟩, fun h => ⟨h.read, h.marker⟩⟩

namespace Phrase

theorem startsTarget_blanks_angle {b : Char} {m : List Char} (hm : Blanks (b :: m))
    (cs : List Char) : startsTarget (b :: (m ++ '<' :: cs)) = false := by
  have htrim : trimStart (b :: (m ++ '<' :: cs)) = '<' :: cs := by
    rw [← List.cons_append, trimStart_blanks_append hm]
    rfl
  simp [startsTarget, htrim]

/-- No target begins in front of type arguments. -/
theorem cutTop?_blanks_angle {m cs : List Char} (hm : Blanks m)
    (h : cutTop? startsTarget ('<' :: cs) = none) :
    cutTop? startsTarget (m ++ '<' :: cs) = none := by
  induction m with
  | nil => exact h
  | cons b m ih =>
    have hb : isQuiet b = true := isQuiet_of_isBlank (hm b List.mem_cons_self)
    have hstep : Nesting.top.step b = Nesting.top := step_of_isQuiet hb 0
    have hrest : cutTopFrom? startsTarget Nesting.top (m ++ '<' :: cs) = none :=
      ih fun c hc => hm c (List.mem_cons_of_mem b hc)
    rw [List.cons_append, cutTop?, cutTopFrom?, startsTarget_blanks_angle hm, hstep, hrest]
    simp

/-- A type has no blank that separates it from a target. -/
theorem cutTop?_of_derives {cs : List Char} {t : TypeRef} (hcs : Trimmed cs)
    (h : TypeRef.Derives cs t) : cutTop? startsTarget cs = none := by
  by_cases hargs : t.args = []
  · have hname := h.typeName_of_args_eq_nil hargs hcs
    exact cutTop?_eq_none isBlank_of_startsTarget fun c hc =>
      isBlank_of_isNameChar (hname.isNameChar c (Nesting.mem_of_mem_exposed hc))
  cases h with
  | name => exact absurd rfl hargs
  | @generic l name m r args hl hname hm _ hderives hr =>
    have hcomma : Balanced [','] := balanced_of_isQuiet (List.all_eq_true.1 rfl)
    have hinner : Balanced (joinWith [','] (args.map Prod.fst)) :=
      hcomma.joinWith fun piece hpiece => by
        obtain ⟨arg, harg, rfl⟩ := List.mem_map.1 hpiece
        exact (hderives arg harg).balanced.1
    have htrim : trim (l ++ name ++ m ++ '<' :: (joinWith [','] (args.map Prod.fst) ++ '>' :: r)) =
        name ++ (m ++ '<' :: (joinWith [','] (args.map Prod.fst) ++ ['>'])) := by
      have hsplit : l ++ name ++ m ++ '<' :: (joinWith [','] (args.map Prod.fst) ++ '>' :: r) =
          l ++ (name ++ (m ++ '<' :: joinWith [','] (args.map Prod.fst) ++ ['>'])) ++ r := by
        simp
      rw [hsplit, trim_blanks_around hl hr (TypeRef.trimmed_generic hname _)]
      simp
    have hangles : cutTop? startsTarget
        ('<' :: (joinWith [','] (args.map Prod.fst) ++ ['>'])) = none :=
      cutTop?_eq_none isBlank_of_startsTarget (by simp [Nesting.top, exposed_angles hinner 0])
    have hbehind : cutTopFrom? startsTarget Nesting.top
        (m ++ '<' :: (joinWith [','] (args.map Prod.fst) ++ ['>'])) = none :=
      cutTop?_blanks_angle hm hangles
    have hscan := cutTopFrom?_append isBlank_of_startsTarget (n := Nesting.top)
      (fun c hc => isBlank_of_isNameChar (hname.isNameChar c (Nesting.mem_of_mem_exposed hc)))
      (m ++ '<' :: (joinWith [','] (args.map Prod.fst) ++ ['>']))
    have hbalanced : Balanced name :=
      balanced_of_isQuiet fun c hc => isQuiet_of_isNameChar (hname.isNameChar c hc)
    rw [hbalanced.after_top, hbehind] at hscan
    rw [← trim_eq_self hcs, htrim]
    exact hscan

end Phrase

namespace Target

theorem not_blanks_of_read {cs : List Char} {t : Target} (h : read cs = .ok t) : ¬ Blanks cs := by
  intro hblanks
  have htype := (type_of_read h).1
  rw [trim_eq_nil_iff.2 hblanks] at htype
  exact (TypeRef.derives_of_read htype).not_blanks blanks_nil

namespace WrittenAs

variable {cs : List Char} {t : Target}

theorem not_blanks (h : WrittenAs t cs) : ¬ Blanks cs := not_blanks_of_read h.read

theorem cutAnnotation_trim (h : WrittenAs t cs) :
    Phrase.cutAnnotation (trim cs) = (none, trim cs) := by
  obtain ⟨htype, harray⟩ := type_of_read h.read
  have hderives := TypeRef.derives_of_read htype
  cases hmarker : withoutSuffix? arrayMarker (trim cs) with
  | none =>
    rw [hmarker] at hderives
    rw [Phrase.cutAnnotation, Phrase.cutTop?_of_derives (trimmed_trim cs) hderives]
  | some base =>
    rw [hmarker] at hderives harray
    have hconsistent := consistent_of_read h.read
    have hargs := (hconsistent.primitive.1 (hconsistent.array harray)).1
    have hname := hderives.typeName_of_args_eq_nil hargs (h.marker base hmarker)
    refine Phrase.cutAnnotation_eq_none fun c hc => ?_
    have hmem := Nesting.mem_of_mem_exposed hc
    rw [eq_of_withoutSuffix? hmarker, List.mem_append] at hmem
    rcases hmem with hmem | hmem
    · exact isBlank_of_isNameChar (hname.isNameChar c hmem)
    · exact isBlank_of_mem_arrayMarker c hmem

theorem readSides (h : WrittenAs t cs) (source : Source) :
    Phrase.readSides source .map (trim cs) = .ok (.map source none t) := by
  simp only [Phrase.readSides, h.cutAnnotation_trim, Target.read_trim, h.read]
  rfl

end WrittenAs

end Target

/-! ## Main results -/

namespace Phrase

/-- What is in front of an operator and what is behind it are read on their own. -/
theorem readText_append_sign {left right : List Char} (hfree : Operator.Free (trimStart left))
    (hleft : ¬ Blanks left) (hright : ¬ Blanks right) {operator : Operator} {text : String}
    (htext : text.toList = left ++ (operator.sign ++ right)) :
    readText text = (readSides (Source.readRule left) operator (trim right)).mapError
      (.unreadable text) := by
  obtain ⟨b, r, hb, hr, hsplit⟩ := exists_blanks_around_trim right
  have htrim : trim text.toList = trimStart left ++ (operator.sign ++ (b ++ trim right)) := by
    have hsides : text.toList = left ++ (operator.sign ++ (b ++ trim right)) ++ r := by
      rw [htext]
      conv_lhs => rw [hsplit]
      simp
    have htrimmed : Trimmed (operator.sign ++ (b ++ trim right)) := by
      have hsign : Trimmed operator.sign ∧ operator.sign ≠ [] := by
        cases operator <;> exact ⟨by decide, by decide⟩
      have happend := trimmed_append hsign.1 hsign.2 (trimmed_trim right) (trim_ne_nil hright) b
      rwa [List.append_assoc] at happend
    have hne : operator.sign ++ (b ++ trim right) ≠ [] := by simp [trim_ne_nil hright]
    rw [hsides, trim_append_blanks hr, trim_append_of_trimmed htrimmed hne]
  have hcut := hfree.cut?_append_sign operator (b ++ trim right)
  rw [← htrim] at hcut
  have hback : trim (b ++ trim right) = trim right := by rw [trim_blanks_append hb, trim_trim]
  have hread := readText_of_cut? hcut (by rw [trim_trimStart]; exact trim_ne_nil hleft)
    (by rw [hback]; exact trim_ne_nil hright)
  rwa [trim_trimStart, hback, Source.readRule_trim] at hread

theorem readText_leftText {source right : List Char} (hsource : LeftText source)
    (hright : ¬ Blanks right) {operator : Operator} {text : String}
    (htext : text.toList = source ++ ' ' :: (operator.sign ++ ' ' :: right)) :
    readText text = (readSides (Source.readRule source) operator (trim right)).mapError
      (.unreadable text) := by
  have hblank : Source.readRule (source ++ [' ']) = Source.readRule source := by
    rw [← Source.readRule_trim, trim_append_blanks blanks_space, Source.readRule_trim]
  have hbehind : trim (' ' :: right) = trim right := trim_blanks_append blanks_space right
  have htext' : text.toList = source ++ [' '] ++ (operator.sign ++ ' ' :: right) := by
    simpa using htext
  have hread := readText_append_sign hsource.free
    (fun h => hsource.not_blanks fun c hc => h c (List.mem_append_left _ hc))
    (fun h => hright fun c hc => h c (List.mem_cons_of_mem _ hc)) htext'
  rwa [hblank, hbehind] at hread

/-- A source and a target with the sign of mappings between them. -/
theorem readText_map {source target : String} (hsource : LeftText source.toList) {t : Target}
    (htarget : t.WrittenAs target.toList) :
    readText (source ++ " => " ++ target) =
      .ok (map (Source.readRule source.toList) none t) := by
  have htext : (source ++ " => " ++ target).toList =
      source.toList ++ ' ' :: (Operator.map.sign ++ ' ' :: target.toList) := by
    simp [Operator.sign]
  rw [readText_leftText hsource htarget.not_blanks htext, htarget.readSides]
  rfl

/-- A source and an annotation with the sign of annotations between them. -/
theorem readText_annotate {source annotation : String} (hsource : LeftText source.toList)
    {a : Annotation} (ha : Annotation.read annotation.toList = .ok a) :
    readText (source ++ " @ " ++ annotation) =
      .ok (annotate (Source.readRule source.toList) a) := by
  have htext : (source ++ " @ " ++ annotation).toList =
      source.toList ++ ' ' :: (Operator.annotate.sign ++ ' ' :: annotation.toList) := by
    simp [Operator.sign]
  have hblanks := Annotation.not_blanks_of_read ha
  rw [readText_leftText hsource hblanks htext]
  simp only [readSides, Annotation.read_trim, ha]
  rfl

end Phrase

end TypeRules
