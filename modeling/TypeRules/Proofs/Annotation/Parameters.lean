import TypeRules.Proofs.Document.Levels
import TypeRules.Proofs.Lookup.Record
import TypeRules.Proofs.Phrase.Reading
import TypeRules.Proofs.Rule.Names
import TypeRules.Proofs.Text.Nesting

/-! # Parameters of annotations that are handed out

Lookups put the base package into the names of annotations, but leave their parameters as they
were written.

* `ParameterValue.Mentions` — a phrase is in the text of a value or in its import.
* `ParameterValue.mentions_read_iff` — reading a text as a value neither brings the placeholder in
  nor takes it away, although it moves a part of the text into the import.
* `Annotation.WrittenIn` relates parameters with the rule texts of a document.
* `parameters_writtenIn` is the statement about lookups.
-/

namespace TypeRules

open Text

/-! ## Values -/

namespace ParameterValue

def Mentions (v : ParameterValue) (phrase : List Char) : Prop :=
  phrase <:+: v.text.toList ∨ ∃ path ∈ v.imported, phrase <:+: path.toList

/-- The placeholder has no dot, so it ends before the suffix of class references. -/
theorem placeholder_isInfix_append_class {path : List Char} :
    TypeRef.placeholder.toList <:+: path ++ classSuffix ↔
      TypeRef.placeholder.toList <:+: path := by
  constructor
  · intro h
    rcases List.infix_append_iff.1 h with hpath | hsuffix | ⟨l, r, hphrase, hl, hr⟩
    · exact hpath
    · exact absurd hsuffix.length_le (by decide)
    · cases r with
      | nil =>
        rw [hphrase, List.append_nil]
        exact hl.isInfix
      | cons c r =>
        have hdot : '.' ∈ TypeRef.placeholder.toList := by
          obtain ⟨rfl, -⟩ := List.cons_prefix_cons.1 hr
          rw [hphrase]
          exact List.mem_append_right l List.mem_cons_self
        exact absurd hdot (by decide)
  · intro h
    exact h.trans (List.prefix_append path classSuffix).isInfix

theorem mentions_ofClass_iff (path : List Char) :
    (ofClass path).Mentions TypeRef.placeholder.toList ↔
      TypeRef.placeholder.toList <:+: path := by
  rw [ofClass]
  split
  · next last hcut =>
    have hlast : last <:+: path := by
      rw [append_of_cutAtLast? hcut]
      exact ((List.suffix_cons '.' last).trans (List.suffix_append _ _)).isInfix
    simp only [Mentions, text, imported, String.toList_ofList, placeholder_isInfix_append_class,
      Option.mem_some_iff, exists_eq_left']
    exact or_iff_right_of_imp fun h => h.trans hlast
  · simp [Mentions, text, imported, placeholder_isInfix_append_class]

/-- Dotted identifiers have no braces. -/
theorem brace_not_mem_joinWith {pieces : List (List Char)} {cs : List Char}
    (h : isQualified cs = true) (hpieces : pieces ⊆ splitAll '.' cs) :
    '\x7b' ∉ joinWith ['.'] pieces := by
  intro hmem
  rcases mem_joinWith hmem with hdot | ⟨piece, hpiece, hbrace⟩
  · exact absurd hdot (by decide)
  · have hdotted := List.all_eq_true.1 (Bool.and_eq_true_iff.1 h).2 piece (hpieces hpiece)
    cases piece with
    | nil => cases hbrace
    | cons c rest =>
      obtain ⟨hstart, hnext⟩ := Bool.and_eq_true_iff.1 hdotted
      cases hbrace with
      | head => exact absurd hstart (by decide)
      | tail _ hbrace => exact absurd (List.all_eq_true.1 hnext _ hbrace) (by decide +kernel)

theorem not_placeholder_isInfix {cs : List Char} (h : '\x7b' ∉ cs) :
    ¬ TypeRef.placeholder.toList <:+: cs := by
  intro hinside
  exact h (hinside.subset (by decide))

theorem not_mentions_ofQualified {cs : List Char} (h : isQualified cs = true) :
    ¬ (ofQualified cs).Mentions TypeRef.placeholder.toList := by
  have hcs := brace_not_mem_joinWith h (List.Subset.refl (splitAll '.' cs))
  rw [joinWith_splitAll] at hcs
  rw [ofQualified]
  split
  · next type rest _ hback =>
    have hrest : type :: rest ⊆ splitAll '.' cs := hback ▸ List.dropWhile_subset _
    have htype : type ∈ splitAll '.' cs := hrest List.mem_cons_self
    have hfront : (splitAll '.' cs).takeWhile (fun segment => !isTypeSegment segment) ++ [type] ⊆
        splitAll '.' cs :=
      List.append_subset.2 ⟨List.takeWhile_subset _, List.cons_subset.2 ⟨htype, List.nil_subset _⟩⟩
    simp only [Mentions, text, imported, String.toList_ofList, Option.mem_some_iff,
      exists_eq_left', not_or]
    exact ⟨not_placeholder_isInfix (brace_not_mem_joinWith h hrest),
      not_placeholder_isInfix (brace_not_mem_joinWith h hfront)⟩
  · simpa [Mentions, text, imported] using not_placeholder_isInfix hcs

theorem mentions_read_iff (cs : List Char) :
    (read cs).Mentions TypeRef.placeholder.toList ↔ TypeRef.placeholder.toList <:+: trim cs := by
  rw [read]
  split
  · simp [Mentions, text, imported]
  · split
    · next path hpath =>
      rw [mentions_ofClass_iff, eq_of_withoutSuffix? hpath, placeholder_isInfix_append_class]
    · split
      · next hqualified =>
        have hcs := brace_not_mem_joinWith hqualified (List.Subset.refl _)
        rw [joinWith_splitAll] at hcs
        exact iff_of_false (not_mentions_ofQualified hqualified) (not_placeholder_isInfix hcs)
      · simp [Mentions, text, imported]

/-- The value is read from a piece of a text, and mentions the placeholder if the piece does. -/
def StandsIn (v : ParameterValue) (cs : List Char) : Prop :=
  ∃ piece, piece <:+: cs ∧ v = read piece ∧
    (v.Mentions TypeRef.placeholder.toList ↔ TypeRef.placeholder.toList <:+: piece)

theorem StandsIn.mono {v : ParameterValue} {cs ds : List Char} (h : v.StandsIn cs)
    (hcs : cs <:+: ds) : v.StandsIn ds := by
  obtain ⟨piece, hpiece, hread, hmentions⟩ := h
  exact ⟨piece, hpiece.trans hcs, hread, hmentions⟩

theorem standsIn_read_trim (cs : List Char) : (read (trim cs)).StandsIn cs := by
  refine ⟨trim cs, trim_isInfix cs, rfl, ?_⟩
  rw [mentions_read_iff, trim_trim]

end ParameterValue

/-! ## Annotations -/

namespace Annotation

theorem standsIn_of_readParameter {cs : List Char} {p : String × ParameterValue}
    (h : readParameter cs = .ok p) : p.2.StandsIn cs := by
  cases hcut : cutTopAt? '=' cs with
  | none =>
    simp only [readParameter, hcut] at h
    split at h
    · cases h
    · cases h
      exact ParameterValue.standsIn_read_trim cs
  | some sides =>
    simp only [readParameter, hcut] at h
    split at h
    · cases h
    · cases h
      have hvalue : sides.2 <:+: cs := by
        rw [append_of_cutTopAt? hcut]
        exact ((List.suffix_cons '=' sides.2).trans (List.suffix_append _ _)).isInfix
      exact (ParameterValue.standsIn_read_trim sides.2).mono hvalue

theorem mem_setIn {key : String} {value : ParameterValue}
    {parameters : List (String × ParameterValue)} {p : String × ParameterValue}
    (h : p ∈ setIn key value parameters) : p = (key, value) ∨ p ∈ parameters := by
  induction parameters with
  | nil => exact .inl (List.mem_singleton.1 h)
  | cons other parameters ih =>
    rw [setIn] at h
    split at h
    · cases h with
      | head => exact .inl rfl
      | tail _ h => exact .inr (List.mem_cons_of_mem _ h)
    · cases h with
      | head => exact .inr List.mem_cons_self
      | tail _ h => exact (ih h).imp_right (List.mem_cons_of_mem _)

/-- Every parameter is there from the beginning or is read from one of the pieces. -/
theorem standsIn_of_readParameters {a b : Annotation} {pieces : List (List Char)}
    (h : readParameters a pieces = .ok b) {p : String × ParameterValue} (hp : p ∈ b.parameters) :
    p ∈ a.parameters ∨ ∃ piece ∈ pieces, p.2.StandsIn piece := by
  induction pieces generalizing a with
  | nil =>
    cases h
    exact .inl hp
  | cons piece pieces ih =>
    obtain ⟨⟨key, value⟩, hread, h⟩ := bind_eq_ok_iff.1 h
    rcases ih h with hset | ⟨other, hother, hstands⟩
    · rcases mem_setIn hset with rfl | hmem
      · exact .inr ⟨piece, List.mem_cons_self, standsIn_of_readParameter hread⟩
      · exact .inl hmem
    · exact .inr ⟨other, List.mem_cons_of_mem _ hother, hstands⟩

theorem standsIn_of_read {cs : List Char} {a : Annotation} (h : read cs = .ok a)
    {p : String × ParameterValue} (hp : p ∈ a.parameters) : p.2.StandsIn cs := by
  rw [read] at h
  split at h
  · obtain ⟨name, -, rfl⟩ := map_eq_ok_iff.1 h
    cases hp
  · next name rest hopen =>
    split at h
    · cases h
    · next inner hclose =>
      obtain ⟨typeName, -, h⟩ := bind_eq_ok_iff.1 h
      have hinner : inner <:+: cs := by
        obtain ⟨c, -, htrim, -⟩ := eq_of_cutAt? hopen
        have hrest : rest <:+: trim cs := by
          rw [htrim]
          exact ((List.suffix_cons c rest).trans (List.suffix_append name _)).isInfix
        have hback : inner <:+: trimEnd rest := by
          rw [eq_of_withoutSuffix? hclose]
          exact (List.prefix_append inner _).isInfix
        exact hback.trans ((trimEnd_isPrefix rest).isInfix.trans (hrest.trans (trim_isInfix cs)))
      split at h
      · cases h
        cases hp
      · rcases standsIn_of_readParameters h hp with hnone | ⟨piece, hpiece, hstands⟩
        · cases hnone
        · have hpart : piece <:+: joinWith [','] (splitTop ',' inner) := isInfix_joinWith hpiece
          rw [joinWith_splitTop] at hpart
          exact hstands.mono (hpart.trans hinner)

end Annotation

/-! ## Phrases -/

theorem Phrase.standsIn_of_readText {text : String} {phrase : Phrase}
    (h : readText text = .ok phrase) {a : Annotation} (ha : a ∈ phrase.annotation?)
    {p : String × ParameterValue} (hp : p ∈ a.parameters) : p.2.StandsIn text.toList := by
  cases reads_of_readText h with
  | name _ _ _ => cases ha
  | target _ _ _ => cases ha
  | map hsides hcut hmark _ =>
    cases hmark with
    | none => cases ha
    | some hread =>
      cases ha
      have hstands := Annotation.standsIn_of_read hread hp
      exact hstands.mono ((front_isInfix hcut).trans hsides.right_isInfix)
  | annotate hsides hread =>
    cases ha
    have hstands := Annotation.standsIn_of_read hread hp
    exact hstands.mono hsides.right_isInfix
  | implement _ _ => cases ha

/-! ## Rules -/

def Rule.annotation? : Rule → Option Annotation
  | .annotate r => some r.annotation
  | .annotateName r => some r.annotation
  | .add r => r.annotation
  | _ => none

theorem Rule.MadeOf.standsIn {text : String} {generics : List String} {rule : Rule}
    (h : rule.MadeOf text generics) {a : Annotation} (ha : a ∈ rule.annotation?)
    {p : String × ParameterValue} (hp : p ∈ a.parameters) : p.2.StandsIn text.toList := by
  cases h with
  | annotate hphrase => exact Phrase.standsIn_of_readText hphrase ha hp
  | annotateName hphrase => exact Phrase.standsIn_of_readText hphrase ha hp
  | add hphrase _ => exact Phrase.standsIn_of_readText hphrase ha hp
  | _ => cases ha

theorem Rule.annotation?_settle (base : String) (rule : Rule) :
    (rule.settle base).annotation? = rule.annotation?.map fun a => a.settle base := by
  cases rule <;> rfl

/-! ## Main result -/

/-- All parameters stand in the rule texts of a document. -/
def Annotation.WrittenIn (a : Annotation) (d : Document) : Prop :=
  ∀ p ∈ a.parameters, ∃ item ∈ d.map.items, p.2.StandsIn item.text.toList

theorem Block.Converts.writtenIn {d : Document} {r : Repository} (h : d.map.Converts r)
    {l : Level} (hl : l ∈ r.levels) {b : Bucket} {rule : Rule} (hrule : rule ∈ l.bucket b)
    {a : Annotation} (ha : a ∈ rule.annotation?) : a.WrittenIn d := by
  intro p hp
  obtain ⟨item, hitem, hmade⟩ := h.exists_item hl hrule
  exact ⟨item, hitem, hmade.madeOf.standsIn ha hp⟩

theorem RuleLookup.Serves.writtenIn_of_found {l : RuleLookup} {t : Topic} (hserves : l.Serves t)
    {d : Document} {r : Repository} (h : d.map.Converts r) {q : Query}
    {entries : List (Scope × Level)} (hentries : entries ⊆ r.chain q) {base : String} {rule : Rule}
    (hrule : rule ∈ ((t.rulesOf entries).filter (t.accepts q)).map (Rule.settle base))
    {a : Annotation} (ha : a ∈ rule.annotation?) : a.WrittenIn d := by
  obtain ⟨stored, hstored, rfl⟩ := List.mem_map.1 hrule
  obtain ⟨entry, hentry, hstored⟩ := List.mem_flatMap.1 (List.mem_of_mem_filter hstored)
  rw [← hserves.bucket] at hstored
  rw [Rule.annotation?_settle] at ha
  obtain ⟨b, hb, rfl⟩ := Option.map_eq_some_iff.1 ha
  -- Only the name of the annotation is another one now.
  have hwritten := h.writtenIn (Repository.mem_levels_of_mem_chain (hentries hentry)) hstored hb
  exact hwritten

theorem Repository.exists_of_mem_extension {r : Repository} {name : String}
    {rule : NameAnnotationRule} (h : rule ∈ r.extension name) :
    ∃ own ∈ r.extensions, rule ∈ own.2 := by
  rw [extension] at h
  cases hfind : (r.extensions.find? fun entry => entry.1 == name).map Prod.snd with
  | none =>
    rw [hfind] at h
    cases h
  | some rules =>
    rw [hfind] at h
    obtain ⟨own, hown, rfl⟩ := mem_of_map_find? hfind
    exact ⟨own, hown, h⟩

/-- Every parameter of every annotation that is handed out is read from a piece of a rule text, and
has the placeholder exactly if this piece has it, whatever the base package is. -/
theorem parameters_writtenIn {d : Document} {r : Repository} (h : d.map.repository = .ok r)
    (o : Options) (q : Query) :
    let c : Config := ⟨r, o⟩
    (∀ l : StackedLookup, ∀ rule ∈ (c.stacked l q).value, ∀ a ∈ rule.annotation?,
        a.WrittenIn d) ∧
      (∀ l : NearestLookup, ∀ rule ∈ (c.nearest l q).value, ∀ a ∈ rule.annotation?,
        a.WrittenIn d) ∧
      ∀ name values, ∀ rule ∈ (c.extension name values).value, rule.annotation.WrittenIn d := by
  intro c
  have hconverts := Block.repository_eq_ok_iff.1 h
  refine ⟨fun l rule hrule a ha => ?_, fun l rule hrule a ha => ?_,
    fun name values rule hrule p hp => ?_⟩
  · rw [stacked_value, ← l.topic.found_chain, ← l.topic.found_reverse,
      ← l.topic.filter_rulesOf] at hrule
    exact l.serves.writtenIn_of_found hconverts (List.reverse_subset.2 (List.Subset.refl _)) hrule
      ha
  · rw [nearest_value, ← l.topic.found_chain, ← l.topic.filter_rulesOf_visited] at hrule
    exact l.serves.writtenIn_of_found hconverts (l.topic.visited_isPrefix q _).subset hrule ha
  · rw [extension_value] at hrule
    obtain ⟨stored, hstored, rfl⟩ := List.mem_map.1 hrule
    obtain ⟨value, -, hstored⟩ := List.mem_flatMap.1 hstored
    obtain ⟨own, hown, hstored⟩ :=
      Repository.exists_of_mem_extension (List.mem_of_mem_filter hstored)
    obtain ⟨item, hitem, hmade⟩ := hconverts.exists_extension hown hstored
    have hstands : p.2.StandsIn item.text.toList := hmade.standsIn rfl hp
    exact ⟨item, hitem, hstands⟩

/-- One rule, with the placeholder in a class reference. -/
def classReference : Document :=
  { Document.empty with
    packageName := some "io.oap"
    map := .mk { Clauses.empty with
      types := [⟨"Foo @ io.A(\x7bpackage-name\x7d.Bar.class)", []⟩] } [] [] [] }

def barAnnotation : Annotation :=
  ⟨"io.A", [("", .classRef "Bar.class" (some "\x7bpackage-name\x7d.Bar"))]⟩

def classReferenceRepository : Repository :=
  { Repository.empty with
    global := { Level.empty with types := [.annotate ⟨⟨"Foo", none⟩, barAnnotation⟩] } }

/-- The value of the class reference is in the rule text, with the placeholder in its import. -/
theorem writtenIn_classReference :
    classReference.map.repository = .ok classReferenceRepository ∧
      barAnnotation.WrittenIn classReference := by
  have hread : classReference.map.repository = .ok classReferenceRepository := by decide +kernel
  have hlookups := parameters_writtenIn hread classReference.options (Query.empty.withName "Foo")
  have hfound : Rule.annotate ⟨⟨"Foo", none⟩, barAnnotation⟩ ∈ (Config.stacked
      ⟨classReferenceRepository, classReference.options⟩ .annotations
        (Query.empty.withName "Foo")).value := by decide +kernel
  exact ⟨hread, hlookups.1 .annotations _ hfound barAnnotation rfl⟩

/-- So an import is handed out that names no package, although there is a base package. -/
theorem mentions_placeholder_classReference :
    classReference.map.repository = .ok classReferenceRepository ∧
      BasePackage classReference.options.basePackage ∧
      ∃ rule ∈ (Config.stacked ⟨classReferenceRepository, classReference.options⟩ .annotations
          (Query.empty.withName "Foo")).value,
        ∃ a ∈ rule.annotation?, ∃ p ∈ a.parameters, p.2.Mentions TypeRef.placeholder.toList := by
  refine ⟨by decide +kernel, ⟨by decide, by decide, by decide⟩, ?_⟩
  refine ⟨.annotate ⟨⟨"Foo", none⟩, barAnnotation⟩, by decide +kernel, barAnnotation, rfl, ?_⟩
  exact ⟨_, List.mem_singleton_self _, .inr ⟨_, rfl, by decide⟩⟩

end TypeRules
