import TypeRules.Document.Rules
import TypeRules.Proofs.Document.Entries
import TypeRules.Proofs.Matcher
import TypeRules.Proofs.Phrase.Spelled

/-! # Formats in rules and in queries

A rule has its source from the text in front of its operator, a query its type from a text of the
same form.  Both are cut into a name and a format, but not by the same function: in rules a slash
makes the whole text a name.

* `Source.read_eq_readRule_iff` — the two cuts differ where a text has a slash and a colon.
* `Source.colon_not_mem_name_read` — the name that a query asks for never has a colon in it.
* `accepts_withType_iff` — a rule applies to the text of its own source unless the two cuts differ,
  and then it applies to no text at all.
-/

namespace TypeRules

open Text

/-! ## Two cuts -/

namespace Source

theorem colon_not_mem_name_read (cs : List Char) : ':' ∉ (read cs).name.toList := by
  intro hmem
  rw [read] at hmem
  split at hmem
  · next name format hcut =>
    obtain ⟨c, -, -, hname⟩ := eq_of_cutAt? hcut
    rw [String.toList_ofList] at hmem
    exact absurd (hname ':' (mem_of_mem_trim hmem)) (by decide)
  · next hcut =>
    rw [String.toList_ofList] at hmem
    exact absurd (cutAt?_eq_none_iff.1 hcut ':' (mem_of_mem_trim hmem)) (by decide)

theorem readRule_of_mem {cs : List Char} (h : '/' ∈ cs) :
    readRule cs = ⟨String.ofList (trim cs), none⟩ :=
  if_pos (List.contains_iff_mem.2 h)

theorem readRule_of_not_mem {cs : List Char} (h : '/' ∉ cs) : readRule cs = read cs :=
  if_neg fun hcontains => h (List.contains_iff_mem.1 hcontains)

theorem read_of_not_mem {cs : List Char} (h : ':' ∉ cs) :
    read cs = ⟨String.ofList (trim cs), none⟩ := by
  have hcut : cutAt? (· == ':') cs = none := by
    rw [cutAt?_eq_none_iff]
    intro c hc
    rw [beq_eq_false_iff_ne]
    rintro rfl
    exact h hc
  rw [read, hcut]

theorem readRule_of_kept {cs : List Char} (h : '/' ∈ cs ∨ ':' ∉ cs) :
    readRule cs = ⟨String.ofList (trim cs), none⟩ := by
  by_cases hslash : '/' ∈ cs
  · exact readRule_of_mem hslash
  · rw [readRule_of_not_mem hslash, read_of_not_mem (h.resolve_left hslash)]

theorem read_eq_readRule_iff (cs : List Char) :
    read cs = readRule cs ↔ ¬ ('/' ∈ cs ∧ ':' ∈ cs) := by
  constructor
  · rintro h ⟨hslash, hcolon⟩
    have hname := colon_not_mem_name_read cs
    rw [h, readRule_of_mem hslash, String.toList_ofList] at hname
    exact hname (mem_trim hcolon (by decide))
  · intro h
    by_cases hslash : '/' ∈ cs
    · rw [readRule_of_mem hslash, read_of_not_mem fun hcolon => h ⟨hslash, hcolon⟩]
    · rw [readRule_of_not_mem hslash]

end Source

/-! ## Rules and queries -/

theorem Source.eq_of_fields {s t : Source} (hname : s.name = t.name)
    (hformat : s.format = t.format) : s = t := by
  cases s
  cases t
  cases hname
  cases hformat
  rfl

namespace Query

/-- A query for a primitive type is one for the rules whose source it is. -/
theorem acceptsType_withType_iff (text : String) {r : TypeRule} {source : Source}
    (hname : r.sourceName = some source.name) (hformat : r.sourceFormat = source.format) :
    (empty.withType text).withPrimitive.acceptsType r = true ↔
      Source.read text.toList = source := by
  rw [TypeRule.acceptsType_iff]
  constructor
  · rintro (⟨_, -, hfact, -⟩ | ⟨name, hsource, hfact, hrest⟩)
    · cases hfact
    · rw [hname] at hsource
      rw [hformat] at hrest
      exact Source.eq_of_fields (Option.some.inj (hfact.trans hsource.symm)) hrest.symm
  · rintro rfl
    exact .inr ⟨_, hname, rfl, hformat⟩

theorem acceptsAnnotation_withType_iff (text : String) (r : AnnotationRule) :
    acceptsAnnotation (empty.withType text) r = true ↔ Source.read text.toList = r.source := by
  have haccepts : acceptsAnnotation (empty.withType text) r =
      ((Source.read text.toList).name == r.source.name &&
        r.source.format == (Source.read text.toList).format) := by
    simp [withType, acceptsAnnotation, empty]
  rw [haccepts, Bool.and_eq_true, beq_iff_eq, beq_iff_eq]
  constructor
  · rintro ⟨hname, hformat⟩
    exact Source.eq_of_fields hname hformat.symm
  · rintro h
    rw [h]
    exact ⟨rfl, rfl⟩

variable {q : Query} {name : String}

/-- A source with a colon in its name is no type that a query can ask for. -/
theorem acceptsType_eq_false_of_colon (hq : q.name = none) (hcolon : ':' ∈ name.toList)
    (text : String) {r : TypeRule} (hname : r.sourceName = some name) :
    (q.withType text).acceptsType r = false := by
  refine Bool.eq_false_iff.2 fun haccepts => ?_
  have hread := Source.colon_not_mem_name_read text.toList
  rcases (TypeRule.acceptsType_iff _ r).1 haccepts with ⟨_, -, hfact, -⟩ | h
  · have hnone : (none : Option String) = some _ := hq.symm.trans hfact
    cases hnone
  · split at h
    · obtain ⟨_, hsource, hfact, -⟩ := h
      rw [hname] at hsource
      rw [Option.some.inj (hfact.trans hsource.symm)] at hread
      exact hread hcolon
    · rw [hname] at h
      rw [Option.some.inj h.2] at hcolon
      exact absurd hcolon (by decide)

theorem acceptsAnnotation_eq_false_of_colon (hq : q.name = none) (text : String)
    {r : AnnotationRule} (hcolon : ':' ∈ r.source.name.toList) :
    acceptsAnnotation (q.withType text) r = false := by
  have htype : (Source.read text.toList).name ≠ r.source.name := by
    intro heq
    exact Source.colon_not_mem_name_read text.toList (heq ▸ hcolon)
  have hobject : r.source.name ≠ objectSource := by
    intro heq
    rw [heq] at hcolon
    exact absurd hcolon (by decide)
  simp [withType, acceptsAnnotation, hq, htype, hobject]

end Query

/-! ## Main result -/

/-- A rule about a type applies to the text of its source as a type, unless there is a slash as
well as a colon in this text.  Then it applies to no type whatever. -/
theorem accepts_withType_iff {source target annotation : String}
    (hsource : LeftText source.toList) {t : Target} (ht : t.WrittenAs target.toList)
    {a : Annotation} (ha : Annotation.read annotation.toList = .ok a) :
    ∃ rule mark, Entry.typeRule ⟨source ++ " => " ++ target, []⟩ = .ok rule ∧
      Entry.typeRule ⟨source ++ " @ " ++ annotation, []⟩ = .ok mark ∧
      (Matcher.type.accepts (Query.empty.withType source).withPrimitive rule = true ↔
        ¬ ('/' ∈ source.toList ∧ ':' ∈ source.toList)) ∧
      (Matcher.annotate.accepts (Query.empty.withType source) mark = true ↔
        ¬ ('/' ∈ source.toList ∧ ':' ∈ source.toList)) ∧
      ('/' ∈ source.toList → ':' ∈ source.toList → ∀ (q : Query) (text : String), q.name = none →
        Matcher.type.accepts (q.withType text) rule = false ∧
          Matcher.annotate.accepts (q.withType text) mark = false) := by
  obtain ⟨r, hrule, hname, hformat⟩ : ∃ r : TypeRule,
      Entry.typeRule ⟨source ++ " => " ++ target, []⟩ = .ok (.type r) ∧
        r.sourceName = some (Source.readRule source.toList).name ∧
        r.sourceFormat = (Source.readRule source.toList).format :=
    ⟨_, bind_eq_ok_iff.2 ⟨_, Phrase.readText_map hsource ht,
      bind_eq_ok_iff.2 ⟨_, bind_eq_ok_iff.2 ⟨_, t.type.applyTo_nil, rfl⟩, rfl⟩⟩, rfl, rfl⟩
  have hmark : Entry.typeRule ⟨source ++ " @ " ++ annotation, []⟩ =
      .ok (.annotate ⟨Source.readRule source.toList, a⟩) :=
    bind_eq_ok_iff.2 ⟨_, Phrase.readText_annotate hsource ha, rfl⟩
  refine ⟨_, _, hrule, hmark, ?_, ?_, fun hslash hcolon q text hq => ?_⟩
  · rw [← Source.read_eq_readRule_iff]
    exact Query.acceptsType_withType_iff source hname hformat
  · rw [← Source.read_eq_readRule_iff]
    exact Query.acceptsAnnotation_withType_iff source _
  · have hmem : ':' ∈ (Source.readRule source.toList).name.toList := by
      rw [Source.readRule_of_mem hslash, String.toList_ofList]
      exact mem_trim hcolon (by decide)
    exact ⟨Query.acceptsType_eq_false_of_colon hq hmem text hname,
      Query.acceptsAnnotation_eq_false_of_colon hq text hmem⟩

/-- A source with blanks, two colons and no slash, and one that is a content type with a
parameter; in front of a target with blanks at every place and of an annotation with a literal. -/
theorem accepts_withType_blanks :
    (∃ rule,
      Entry.typeRule ⟨" string : a : b " ++ " => " ++ " Map < A , List<?> > ", []⟩ = .ok rule ∧
      Matcher.type.accepts (Query.empty.withType " string : a : b ").withPrimitive rule = true) ∧
    ∃ mark, Entry.typeRule ⟨"a/b; c:d" ++ " @ " ++ "io.A( x = \"(:/\" )", []⟩ = .ok mark ∧
      Matcher.annotate.accepts (Query.empty.withType "a/b; c:d") mark = false := by
  have ht : Target.WrittenAs ⟨.mk "Map" [.ofName "A", .mk "List" [.ofName "?"]], false, false⟩
      " Map < A , List<?> > ".toList := by decide +kernel
  have ha : Annotation.read "io.A( x = \"(:/\" )".toList =
      .ok ⟨"io.A", [("x", .simple "\"(:/\"")]⟩ := by decide +kernel
  have hblanks : LeftText " string : a : b ".toList := by decide +kernel
  have hslash : LeftText "a/b; c:d".toList := by decide +kernel
  obtain ⟨rule, -, hrule, -, htype, -⟩ := accepts_withType_iff hblanks ht ha
  obtain ⟨-, mark, -, hmark, -, hannotate, -⟩ := accepts_withType_iff hslash ht ha
  refine ⟨⟨rule, hrule, htype.2 (by decide)⟩, mark, hmark, ?_⟩
  exact Bool.eq_false_iff.2 fun haccepts => hannotate.1 haccepts (by decide)

/-- With a slash in its format, a rule does not apply to the text of its source. -/
theorem not_accepts_withType_slash :
    let rule : Rule := .type ⟨some "string:a/b", none, .ofName "io.oap.Foo", false, false⟩
    let q := (Query.empty.withType "string:a/b").withPrimitive
    LeftText "string:a/b".toList ∧ Entry.typeRule ⟨"string:a/b => io.oap.Foo", []⟩ = .ok rule ∧
      (q.type = some "string" ∧ q.format = some "a/b") ∧ Matcher.type.accepts q rule = false := by
  intro rule q
  exact ⟨by decide +kernel, by decide +kernel, by decide +kernel, by decide +kernel⟩

end TypeRules
