import TypeRules.Proofs.Annotation.Balance
import TypeRules.Proofs.Document.Levels
import TypeRules.Proofs.Rule.Format

/-! # What rules are about

The text in front of an operator must not be missing.  This is tested before the text is cut at its
colon, so that a format alone is let through, with nothing in front of it.

* `Phrase.readText_eq_missingSource_iff` — a source is found to be missing exactly if a text begins
  with an operator.
* `Phrase.Nameless` are the texts that have a format alone in front of their operator.
  `Phrase.name_eq_empty_iff` — they are the ones that are read with an empty name.
* `Rule.subject?` is the name that a rule is about.
* `subject_eq_empty_iff` is the statement about texts and about all rules of a document.
-/

namespace TypeRules

open Text

/-! ## Names of sources -/

namespace Source

theorem name_read_eq_empty_iff {cs : List Char} (hcs : Trimmed cs) (hne : cs ≠ []) :
    (read cs).name = "" ↔ cs.head? = some ':' := by
  have hcolon : isBlank ':' = false := by decide
  cases hcut : cutAt? (· == ':') cs with
  | none =>
    have hmem : ':' ∉ cs := fun hmem => by
      have := cutAt?_eq_none_iff.1 hcut ':' hmem
      cases this
    rw [read_of_not_mem hmem, trim_eq_self hcs]
    have hhead : cs.head? ≠ some ':' := fun h => hmem (List.mem_of_mem_head? h)
    simp [hne, hhead]
  | some cut =>
    obtain ⟨front, back⟩ := cut
    obtain ⟨c, hc, rfl, hfront⟩ := eq_of_cutAt? hcut
    obtain rfl : c = ':' := by simpa using hc
    have hname : (read (front ++ ':' :: back)).name = String.ofList (trim front) := by
      rw [read, hcut]
    rw [hname, String.ofList_eq_empty_iff, trim_eq_nil_iff]
    cases front with
    | nil => simp
    | cons d front =>
      have hd : isBlank d = false := hcs.1 d rfl
      have hne' : d ≠ ':' := by simpa using hfront d List.mem_cons_self
      simp [hd, hne']

theorem name_readRule_eq_empty_iff {cs : List Char} (hcs : Trimmed cs) (hne : cs ≠ []) :
    (readRule cs).name = "" ↔ cs.head? = some ':' ∧ '/' ∉ cs := by
  by_cases hslash : '/' ∈ cs
  · rw [readRule_of_mem hslash, trim_eq_self hcs]
    simp [hslash, hne]
  · rw [readRule_of_not_mem hslash, name_read_eq_empty_iff hcs hne]
    simp [hslash]

end Source

/-! ## Missing sources -/

/-- The faults of what stands behind an operator, or without one. -/
def ReadFault.IsOfPart : ReadFault → Prop
  | empty => False
  | missingSource => False
  | missingTarget => False
  | _ => True

theorem TypeRef.isOfPart_of_read {cs : List Char} {fault : ReadFault}
    (h : read cs = .error fault) : fault.IsOfPart := by
  cases refusalFault_of_read h with
  | unbalanced => trivial
  | badName n => trivial

theorem TypeRef.isOfPart_of_readName {cs : List Char} {fault : ReadFault}
    (h : readName cs = .error fault) : fault.IsOfPart := by
  obtain ⟨n, rfl⟩ := readName_eq_error h
  trivial

theorem Target.isOfPart_of_read {cs : List Char} {fault : ReadFault}
    (h : read cs = .error fault) : fault.IsOfPart := by
  rcases bind_eq_error_iff.1 h with h | ⟨type, -, h⟩
  · exact TypeRef.isOfPart_of_read h
  · dsimp only at h
    split at h
    · cases h
      trivial
    · cases h

namespace Annotation

theorem eq_emptyParameter_of_readParameter {piece : List Char} {fault : ReadFault}
    (h : readParameter piece = .error fault) : fault = .emptyParameter := by
  simp only [readParameter] at h
  split at h
  all_goals
    dsimp only at h
    split at h
    · cases h
      rfl
    · cases h

theorem isOfPart_of_readParameters {a : Annotation} {pieces : List (List Char)}
    {fault : ReadFault} (h : readParameters a pieces = .error fault) : fault.IsOfPart := by
  induction pieces generalizing a with
  | nil => cases h
  | cons piece pieces ih =>
    rcases bind_eq_error_iff.1 h with h | ⟨p, -, h⟩
    · rw [eq_emptyParameter_of_readParameter h]
      trivial
    · exact ih h

theorem isOfPart_of_read {cs : List Char} {fault : ReadFault} (h : read cs = .error fault) :
    fault.IsOfPart := by
  rw [read] at h
  split at h
  · exact TypeRef.isOfPart_of_readName (map_eq_error_iff.1 h)
  · split at h
    · cases h
      trivial
    · rcases bind_eq_error_iff.1 h with h | ⟨name, -, h⟩
      · exact TypeRef.isOfPart_of_readName h
      · split at h
        · cases h
        · exact isOfPart_of_readParameters h

end Annotation

namespace Phrase

theorem isOfPart_of_readSides {source : Source} {operator : Operator} {right : List Char}
    {fault : ReadFault} (h : readSides source operator right = .error fault) :
    fault.IsOfPart := by
  cases operator with
  | map =>
    rcases bind_eq_error_iff.1 h with h | ⟨mark, -, h⟩
    · obtain ⟨front, -, h⟩ := optionMapM_eq_error h
      exact Annotation.isOfPart_of_read h
    · rcases bind_eq_error_iff.1 h with h | ⟨t, -, h⟩
      · exact Target.isOfPart_of_read h
      · cases h
  | annotate =>
    rcases bind_eq_error_iff.1 h with h | ⟨a, -, h⟩
    · exact Annotation.isOfPart_of_read h
    · cases h
  | implement =>
    rcases bind_eq_error_iff.1 h with h | ⟨t, -, h⟩
    · exact TypeRef.isOfPart_of_read h
    · cases h

theorem isOfPart_of_readBare {cs : List Char} {fault : ReadFault}
    (h : readBare cs = .error fault) : fault.IsOfPart := by
  rw [readBare] at h
  split at h
  · exact Target.isOfPart_of_read (map_eq_error_iff.1 h)
  · cases h

end Phrase

theorem Operator.cut?_of_begins {cs : List Char} (h : begins cs = true) :
    ∃ operator right, cut? cs = some ([], operator, right) := by
  obtain ⟨⟨operator, right⟩, hstart⟩ := Option.isSome_iff_exists.1 h
  refine ⟨operator, right, ?_⟩
  cases cs with
  | nil => cases h
  | cons c cs =>
    have hexposes : Nesting.top.exposes c = true := by
      have hopener := isOpener_of_begins c cs h
      simp only [isOpener, Bool.or_eq_true, beq_iff_eq] at hopener
      rcases hopener with (rfl | rfl) | rfl <;> decide
    have hcut : cutTop? begins (c :: cs) = some ([], c :: cs) := by
      rw [cutTop?, cutTopFrom?, hexposes, h]
      rfl
    exact Option.bind_eq_some_iff.2 ⟨_, hcut, Option.bind_eq_some_iff.2 ⟨_, hstart, rfl⟩⟩

theorem Operator.begins_of_cut? {cs left right : List Char} {operator : Operator}
    (h : cut? cs = some (left, operator, right)) :
    ∃ rest, cs = left ++ rest ∧ begins rest = true := by
  obtain ⟨⟨front, rest⟩, hcut, h⟩ := Option.bind_eq_some_iff.1 h
  obtain ⟨⟨_, _⟩, -, h⟩ := Option.bind_eq_some_iff.1 h
  cases h
  obtain ⟨hsplit, -, hbegins⟩ := append_of_cutTopFrom? hcut
  exact ⟨rest, hsplit, hbegins⟩

/-- In a trimmed text there are no blanks alone in front of an operator. -/
theorem Operator.eq_nil_of_cut? {cs left right : List Char} {operator : Operator}
    (hcs : Trimmed cs) (h : cut? cs = some (left, operator, right)) (hleft : Blanks left) :
    left = [] := by
  obtain ⟨rest, rfl, -⟩ := begins_of_cut? h
  cases left with
  | nil => rfl
  | cons c left =>
    have hblank := hleft c List.mem_cons_self
    rw [hcs.1 c rfl] at hblank
    cases hblank

namespace Phrase

theorem readText_eq_missingSource_iff (text : String) :
    readText text = .error (.unreadable text .missingSource) ↔
      Operator.begins (trim text.toList) = true := by
  constructor
  · intro h
    rw [readText] at h
    split at h
    · cases h
    · split at h
      · next hcut =>
        obtain ⟨fault, hfault, heq⟩ := mapError_eq_error_iff.1 h
        obtain ⟨-, rfl⟩ := Error.unreadable.inj heq
        exact False.elim (isOfPart_of_readBare hfault)
      · next left operator right hcut =>
        split at h
        · next hleft =>
          obtain ⟨rest, hrest, hbegins⟩ := Operator.begins_of_cut? hcut
          have hnil := Operator.eq_nil_of_cut? (trimmed_trim text.toList) hcut
            (trim_eq_nil_iff.1 (List.isEmpty_iff.1 hleft))
          rwa [hrest, hnil]
        · split at h
          · cases h
          · obtain ⟨fault, hfault, heq⟩ := mapError_eq_error_iff.1 h
            obtain ⟨-, rfl⟩ := Error.unreadable.inj heq
            exact False.elim (isOfPart_of_readSides hfault)
  · intro h
    obtain ⟨operator, right, hcut⟩ := Operator.cut?_of_begins h
    have hne : trim text.toList ≠ [] := by
      intro hnil
      rw [hnil] at h
      cases h
    rw [readText]
    simp [hcut, hne]

/-! ## Texts without a name -/

/-- In front of the operator there is a format alone. -/
def Nameless (text : String) : Prop :=
  ∃ format operator right, Sides text (':' :: format) operator right ∧ '/' ∉ format

theorem exists_sides_of_source {text : String} {phrase : Phrase} (h : Reads text phrase)
    {source : Source} (hsource : phrase.source? = some source) :
    ∃ left operator right, Sides text left operator right ∧ source = Source.readRule left := by
  cases h with
  | map hsides _ _ _ =>
    cases hsource
    exact ⟨_, _, _, hsides, rfl⟩
  | annotate hsides _ =>
    cases hsource
    exact ⟨_, _, _, hsides, rfl⟩
  | implement hsides _ =>
    cases hsource
    exact ⟨_, _, _, hsides, rfl⟩
  | _ => cases hsource

theorem Sides.left_trimmed {text : String} {left right : List Char} {operator : Operator}
    (h : Sides text left operator right) : Trimmed left := by
  obtain ⟨l, r, -, rfl, -⟩ := h.cut
  exact trimmed_trim l

theorem Sides.nameless_iff {text : String} {left right : List Char} {operator : Operator}
    (h : Sides text left operator right) : Nameless text ↔ (Source.readRule left).name = "" := by
  rw [Source.name_readRule_eq_empty_iff h.left_trimmed h.left_ne_nil]
  constructor
  · rintro ⟨format, _, _, h', hslash⟩
    obtain ⟨rfl, -, -⟩ := h.unique h'
    exact ⟨rfl, by simpa using hslash⟩
  · rintro ⟨hhead, hslash⟩
    obtain ⟨format, rfl⟩ := List.head?_eq_some_iff.1 hhead
    exact ⟨format, operator, right, h, fun hmem => hslash (List.mem_cons_of_mem _ hmem)⟩

theorem name_eq_empty_iff {text : String} {phrase : Phrase} (h : readText text = .ok phrase)
    {source : Source} (hsource : phrase.source? = some source) :
    source.name = "" ↔ Nameless text := by
  obtain ⟨left, operator, right, hsides, rfl⟩ :=
    exists_sides_of_source (reads_of_readText h) hsource
  exact hsides.nameless_iff.symm

theorem exists_readSides {source : Source} {operator : Operator} {right : List Char}
    {phrase : Phrase} (h : readSides source operator right = .ok phrase) (other : Source) :
    ∃ phrase', readSides other operator right = .ok phrase' := by
  cases operator with
  | map =>
    obtain ⟨mark, hmark, h⟩ := bind_eq_ok_iff.1 h
    obtain ⟨t, ht, -⟩ := bind_eq_ok_iff.1 h
    exact ⟨_, bind_eq_ok_iff.2 ⟨mark, hmark, bind_eq_ok_iff.2 ⟨t, ht, rfl⟩⟩⟩
  | annotate =>
    obtain ⟨a, ha, -⟩ := bind_eq_ok_iff.1 h
    exact ⟨_, bind_eq_ok_iff.2 ⟨a, ha, rfl⟩⟩
  | implement =>
    obtain ⟨t, ht, -⟩ := bind_eq_ok_iff.1 h
    exact ⟨_, bind_eq_ok_iff.2 ⟨t, ht, rfl⟩⟩

/-- Whether a text is read does not depend on its source, if there is one at all. -/
theorem Sides.exists_readText {text other : String} {left left' right : List Char}
    {operator : Operator} (h : Sides text left operator right)
    (h' : Sides other left' operator right) {phrase : Phrase} (hread : readText text = .ok phrase) :
    ∃ phrase', readText other = .ok phrase' := by
  rw [h.readText_eq, mapError_eq_ok_iff] at hread
  obtain ⟨phrase', hread'⟩ := exists_readSides hread (Source.readRule left')
  exact ⟨phrase', by rw [h'.readText_eq, mapError_eq_ok_iff, hread']⟩

end Phrase

/-! ## Subjects -/

/-- The name that a rule is about. -/
def Rule.subject? : Rule → Option String
  | type rule => rule.sourceName
  | name rule => some rule.parameter
  | content rule => some rule.contentType
  | annotate rule => some rule.source.name
  | annotateName rule => some rule.name
  | interface rule => some rule.source
  | add rule => some rule.parameter
  | drop rule => some rule.parameter

theorem Target.sourceName_of_rule {t : Target} {source : Option Source} {generics : List String}
    {r : TypeRule} (h : t.rule source generics = .ok r) :
    r.sourceName = source.map Source.name := by
  obtain ⟨type, -, h⟩ := bind_eq_ok_iff.1 h
  cases h
  rfl

theorem Rule.MadeOf.subject {text : String} {generics : List String} {rule : Rule}
    (h : rule.MadeOf text generics) :
    ∃ subject, rule.subject? = some subject ∧
      (subject = "" ↔ rule.kind ≠ .drop ∧ Phrase.Nameless text) := by
  have hsource : ∀ {phrase : Phrase} {source : Source}, Phrase.readText text = .ok phrase →
      phrase.source? = some source → rule.subject? = some source.name → rule.kind ≠ .drop →
      ∃ subject, rule.subject? = some subject ∧
        (subject = "" ↔ rule.kind ≠ .drop ∧ Phrase.Nameless text) := by
    intro phrase source hphrase hsource hsubject hkind
    refine ⟨_, hsubject, ?_⟩
    rw [Phrase.name_eq_empty_iff hphrase hsource, and_iff_right hkind]
  cases h with
  | type hphrase hr => exact hsource hphrase rfl (Target.sourceName_of_rule hr) nofun
  | name hphrase _ => exact hsource hphrase rfl rfl nofun
  | content hphrase _ => exact hsource hphrase rfl rfl nofun
  | annotate hphrase => exact hsource hphrase rfl rfl nofun
  | annotateName hphrase => exact hsource hphrase rfl rfl nofun
  | interface hphrase _ => exact hsource hphrase rfl rfl nofun
  | add hphrase _ => exact hsource hphrase rfl rfl nofun
  | drop hne => exact ⟨_, rfl, fun h => absurd h hne, fun h => absurd rfl h.1⟩

/-! ## Main result -/

/-- A text that begins with an operator has no source and is refused.  With a source it is read
under the empty name exactly if this source is a format alone, which is never a reason to refuse
it; so of all rules of a document these are the ones that are about nothing. -/
theorem subject_eq_empty_iff (text : String) :
    (Phrase.readText text = .error (.unreadable text .missingSource) ↔
        Operator.begins (trim text.toList) = true) ∧
      (∀ phrase source, Phrase.readText text = .ok phrase → phrase.source? = some source →
        (source.name = "" ↔ Phrase.Nameless text)) ∧
      (∀ other left left' operator right, Phrase.Sides text left operator right →
        Phrase.Sides other left' operator right →
        ((∃ phrase, Phrase.readText text = .ok phrase) ↔
          ∃ phrase, Phrase.readText other = .ok phrase)) ∧
      ∀ (d : Document) (r : Repository), d.map.repository = .ok r →
        (∀ l ∈ r.levels, ∀ b, ∀ rule ∈ l.bucket b, ∃ item ∈ d.map.items,
          rule.MadeFor b item.text item.generics ∧ ∃ subject, rule.subject? = some subject ∧
            (subject = "" ↔ rule.kind ≠ .drop ∧ Phrase.Nameless item.text)) ∧
        ∀ own ∈ r.extensions, ∀ rule ∈ own.2, ∃ item ∈ d.map.items,
          (Rule.annotateName rule).MadeOf item.text item.generics ∧
            (rule.name = "" ↔ Phrase.Nameless item.text) := by
  refine ⟨Phrase.readText_eq_missingSource_iff text, fun phrase source hread hsource => ?_,
    fun other left left' operator right hsides hsides' => ⟨?_, ?_⟩, fun d r h => ⟨?_, ?_⟩⟩
  · exact Phrase.name_eq_empty_iff hread hsource
  · rintro ⟨phrase, hread⟩
    exact hsides.exists_readText hsides' hread
  · rintro ⟨phrase, hread⟩
    exact hsides'.exists_readText hsides hread
  · intro l hl b rule hrule
    obtain ⟨item, hitem, hmade⟩ := (Block.repository_eq_ok_iff.1 h).exists_item hl hrule
    exact ⟨item, hitem, hmade, hmade.madeOf.subject⟩
  · intro own hown rule hrule
    obtain ⟨item, hitem, hmade⟩ := (Block.repository_eq_ok_iff.1 h).exists_extension hown hrule
    obtain ⟨subject, hsubject, hempty⟩ := hmade.subject
    cases hsubject
    refine ⟨item, hitem, hmade, ?_⟩
    rw [hempty]
    exact and_iff_right nofun

/-- A type and an extension, each with a source of which only the format is there. -/
def formatOnly : Document :=
  { Document.empty with
    map := .mk { Clauses.empty with types := [⟨":date => io.oap.Foo", []⟩] } []
      [("x-foo", [" : @ io.A"])] [] }

def formatOnlyRepository : Repository :=
  { Repository.empty with
    global := { Level.empty with
      types := [.type ⟨some "", some "date", .ofName "io.oap.Foo", false, false⟩] }
    extensions := [("x-foo", [⟨"", .ofName "io.A"⟩])] }

/-- Both of its rules are about nothing, as is told by their texts. -/
theorem subject_eq_empty_formatOnly :
    formatOnly.map.repository = .ok formatOnlyRepository ∧
      Phrase.Nameless ":date => io.oap.Foo" ∧
      (∃ phrase, Phrase.readText "date=>io.oap.Foo" = .ok phrase) ∧
      (∃ item ∈ formatOnly.map.items, Phrase.Nameless item.text) ∧
      ∃ item ∈ formatOnly.map.items, Phrase.Nameless item.text ∧
        (Rule.annotateName ⟨"", .ofName "io.A"⟩).MadeOf item.text item.generics := by
  obtain ⟨-, hname, hread, hrules⟩ := subject_eq_empty_iff ":date => io.oap.Foo"
  have hphrase : Phrase.readText ":date => io.oap.Foo" =
      .ok (.map ⟨"", some "date"⟩ none ⟨.ofName "io.oap.Foo", false, false⟩) := by decide +kernel
  have hrepository : formatOnly.map.repository = .ok formatOnlyRepository := by decide +kernel
  have hsides : Phrase.Sides ":date => io.oap.Foo" ":date".toList .map "io.oap.Foo".toList :=
    ⟨⟨":date ".toList, " io.oap.Foo".toList, by decide +kernel⟩, by decide, by decide⟩
  have hsides' : Phrase.Sides "date=>io.oap.Foo" "date".toList .map "io.oap.Foo".toList :=
    ⟨⟨"date".toList, "io.oap.Foo".toList, by decide +kernel⟩, by decide, by decide⟩
  obtain ⟨hlevels, hextensions⟩ := hrules formatOnly formatOnlyRepository hrepository
  refine ⟨hrepository, (hname _ _ hphrase rfl).1 rfl,
    (hread _ _ _ _ _ hsides hsides').1 ⟨_, hphrase⟩, ?_, ?_⟩
  · obtain ⟨item, hitem, -, subject, hsubject, hempty⟩ := hlevels
      formatOnlyRepository.global List.mem_cons_self .types _ List.mem_cons_self
    cases hsubject
    exact ⟨item, hitem, (hempty.1 rfl).2⟩
  · obtain ⟨item, hitem, hmade, hempty⟩ := hextensions
      ("x-foo", [⟨"", .ofName "io.A"⟩]) List.mem_cons_self _ List.mem_cons_self
    exact ⟨item, hitem, hempty.1 rfl, hmade⟩

/-- A source that is a format alone, or a colon alone, is read, and not refused. -/
theorem readText_formatOnly :
    let t : Target := ⟨.ofName "io.oap.Foo", false, false⟩
    Phrase.readText ":date => io.oap.Foo" = .ok (.map ⟨"", some "date"⟩ none t) ∧
      Phrase.readText ": => io.oap.Foo" = .ok (.map ⟨"", none⟩ none t) ∧
      Entry.typeRule ⟨":date => io.oap.Foo", []⟩ =
        .ok (.type ⟨some "", some "date", t.type, false, false⟩) := by
  decide +kernel

end TypeRules
