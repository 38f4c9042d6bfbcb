import TypeRules.Proofs.Document.Levels
import TypeRules.Proofs.Phrase.Reading

/-! # What documents can say

Whatever a document says, only rules of certain shapes get into its repository, and only where
lookups will find them.

* `Rule.WellFormed` says for each kind of rule what its texts and names are like; `Level.WellFormed`
  adds which kinds are in which list, and the settings.
* `Rule.MadeOf.wellFormed` — a rule that is made of a text is of this kind, whatever the text is.
* `repository_wellFormed` is the statement about documents.
-/

namespace TypeRules

open Text

/-! ## Well-formed rules -/

structure TypeRule.WellFormed (r : TypeRule) : Prop where
  source : ∀ name ∈ r.sourceName, Trimmed name.toList
  format : ∀ format ∈ r.sourceFormat, Trimmed format.toList ∧ format ≠ ""
  target : r.target.WellNamed

/-- The rule only has a target. -/
structure TypeRule.Sourceless (r : TypeRule) : Prop where
  name : r.sourceName = none
  format : r.sourceFormat = none

/-- A rule of any kind has texts without blanks around them and well-named types.  Responses and
additional parameters are not looked up by the source of a type. -/
inductive Rule.WellFormed : Rule → Prop where
  | type {r : TypeRule} (h : r.WellFormed) : WellFormed (.type r)
  | name {r : NameRule} (hparameter : Trimmed r.parameter.toList) (h : r.mapping.WellFormed) :
      WellFormed (.name r)
  | content {r : ContentRule} (hcontent : Trimmed r.contentType.toList)
      (hsource : r.mapping.Sourceless) (h : r.mapping.WellFormed) : WellFormed (.content r)
  | annotate {r : AnnotationRule} (hsource : r.source.Clean)
      (h : TypeName r.annotation.typeName.toList) : WellFormed (.annotate r)
  | annotateName {r : NameAnnotationRule} (hname : Trimmed r.name.toList)
      (h : TypeName r.annotation.typeName.toList) : WellFormed (.annotateName r)
  | interface {r : InterfaceRule} (hsource : Trimmed r.source.toList) (h : r.type.WellNamed) :
      WellFormed (.interface r)
  | add {r : AddRule} (hparameter : Trimmed r.parameter.toList) (hsource : r.mapping.Sourceless)
      (h : r.mapping.WellFormed)
      (hmark : ∀ a ∈ r.annotation, TypeName a.typeName.toList) : WellFormed (.add r)
  | drop {r : DropRule} (hparameter : Trimmed r.parameter.toList) (hne : r.parameter ≠ "") :
      WellFormed (.drop r)

/-! ## Well-formed levels -/

structure ResultRule.WellFormed (r : ResultRule) : Prop where
  source : r.source = none ∨ r.source = some plainName
  target : r.target.WellNamed

/-- A wrapper of single values or collections is not primitive, neither by its flags nor by its
name. -/
structure TypeRule.Wraps (r : TypeRule) : Prop where
  wellFormed : r.WellFormed
  primitive : r.primitive = false
  primitiveArray : r.primitiveArray = false
  target : ¬ (r.target.args = [] ∧ r.target.name ∈ primitiveNames)

structure Level.WellFormed (l : Level) : Prop where
  kind : ∀ b, ∀ rule ∈ l.bucket b, rule.kind ∈ b.kinds
  rule : ∀ b, ∀ rule ∈ l.bucket b, rule.WellFormed
  result : ∀ r ∈ l.result, r.WellFormed
  single : ∀ r ∈ l.single, r.Wraps
  multi : ∀ r ∈ l.multi, r.Wraps
  nullable : ∀ r ∈ l.nullable, r.target.WellNamed

structure Repository.WellFormed (r : Repository) : Prop where
  level : ∀ l ∈ r.levels, l.WellFormed
  extension : ∀ own ∈ r.extensions, ∀ rule ∈ own.2, (Rule.annotateName rule).WellFormed

/-! ## Targets -/

theorem wellNamed_of_readGeneric {text : String} {t : TypeRef} (h : readGeneric text = .ok t) :
    t.WellNamed := by
  obtain ⟨phrase, hphrase, h⟩ := bind_eq_ok_iff.1 h
  have hsound := Phrase.sound_of_readText hphrase
  split at h
  · cases h
    cases hsound with
    | target ht => exact ht.type
  · split at h
    · next hname =>
      cases h
      rw [hname]
      exact .mk .wildcard nofun
    · cases h
  · cases h

theorem TypeRef.WellNamed.of_applyTo {t u : TypeRef} (ht : t.WellNamed) {generics : List String}
    (h : t.applyTo generics = .ok u) : u.WellNamed := by
  rw [applyTo] at h
  split at h
  · obtain ⟨args, hargs, rfl⟩ := map_eq_ok_iff.1 h
    obtain ⟨hname, -⟩ := ht
    refine .mk hname fun arg harg => ?_
    obtain ⟨text, -, hread⟩ := exists_of_forall₂ (mapM_eq_ok_iff_forall₂.1 hargs) harg
    exact wellNamed_of_readGeneric hread
  · cases h
    exact ht

theorem Target.wellFormed_of_rule {t : Target} (ht : t.Consistent) {source : Option Source}
    (hsource : ∀ s ∈ source, s.Clean) {generics : List String} {r : TypeRule}
    (h : t.rule source generics = .ok r) : r.WellFormed := by
  obtain ⟨type, htype, h⟩ := bind_eq_ok_iff.1 h
  cases h
  refine ⟨fun name hname => ?_, fun format hformat => ?_, ht.type.of_applyTo htype⟩
  · obtain ⟨s, hs, rfl⟩ := Option.map_eq_some_iff.1 hname
    exact (hsource s hs).name
  · obtain ⟨s, hs, hformat⟩ := Option.bind_eq_some_iff.1 hformat
    exact (hsource s hs).format format hformat

theorem Target.sourceless_of_rule {t : Target} {generics : List String} {r : TypeRule}
    (h : t.rule none generics = .ok r) : r.Sourceless := by
  obtain ⟨type, -, h⟩ := bind_eq_ok_iff.1 h
  cases h
  exact ⟨rfl, rfl⟩

/-! ## Entries -/

theorem Rule.MadeOf.wellFormed {text : String} {generics : List String} {rule : Rule}
    (h : rule.MadeOf text generics) : rule.WellFormed := by
  cases h with
  | type hphrase hr =>
    cases Phrase.sound_of_readText hphrase with
    | map hsource _ ht =>
      refine .type (Target.wellFormed_of_rule ht (fun s hs => ?_) hr)
      cases hs
      exact hsource
  | name hphrase hr =>
    cases Phrase.sound_of_readText hphrase with
    | map hsource _ ht =>
      refine .name hsource.name (Target.wellFormed_of_rule ht (fun s hs => ?_) hr)
      cases hs
      exact ⟨hsource.name, nofun⟩
  | content hphrase hr =>
    cases Phrase.sound_of_readText hphrase with
    | map hsource _ ht =>
      have hmapping := Target.wellFormed_of_rule ht (by simp) hr
      exact .content hsource.name (Target.sourceless_of_rule hr) hmapping
  | annotate hphrase =>
    cases Phrase.sound_of_readText hphrase with
    | annotate hsource ha => exact .annotate hsource ha
  | annotateName hphrase =>
    cases Phrase.sound_of_readText hphrase with
    | annotate hsource ha => exact .annotateName hsource.name ha
  | interface hphrase hu =>
    cases Phrase.sound_of_readText hphrase with
    | implement hsource ht => exact .interface hsource.name (ht.of_applyTo hu)
  | add hphrase hr =>
    cases Phrase.sound_of_readText hphrase with
    | map hsource hmark ht =>
      have hmapping := Target.wellFormed_of_rule ht (by simp) hr
      exact .add hsource.name (Target.sourceless_of_rule hr) hmapping hmark
  | drop hne => exact .drop (trimmed_ofList_trim text.toList) hne

/-! ## Settings -/

theorem ResultRule.wellFormed_of_read {text : String} {r : ResultRule} (h : read text = .ok r) :
    r.WellFormed := by
  obtain ⟨phrase, hphrase, h⟩ := bind_eq_ok_iff.1 h
  have hsound := Phrase.sound_of_readText hphrase
  split at h
  · cases h
    cases hsound with
    | target ht => exact ⟨.inl rfl, ht.type⟩
  · split at h
    · cases h
      cases hsound with
      | map _ _ ht => exact ⟨.inr rfl, ht.type⟩
    · cases h
  · cases h

theorem Position.trimmed_text (position : Position) : Trimmed position.text.toList := by
  cases position <;> simp [Trimmed, Position.text, isBlank]

theorem TypeRule.wraps_of_readWrapper {position : Position} {text : String} {r : TypeRule}
    (h : readWrapper position text = .ok r) : r.Wraps := by
  obtain ⟨phrase, hphrase, h⟩ := bind_eq_ok_iff.1 h
  have hsound := Phrase.sound_of_readText hphrase
  split at h
  · split at h
    · cases h
    · next hprimitive =>
      cases h
      cases hsound with
      | target ht =>
        refine ⟨⟨fun name hname => ?_, nofun, ht.type⟩, rfl, rfl, ?_⟩
        · cases hname
          exact position.trimmed_text
        · rwa [← ht.primitive]
  · cases h

theorem NullRule.wellNamed_of_read {text : String} {r : NullRule} (h : read text = .ok r) :
    r.target.WellNamed := by
  obtain ⟨phrase, hphrase, h⟩ := bind_eq_ok_iff.1 h
  have hsound := Phrase.sound_of_readText hphrase
  split at h
  · cases h
    cases hsound with
    | target ht => exact ht.type
  · cases h

/-! ## Main result -/

theorem exists_of_rel {α β : Type} {R : α → β → Prop} {x : Option α} {y : Option β}
    (h : Option.Rel R x y) {b : β} (hb : b ∈ y) : ∃ a, R a b := by
  cases h with
  | none => cases hb
  | @some a _ hab =>
    cases hb
    exact ⟨a, hab⟩

theorem Clauses.Converts.wellFormed {c : Clauses} {l : Level} (h : c.Converts l) :
    l.WellFormed where
  kind b rule hrule := by
    obtain ⟨item, -, hmade⟩ := h.exists_item hrule
    exact hmade.kind
  rule b rule hrule := by
    obtain ⟨item, -, hmade⟩ := h.exists_item hrule
    exact hmade.madeOf.wellFormed
  result r hr := by
    obtain ⟨text, hread⟩ := exists_of_rel h.result hr
    exact ResultRule.wellFormed_of_read hread
  single r hr := by
    obtain ⟨text, hread⟩ := exists_of_rel h.single hr
    exact TypeRule.wraps_of_readWrapper hread
  multi r hr := by
    obtain ⟨text, hread⟩ := exists_of_rel h.multi hr
    exact TypeRule.wraps_of_readWrapper hread
  nullable r hr := by
    obtain ⟨text, hread⟩ := exists_of_rel h.nullable hr
    exact NullRule.wellNamed_of_read hread

/-- If a document has a repository, all its levels and extensions are well-formed, in every list
and in every setting. -/
theorem repository_wellFormed {d : Document} {r : Repository} (h : d.map.repository = .ok r) :
    r.WellFormed where
  level l hl := by
    obtain ⟨c, hc, -⟩ := (Block.repository_eq_ok_iff.1 h).exists_clauses hl
    exact hc.wellFormed
  extension own hown rule hrule := by
    obtain ⟨item, -, hmade⟩ := (Block.repository_eq_ok_iff.1 h).exists_extension hown hrule
    exact hmade.wellFormed

/-- Something in every list and in every setting with a rule, type arguments that are given apart,
and blanks wherever they may be. -/
def variedDocument : Document :=
  let clauses : Clauses := { Clauses.empty with
    result := some " plain => io.Envelope "
    single := some "io.Mono"
    multi := some " io.Flux< io.Any >"
    nullable := some "io.Optional = io.Optional.none()"
    types := [⟨" array : x  => java.util.List", ["io.Foo", " ? "]⟩, ⟨"Foo @ io.A(1)", []⟩]
    schemas := [⟨"Foo =+ io.Mark", ["io.Key<io.Value>"]⟩]
    parameters := [.name ⟨"id => long[]", []⟩, .add ⟨"page => io.B(1) io.Page", []⟩, .drop " size ",
      .type ⟨"string: => io.Text", []⟩]
    responses := [⟨"text/plain => java.util.Map", ["io.Key", "int"]⟩] }
  let block : Block := .mk clauses [] [] []
  { Document.empty with
    map := .mk clauses [("/foo", .mk clauses [] [] [(.get, block)])] [("x-foo", ["a @ io.A"])] [] }

theorem wellFormed_variedDocument :
    ∃ r, variedDocument.map.repository = .ok r ∧ r.WellFormed := by
  have haccepted : refusal? variedDocument.map.repository = none := by decide +kernel
  obtain ⟨r, hr⟩ := refusal?_eq_none_iff.1 haccepted
  exact ⟨r, hr, repository_wellFormed hr⟩

end TypeRules
