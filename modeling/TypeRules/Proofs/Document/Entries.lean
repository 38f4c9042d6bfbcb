import TypeRules.Document.Rules
import TypeRules.Proofs.Except

/-! # Rules and the texts they are made of

The places of a document read rule texts in their own ways, but there is only one way in which a
text can become a rule of a certain kind.

* `Rule.MadeOf` is this way, for each kind.
* `Bucket.kinds` — the kinds of rules that the entries of a list become.
* `Entry.madeFor_of_typeRule` and its companions — what an entry is read as is made of its text,
  and is of a kind for its list.
-/

namespace TypeRules

open Text

theorem TypeRef.applyTo_nil (t : TypeRef) : t.applyTo [] = .ok t := by
  obtain ⟨name, args⟩ := t
  cases args <;> rfl

/-- A rule that is made of a text and of type arguments that are given apart. -/
inductive Rule.MadeOf (text : String) (generics : List String) : Rule → Prop where
  | type {source : Source} {t : Target} {r : TypeRule}
      (hphrase : Phrase.readText text = .ok (.map source none t))
      (hr : t.rule (some source) generics = .ok r) : MadeOf text generics (.type r)
  | name {source : Source} {t : Target} {r : TypeRule}
      (hphrase : Phrase.readText text = .ok (.map source none t))
      (hr : t.rule (some ⟨source.name, none⟩) generics = .ok r) :
      MadeOf text generics (.name ⟨source.name, r⟩)
  | content {source : Source} {t : Target} {r : TypeRule}
      (hphrase : Phrase.readText text = .ok (.map source none t))
      (hr : t.rule none generics = .ok r) : MadeOf text generics (.content ⟨source.name, r⟩)
  | annotate {source : Source} {a : Annotation}
      (hphrase : Phrase.readText text = .ok (.annotate source a)) :
      MadeOf text generics (.annotate ⟨source, a⟩)
  | annotateName {source : Source} {a : Annotation}
      (hphrase : Phrase.readText text = .ok (.annotate source a)) :
      MadeOf text generics (.annotateName ⟨source.name, a⟩)
  | interface {source : Source} {t u : TypeRef}
      (hphrase : Phrase.readText text = .ok (.implement source t))
      (hu : t.applyTo generics = .ok u) : MadeOf text generics (.interface ⟨source.name, u⟩)
  | add {source : Source} {mark : Option Annotation} {t : Target} {r : TypeRule}
      (hphrase : Phrase.readText text = .ok (.map source mark t))
      (hr : t.rule none generics = .ok r) : MadeOf text generics (.add ⟨source.name, r, mark⟩)
  | drop (hne : trimString text ≠ "") : MadeOf text generics (.drop ⟨trimString text⟩)

def Bucket.kinds : Bucket → List RuleKind
  | .types => [.type, .annotate, .interface]
  | .schemas => [.type, .annotate, .interface]
  | .parameters => [.type, .annotate, .interface, .name, .annotateName, .add, .drop]
  | .responses => [.content]

/-- The rule is made of what is written in an entry, and has its place in a list. -/
structure Rule.MadeFor (b : Bucket) (text : String) (generics : List String) (rule : Rule) :
    Prop where
  kind : rule.kind ∈ b.kinds
  madeOf : rule.MadeOf text generics

namespace Entry

variable {e : Entry} {rule : Rule}

theorem madeFor_of_typeRule (h : e.typeRule = .ok rule) :
    rule.MadeFor .types e.rule e.generics := by
  obtain ⟨phrase, hphrase, h⟩ := bind_eq_ok_iff.1 h
  split at h
  · obtain ⟨r, hr, h⟩ := bind_eq_ok_iff.1 h
    cases h
    exact ⟨List.mem_cons_self, .type hphrase hr⟩
  · cases h
    exact ⟨by simp [Bucket.kinds, Rule.kind], .annotate hphrase⟩
  · obtain ⟨u, hu, h⟩ := bind_eq_ok_iff.1 h
    cases h
    exact ⟨by simp [Bucket.kinds, Rule.kind], .interface hphrase hu⟩
  · cases h

theorem madeFor_of_nameRule (h : e.nameRule = .ok rule) :
    rule.MadeFor .parameters e.rule e.generics := by
  obtain ⟨phrase, hphrase, h⟩ := bind_eq_ok_iff.1 h
  split at h
  · obtain ⟨r, hr, h⟩ := bind_eq_ok_iff.1 h
    cases h
    exact ⟨by simp [Bucket.kinds, Rule.kind], .name hphrase hr⟩
  · cases h
    exact ⟨by simp [Bucket.kinds, Rule.kind], .annotateName hphrase⟩
  · cases h

theorem madeFor_of_addRule (h : e.addRule = .ok rule) :
    rule.MadeFor .parameters e.rule e.generics := by
  obtain ⟨phrase, hphrase, h⟩ := bind_eq_ok_iff.1 h
  split at h
  · obtain ⟨r, hr, h⟩ := bind_eq_ok_iff.1 h
    cases h
    exact ⟨by simp [Bucket.kinds, Rule.kind], .add hphrase hr⟩
  · cases h

theorem madeFor_of_contentRule (h : e.contentRule = .ok rule) :
    rule.MadeFor .responses e.rule e.generics := by
  obtain ⟨phrase, hphrase, h⟩ := bind_eq_ok_iff.1 h
  split at h
  · obtain ⟨r, hr, h⟩ := bind_eq_ok_iff.1 h
    cases h
    exact ⟨by simp [Bucket.kinds, Rule.kind], .content hphrase hr⟩
  · cases h

end Entry

namespace ParameterEntry

def text : ParameterEntry → String
  | name entry => entry.rule
  | add entry => entry.rule
  | drop parameter => parameter
  | type entry => entry.rule

def generics : ParameterEntry → List String
  | name entry => entry.generics
  | add entry => entry.generics
  | drop _ => []
  | type entry => entry.generics

theorem madeFor_of_rule {e : ParameterEntry} {rule : Rule} (h : e.rule = .ok rule) :
    rule.MadeFor .parameters e.text e.generics := by
  cases e with
  | name entry => exact entry.madeFor_of_nameRule h
  | add entry => exact entry.madeFor_of_addRule h
  | drop parameter =>
    obtain ⟨r, hr, rfl⟩ := map_eq_ok_iff.1 h
    rw [DropRule.read] at hr
    split at hr
    · cases hr
    · next hne =>
      cases hr
      exact ⟨by simp [Bucket.kinds, Rule.kind], .drop hne⟩
  | type entry =>
    have hkinds : Bucket.types.kinds ⊆ Bucket.parameters.kinds := by decide
    obtain ⟨hkind, hmade⟩ := entry.madeFor_of_typeRule h
    exact ⟨hkinds hkind, hmade⟩

end ParameterEntry

theorem NameAnnotationRule.madeOf_of_read {text : String} {rule : NameAnnotationRule}
    (h : read text = .ok rule) : (Rule.annotateName rule).MadeOf text [] := by
  obtain ⟨phrase, hphrase, h⟩ := bind_eq_ok_iff.1 h
  split at h
  · cases h
    exact .annotateName hphrase
  · cases h

end TypeRules
