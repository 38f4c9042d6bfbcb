import TypeRules.Proofs.Document.Entries
import TypeRules.Proofs.Phrase.Operator
import TypeRules.Proofs.Phrase.Target

/-! # Rules read back from their texts

A rule is shown by its text, for instance where several rules apply at once.  Such a text can be
put into a document again.

* `TypeRule.Printable` — the type rules whose texts are rules.
* `typeRule_text` — a printable type rule is the rule of an entry with its text.
-/

namespace TypeRules

open Text

/-! ## Type rules -/

namespace TypeRule

def fullTarget (r : TypeRule) : Target := ⟨r.target, r.primitive, r.primitiveArray⟩

/-- The rule has a source that can be written, with a format or without one, and the flags of
its target say what the target is. -/
structure Printable (r : TypeRule) : Prop where
  source : ∃ name ∈ r.sourceName, SourceText name
  format : ∀ format ∈ r.sourceFormat, SourceText format
  target : r.fullTarget.Consistent

instance (r : TypeRule) : Decidable r.Printable :=
  decidable_of_iff ((∃ name ∈ r.sourceName, SourceText name) ∧
      (∀ format ∈ r.sourceFormat, SourceText format) ∧ r.fullTarget.Consistent)
    ⟨fun ⟨hsource, hformat, htarget⟩ => ⟨hsource, hformat, htarget⟩,
      fun h => ⟨h.source, h.format, h.target⟩⟩

theorem toList_text {r : TypeRule} {name : String} (h : r.sourceName = some name) :
    r.text.toList = (Source.textOf (some name) r.sourceFormat).toList ++
      ' ' :: (Operator.map.sign ++ ' ' :: r.fullTarget.chars) := by
  have hsign : " => ".toList = ' ' :: (Operator.map.sign ++ [' ']) := rfl
  have hmarker : (if r.primitiveArray then "[]" else "").toList =
      if r.fullTarget.array then arrayMarker else [] := by
    cases hr : r.primitiveArray <;> simp [fullTarget, hr, arrayMarker]
  have hchars : r.fullTarget.chars = r.target.text.toList ++
      (if r.primitiveArray then "[]" else "").toList := by
    rw [hmarker]
    rfl
  rw [text, if_neg (by simp [h]), h, String.toList_append, String.toList_append,
    String.toList_append, hsign, hchars]
  simp

theorem readText_text {r : TypeRule} {name : String} (hname : r.sourceName = some name)
    (hsource : SourceText name) (hformat : ∀ format ∈ r.sourceFormat, SourceText format)
    (htarget : r.fullTarget.Consistent) :
    Phrase.readText r.text = .ok (.map ⟨name, r.sourceFormat⟩ none r.fullTarget) := by
  rw [Phrase.readText_textOf hsource hformat (Target.trimmed_chars htarget)
    (Target.chars_ne_nil htarget) (toList_text hname), Phrase.readSides_map_chars htarget]
  rfl

end TypeRule

/-- A printable type rule is read back from its text. -/
theorem typeRule_text {r : TypeRule} (h : r.Printable) :
    Entry.typeRule ⟨r.text, []⟩ = .ok (.type r) := by
  obtain ⟨name, hname, hsource⟩ := h.source
  have hread := TypeRule.readText_text hname hsource h.format h.target
  have hrule : r.fullTarget.rule (some ⟨name, r.sourceFormat⟩) [] = .ok r := by
    refine bind_eq_ok_iff.2 ⟨r.target, TypeRef.applyTo_nil r.target, ?_⟩
    rw [Option.map_some, Option.bind_some, ← hname]
    rfl
  rw [Entry.typeRule]
  exact bind_eq_ok_iff.2 ⟨_, hread, bind_eq_ok_iff.2 ⟨r, hrule, rfl⟩⟩

/-- A rule with a format, whose target has arguments at two depths. -/
def datedWrap : TypeRule where
  sourceName := some "string"
  sourceFormat := some "date-time"
  target := .mk "io.Wrap"
    [.ofName "\x7bpackage-name\x7d.Bar", .mk "java.util.Map" [.ofName "?", .ofName "A"]]
  primitive := false
  primitiveArray := false

theorem typeRule_text_datedWrap :
    datedWrap.Printable ∧
    Entry.typeRule
        ⟨"string:date-time => io.Wrap<\x7bpackage-name\x7d.Bar, java.util.Map<?, A>>", []⟩ =
      .ok (.type datedWrap) := by
  have hprintable : datedWrap.Printable := by decide +kernel
  have htext : datedWrap.text =
      "string:date-time => io.Wrap<\x7bpackage-name\x7d.Bar, java.util.Map<?, A>>" := by decide
  have hread := typeRule_text hprintable
  rw [htext] at hread
  exact ⟨hprintable, hread⟩

end TypeRules
