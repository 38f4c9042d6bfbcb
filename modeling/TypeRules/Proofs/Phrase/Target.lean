import TypeRules.Phrase.Reader
import TypeRules.Proofs.TypeRef.Text

/-! # Targets read back from their texts

* `Target.chars` writes a target, with the marker of arrays behind it if it is one.
* `Target.Consistent` — the type is well named, and the flags say what the type is.
* `Target.read_chars` — such a target is read back from its text.
* `Phrase.readSides_map_chars` — so it is behind the mapping operator, where no annotation is
  seen in front of it.
-/

namespace TypeRules

open Text

/-! ## Texts of types -/

theorem TypeRef.text_ne_nil {t : TypeRef} (h : t.WellNamed) : t.text.toList ≠ [] := by
  obtain ⟨c, cs, hcons, -⟩ := head?_text h
  rw [hcons]
  exact List.cons_ne_nil c cs

theorem TypeRef.trimmed_text {t : TypeRef} (h : t.WellNamed) : Trimmed t.text.toList := by
  constructor
  · intro c hc
    obtain ⟨d, cs, hcons, hd⟩ := head?_text h
    rw [hcons] at hc
    cases hc
    exact isBlank_of_isNameChar hd
  · intro c hc
    rcases getLast?_text h c hc with hname | rfl
    · exact isBlank_of_isNameChar hname
    · rfl

theorem TypeRef.withoutSuffix?_arrayMarker_text {t : TypeRef} (h : t.WellNamed) :
    withoutSuffix? arrayMarker t.text.toList = none := by
  have hlast : ']' ∉ t.text.toList.getLast? := by
    intro hmem
    rcases getLast?_text h _ hmem with hname | hangle
    · exact absurd hname (by decide +kernel)
    · exact absurd hangle (by decide)
  exact withoutSuffix?_eq_none hlast ['[']

/-! ## Targets -/

theorem isBlank_of_mem_arrayMarker : ∀ c ∈ arrayMarker, isBlank c = false := by
  intro c hc
  cases hc with
  | head => rfl
  | tail _ hc => rw [List.mem_singleton.1 hc]; rfl

namespace Target

def chars (t : Target) : List Char := t.type.text.toList ++ if t.array then arrayMarker else []

/-- The type is well named; the target is primitive exactly if it has the name of a primitive
type and no arguments, and only then it is an array. -/
structure Consistent (t : Target) : Prop where
  type : t.type.WellNamed
  primitive : t.primitive = true ↔ t.type.args = [] ∧ t.type.name ∈ primitiveNames
  array : t.array = true → t.primitive = true

instance (t : Target) : Decidable t.Consistent :=
  decidable_of_iff (t.type.WellNamed ∧
      (t.primitive = true ↔ t.type.args = [] ∧ t.type.name ∈ primitiveNames) ∧
      (t.array = true → t.primitive = true))
    ⟨fun ⟨htype, hprimitive, harray⟩ => ⟨htype, hprimitive, harray⟩,
      fun h => ⟨h.type, h.primitive, h.array⟩⟩

theorem chars_ne_nil {t : Target} (h : t.Consistent) : t.chars ≠ [] := by
  rw [chars, ne_eq, List.append_eq_nil_iff, not_and]
  intro hnil
  exact absurd hnil (TypeRef.text_ne_nil h.type)

theorem trimmed_chars {t : Target} (h : t.Consistent) : Trimmed t.chars := by
  have htype := TypeRef.trimmed_text h.type
  cases harray : t.array with
  | false => simpa [chars, harray] using htype
  | true =>
    have hmarker : Trimmed arrayMarker :=
      ⟨fun c hc => isBlank_of_mem_arrayMarker c (List.mem_of_mem_head? hc),
        fun c hc => isBlank_of_mem_arrayMarker c (List.mem_of_mem_getLast? hc)⟩
    have htrimmed := trimmed_append htype (TypeRef.text_ne_nil h.type) hmarker (by decide) []
    simpa [chars, harray] using htrimmed

theorem isBlank_of_mem_exposed_chars {t : Target} (h : t.Consistent) :
    ∀ c ∈ Nesting.top.exposed t.chars, isBlank c = false := by
  intro c hc
  rw [chars, (TypeRef.balanced_text h.type).exposed_append] at hc
  rcases List.mem_append.1 hc with hc | hc
  · exact isBlank_of_isNameChar (TypeRef.isNameChar_of_mem_exposed_text h.type c hc)
  · have hmem := Nesting.mem_of_mem_exposed hc
    split at hmem
    · exact isBlank_of_mem_arrayMarker c hmem
    · cases hmem

theorem withoutSuffix?_chars {t : Target} (h : t.Consistent) :
    withoutSuffix? arrayMarker t.chars = if t.array then some t.type.text.toList else none := by
  rw [chars]
  cases t.array with
  | false => simpa using TypeRef.withoutSuffix?_arrayMarker_text h.type
  | true => exact withoutSuffix?_append _ _

/-- What is left without the marker is the text of the type, and the flags are computed anew. -/
theorem read_of_base {t : Target} (h : t.Consistent) {cs : List Char}
    (hmarker : (withoutSuffix? arrayMarker (trim cs)).isSome = t.array)
    (hbase : TypeRef.read ((withoutSuffix? arrayMarker (trim cs)).getD (trim cs)) = .ok t.type) :
    read cs = .ok t := by
  have hprimitive : (t.type.args.isEmpty && primitiveNames.contains t.type.name) = t.primitive := by
    rw [Bool.eq_iff_iff, h.primitive, Bool.and_eq_true, List.isEmpty_iff, List.contains_iff_mem]
  have hguard : (t.array && !t.primitive) = false := by
    cases harray : t.array with
    | false => rfl
    | true => rw [h.array harray]; rfl
  simp only [read, hmarker]
  refine bind_eq_ok_iff.2 ⟨t.type, hbase, ?_⟩
  simp only [hprimitive, hguard]
  rfl

theorem read_chars {t : Target} (h : t.Consistent) : read t.chars = .ok t := by
  have htrim := trim_eq_self (trimmed_chars h)
  refine read_of_base h ?_ ?_
  · rw [htrim, withoutSuffix?_chars h]
    cases t.array <;> rfl
  · have hbase : (withoutSuffix? arrayMarker t.chars).getD t.chars = t.type.text.toList := by
      rw [withoutSuffix?_chars h, chars]
      cases t.array with
      | false => exact List.append_nil _
      | true => rfl
    rw [htrim, hbase, TypeRef.read_text h.type]

end Target

/-! ## Targets without annotations -/

namespace Phrase

theorem isBlank_of_startsTarget (c : Char) (cs : List Char) (h : startsTarget (c :: cs) = true) :
    isBlank c = true := (Bool.and_eq_true_iff.1 h).1

theorem cutAnnotation_eq_none {cs : List Char}
    (h : ∀ c ∈ Nesting.top.exposed cs, isBlank c = false) : cutAnnotation cs = (none, cs) := by
  have hcut := cutTop?_eq_none isBlank_of_startsTarget h
  unfold cutAnnotation
  rw [hcut]

theorem readSides_map_chars {t : Target} (h : t.Consistent) (source : Source) :
    readSides source .map t.chars = .ok (map source none t) := by
  simp only [readSides, cutAnnotation_eq_none (Target.isBlank_of_mem_exposed_chars h),
    Target.read_chars h]
  rfl

end Phrase

end TypeRules
