import TypeRules.Proofs.Text.Trim
import TypeRules.Proofs.Text.Nesting
import TypeRules.Source

/-! # Sources read back from their texts

* `SourceText` — a text that can stand for a name or a format on the left side of a rule: it is
  not empty, and has no blank and no character that means something in a rule.
* `Source.readRule_textOf` — a name and a format of this kind are read back from the text that
  is written for them.
-/

namespace TypeRules

open Text

/-- A character that is no blank and means nothing in a rule. -/
def isSourceChar (c : Char) : Bool :=
  !isBlank c && !([':', '/', '"', '(', ')', '<', '>', '=', '@'].contains c)

/-- A name or a format that can be written on the left side of a rule. -/
structure SourceText (s : String) : Prop where
  ne_empty : s ≠ ""
  isSourceChar : ∀ c ∈ s.toList, isSourceChar c = true

instance (s : String) : Decidable (SourceText s) :=
  decidable_of_iff (s ≠ "" ∧ s.toList.all TypeRules.isSourceChar = true)
    ⟨fun ⟨hne, hchars⟩ => ⟨hne, List.all_eq_true.1 hchars⟩,
      fun h => ⟨h.ne_empty, List.all_eq_true.2 h.isSourceChar⟩⟩

theorem isBlank_of_isSourceChar {c : Char} (h : isSourceChar c = true) : isBlank c = false := by
  simpa using (Bool.and_eq_true_iff.1 h).1

theorem isQuiet_of_isSourceChar {c : Char} (h : isSourceChar c = true) : isQuiet c = true :=
  isQuiet_of_class (by decide) h

theorem SourceText.trimmed {s : String} (h : SourceText s) : Trimmed s.toList :=
  ⟨fun c hc => isBlank_of_isSourceChar (h.isSourceChar c (List.mem_of_mem_head? hc)),
    fun c hc => isBlank_of_isSourceChar (h.isSourceChar c (List.mem_of_mem_getLast? hc))⟩

theorem SourceText.toList_ne_nil {s : String} (h : SourceText s) : s.toList ≠ [] := by
  intro hnil
  exact h.ne_empty (String.toList_eq_nil_iff.1 hnil)

namespace Source

theorem read_trim (cs : List Char) : read (trim cs) = read cs := by
  obtain ⟨l, r, hl, hr, hcs⟩ := exists_blanks_around_trim cs
  have hcolon : isBlank ':' = false := by decide
  cases hcut : cutAt? (· == ':') (trim cs) with
  | none =>
    have hnone : cutAt? (· == ':') cs = none := by
      rw [cutAt?_eq_none_iff] at hcut ⊢
      intro c hc
      rw [beq_eq_false_iff_ne]
      rintro rfl
      exact absurd (hcut _ (mem_trim hc hcolon)) (by decide)
    rw [read, hcut, read, hnone, trim_trim]
  | some cut =>
    obtain ⟨name, format⟩ := cut
    obtain ⟨c, hc, hsplit, hname⟩ := eq_of_cutAt? hcut
    obtain rfl : c = ':' := by simpa using hc
    have hfront : ∀ c ∈ l ++ name, (c == ':') = false := by
      intro c hc
      rcases List.mem_append.1 hc with hc | hc
      · rw [beq_eq_false_iff_ne]
        rintro rfl
        rw [hl _ hc] at hcolon
        cases hcolon
      · exact hname c hc
    have hcut' : cutAt? (· == ':') cs = some (l ++ name, format ++ r) := by
      have heq : cs = l ++ name ++ ':' :: (format ++ r) := by
        rw [hsplit] at hcs
        simpa using hcs
      rw [heq]
      exact cutAt?_append_cons hfront hc _
    rw [read, hcut, read, hcut']
    simp only [trim_blanks_append hl, trim_append_blanks hr]

theorem readRule_trim (cs : List Char) : readRule (trim cs) = readRule cs := by
  have hslash : (trim cs).contains '/' = cs.contains '/' := by
    rw [Bool.eq_iff_iff, List.contains_iff_mem, List.contains_iff_mem]
    exact ⟨mem_of_mem_trim, fun h => mem_trim h (by decide)⟩
  rw [readRule, readRule, hslash, trim_trim, read_trim]

theorem toList_textOf_none (name : String) : (textOf (some name) none).toList = name.toList := by
  simp [textOf]

theorem toList_textOf_some (name format : String) :
    (textOf (some name) (some format)).toList = name.toList ++ ':' :: format.toList := by
  simp [textOf]

theorem isSourceChar_or_colon_of_mem_textOf {name : String} {format : Option String}
    (hname : SourceText name) (hformat : ∀ f ∈ format, SourceText f) :
    ∀ c ∈ (textOf (some name) format).toList, TypeRules.isSourceChar c = true ∨ c = ':' := by
  intro c hc
  cases format with
  | none =>
    rw [toList_textOf_none] at hc
    exact .inl (hname.isSourceChar c hc)
  | some format =>
    rw [toList_textOf_some] at hc
    rcases List.mem_append.1 hc with hc | hc
    · exact .inl (hname.isSourceChar c hc)
    · cases hc with
      | head => exact .inr rfl
      | tail _ hc => exact .inl ((hformat format rfl).isSourceChar c hc)

theorem textOf_ne_nil {name : String} {format : Option String} (hname : SourceText name) :
    (textOf (some name) format).toList ≠ [] := by
  cases format with
  | none =>
    rw [toList_textOf_none]
    exact hname.toList_ne_nil
  | some format =>
    rw [toList_textOf_some]
    exact List.append_ne_nil_of_right_ne_nil _ (List.cons_ne_nil _ _)

theorem trimmed_textOf {name : String} {format : Option String} (hname : SourceText name)
    (hformat : ∀ f ∈ format, SourceText f) : Trimmed (textOf (some name) format).toList := by
  have hblank : ∀ c ∈ (textOf (some name) format).toList, isBlank c = false := by
    intro c hc
    rcases isSourceChar_or_colon_of_mem_textOf hname hformat c hc with h | rfl
    · exact isBlank_of_isSourceChar h
    · rfl
  exact ⟨fun c hc => hblank c (List.mem_of_mem_head? hc),
    fun c hc => hblank c (List.mem_of_mem_getLast? hc)⟩

theorem isQuiet_of_mem_textOf {name : String} {format : Option String} (hname : SourceText name)
    (hformat : ∀ f ∈ format, SourceText f) :
    ∀ c ∈ (textOf (some name) format).toList, isQuiet c = true := by
  intro c hc
  rcases isSourceChar_or_colon_of_mem_textOf hname hformat c hc with h | rfl
  · exact isQuiet_of_isSourceChar h
  · decide

theorem readRule_textOf {name : String} {format : Option String} (hname : SourceText name)
    (hformat : ∀ f ∈ format, SourceText f) :
    readRule (textOf (some name) format).toList = ⟨name, format⟩ := by
  have hslash : (textOf (some name) format).toList.contains '/' = false := by
    rw [Bool.eq_false_iff, ne_eq, List.contains_iff_mem]
    intro hmem
    rcases isSourceChar_or_colon_of_mem_textOf hname hformat _ hmem with h | h
    · exact absurd h (by decide)
    · exact absurd h (by decide)
  have hcolon : ∀ c ∈ name.toList, (c == ':') = false := by
    intro c hc
    exact beq_eq_false_iff_ne.2 (ne_of_class (hname.isSourceChar c hc) (by decide))
  have htrim : String.ofList (trim name.toList) = name := by
    rw [trim_eq_self hname.trimmed, String.ofList_toList]
  rw [readRule, hslash, read]
  cases format with
  | none =>
    rw [toList_textOf_none, cutAt?_eq_none_iff.2 hcolon, htrim]
    rfl
  | some format =>
    have hf := hformat format rfl
    have hread : formatOf (trim format.toList) = some format := by
      rw [trim_eq_self hf.trimmed, formatOf, String.ofList_toList]
      simp [hf.toList_ne_nil]
    rw [toList_textOf_some, cutAt?_append_cons hcolon rfl]
    simp [htrim, hread]

end Source

end TypeRules
