import TypeRules.Proofs.Text.Nesting
import TypeRules.Text.Blank
import TypeRules.TypeRef.Name

/-! # The pattern of type names

* `TypeName` is the pattern itself: the wildcard, or segments with dots between them, each of
  which begins with one class of characters and goes on with another.
* `isTypeName_iff` shows that `isTypeName` decides it.
* `isNameChar` is the class of all characters that occur in type names.  Blanks, brackets and
  separators are outside of it, so a scan for any of them passes over a name.
-/

namespace TypeRules

open Text

/-! ## The pattern -/

inductive NameSegment : List Char → Prop where
  | mk {c : Char} {cs : List Char} (hstart : isNameStart c = true)
      (hnext : ∀ x ∈ cs, isNameNext x = true) : NameSegment (c :: cs)

/-- A type name: the wildcard, or segments with dots between them. -/
inductive TypeName : List Char → Prop where
  | wildcard : TypeName ['?']
  | dotted {segments : List (List Char)} (hne : segments ≠ [])
      (h : ∀ segment ∈ segments, NameSegment segment) : TypeName (joinWith ['.'] segments)

theorem NameSegment.dot_not_mem {segment : List Char} (h : NameSegment segment) :
    '.' ∉ segment := by
  obtain ⟨hstart, hnext⟩ := h
  intro hdot
  cases hdot with
  | head => exact absurd hstart (by decide)
  | tail _ hdot => exact absurd (hnext _ hdot) (by decide +kernel)

theorem isDotted_eq_true_iff {first next : Char → Bool} {cs : List Char} :
    isDotted first next cs = true ↔ ∀ segment ∈ splitAll '.' cs,
      ∃ c rest, segment = c :: rest ∧ first c = true ∧ ∀ x ∈ rest, next x = true := by
  rw [isDotted, List.all_eq_true]
  refine forall₂_congr fun segment _ => ?_
  cases segment with
  | nil => simp
  | cons c rest =>
    rw [Bool.and_eq_true, List.all_eq_true]
    constructor
    · rintro ⟨hstart, hnext⟩
      exact ⟨c, rest, rfl, hstart, hnext⟩
    · rintro ⟨_, _, heq, hstart, hnext⟩
      cases heq
      exact ⟨hstart, hnext⟩

theorem isDotted_iff {cs : List Char} :
    isDotted isNameStart isNameNext cs = true ↔
      ∀ segment ∈ splitAll '.' cs, NameSegment segment := by
  rw [isDotted_eq_true_iff]
  refine forall₂_congr fun segment _ => ?_
  constructor
  · rintro ⟨c, rest, rfl, hstart, hnext⟩
    exact ⟨hstart, hnext⟩
  · rintro ⟨hstart, hnext⟩
    exact ⟨_, _, rfl, hstart, hnext⟩

theorem isTypeName_iff {cs : List Char} : isTypeName cs = true ↔ TypeName cs := by
  rw [isTypeName, Bool.or_eq_true, beq_iff_eq, isDotted_iff]
  constructor
  · rintro (rfl | h)
    · exact .wildcard
    · rw [← joinWith_splitAll '.' cs]
      exact .dotted (splitAll_ne_nil '.' cs) h
  · intro h
    cases h with
    | wildcard => exact .inl rfl
    | dotted hne h =>
      rw [splitAll_joinWith hne fun segment hsegment => (h segment hsegment).dot_not_mem]
      exact .inr h

/-! ## Characters of names -/

/-- A character that may occur in a type name. -/
def isNameChar (c : Char) : Bool := c == '?' || c == '.' || isNameStart c || isNameNext c

theorem TypeName.isNameChar {cs : List Char} (h : TypeName cs) :
    ∀ c ∈ cs, isNameChar c = true := by
  intro c hc
  cases h with
  | wildcard =>
    rw [List.mem_singleton] at hc
    subst hc
    decide
  | dotted hne h =>
    rcases mem_joinWith hc with hc | ⟨segment, hsegment, hc⟩
    · rw [List.mem_singleton] at hc
      subst hc
      decide
    · obtain ⟨hstart, hnext⟩ := h segment hsegment
      cases hc with
      | head => simp [TypeRules.isNameChar, hstart]
      | tail _ hc => simp [TypeRules.isNameChar, hnext c hc]

theorem TypeName.ne_nil {cs : List Char} (h : TypeName cs) : cs ≠ [] := by
  cases h with
  | wildcard => simp
  | @dotted segments hne h =>
    obtain ⟨segment, rest, rfl⟩ := List.exists_cons_of_ne_nil hne
    obtain ⟨-, -⟩ := h segment List.mem_cons_self
    by_cases hrest : rest = []
    · subst hrest
      simp
    · simp [joinWith_cons _ _ hrest]

def blankCodes : List Nat :=
  [9, 10, 11, 12, 13, 0x20, 0x85, 0xA0, 0x1680, 0x2000, 0x2001, 0x2002, 0x2003, 0x2004, 0x2005,
    0x2006, 0x2007, 0x2008, 0x2009, 0x200A, 0x2028, 0x2029, 0x202F, 0x205F, 0x3000]

theorem mem_blankCodes_of_isBlank {c : Char} (h : isBlank c = true) : c.toNat ∈ blankCodes := by
  simp only [isBlank, Bool.or_eq_true, Bool.and_eq_true, decide_eq_true_eq, beq_iff_eq] at h
  simp only [blankCodes, List.mem_cons, List.not_mem_nil, or_false]
  omega

theorem isBlank_of_isNameChar {c : Char} (h : isNameChar c = true) : isBlank c = false := by
  have hcodes : ∀ n ∈ blankCodes, isNameChar (Char.ofNat n) = false := by decide +kernel
  refine Bool.eq_false_iff.2 fun hblank => ?_
  have hc := hcodes c.toNat (mem_blankCodes_of_isBlank hblank)
  rw [Char.ofNat_toNat, h] at hc
  cases hc

theorem isQuiet_of_isNameChar {c : Char} (h : isNameChar c = true) : isQuiet c = true :=
  isQuiet_of_class (by decide +kernel) h

theorem TypeName.trimmed {cs : List Char} (h : TypeName cs) : Trimmed cs :=
  ⟨fun c hc => isBlank_of_isNameChar (h.isNameChar c (List.mem_of_mem_head? hc)),
    fun c hc => isBlank_of_isNameChar (h.isNameChar c (List.mem_of_mem_getLast? hc))⟩

end TypeRules
