import TypeRules.Proofs.Text.Cut
import TypeRules.Text.Replace

/-! # Texts after a replacement

A phrase cuts a text into pieces that do not contain it, and replacing the phrase puts the
replacement between the same pieces.

* `Replaced` says this of a text before and after; `replaced_replaceAll` shows that `replaceAll`
  does so.
* `Separates` — a replacement that cannot become part of the phrase again, whatever stands around
  it.  `not_infix_of_replaced` shows that no occurrence is left then, although a replacement brings
  the pieces on both sides of it together in one text.
-/

namespace TypeRules.Text

/-- The second text is the first one with a replacement in every place of a phrase. -/
def Replaced (phrase replacement before after : List Char) : Prop :=
  ∃ pieces, pieces ≠ [] ∧ (∀ piece ∈ pieces, ¬ phrase <:+: piece) ∧
    before = joinWith phrase pieces ∧ after = joinWith replacement pieces

/-! ## Replacing cuts a text -/

theorem joinWith_cons_cons (separator piece : List Char) (c : Char) (pieces : List (List Char)) :
    joinWith separator ((c :: piece) :: pieces) = c :: joinWith separator (piece :: pieces) := by
  by_cases h : pieces = []
  · simp [h]
  · simp [joinWith_cons _ _ h]

theorem prefix_joinWith (separator piece : List Char) (pieces : List (List Char)) :
    piece <+: joinWith separator (piece :: pieces) := by
  by_cases h : pieces = []
  · simp [h]
  · simp [joinWith_cons _ _ h]

theorem replaceAll_append {phrase : List Char} (h : phrase ≠ []) (replacement cs : List Char) :
    replaceAll phrase replacement (phrase ++ cs) =
      replacement ++ replaceAll phrase replacement cs := by
  obtain ⟨c, rest, rfl⟩ := List.exists_cons_of_ne_nil h
  rw [List.cons_append, replaceAll, if_pos]
  · simp
  · simp [List.isPrefixOf_iff_prefix]

theorem replaceAll_cons {phrase cs : List Char} {c : Char} (h : ¬ phrase <+: c :: cs)
    (replacement : List Char) :
    replaceAll phrase replacement (c :: cs) = c :: replaceAll phrase replacement cs := by
  rw [replaceAll, if_neg]
  rwa [List.isPrefixOf_iff_prefix]

theorem replaced_replaceAll {phrase : List Char} (h : phrase ≠ []) (replacement cs : List Char) :
    Replaced phrase replacement cs (replaceAll phrase replacement cs) := by
  match cs with
  | [] =>
    refine ⟨[[]], List.cons_ne_nil _ _, ?_, rfl, by rw [replaceAll]; rfl⟩
    intro piece hpiece
    rw [List.mem_singleton.1 hpiece, List.infix_nil]
    exact h
  | c :: cs =>
    by_cases hprefix : phrase <+: c :: cs
    · obtain ⟨rest, hrest⟩ := hprefix
      have hshorter : rest.length < (c :: cs).length := by
        have hpositive := List.length_pos_iff.2 h
        rw [← hrest, List.length_append]
        omega
      obtain ⟨pieces, hne, hfree, hbefore, hafter⟩ := replaced_replaceAll h replacement rest
      refine ⟨[] :: pieces, List.cons_ne_nil _ _, ?_, ?_, ?_⟩
      · intro piece hpiece
        cases hpiece with
        | head => rwa [List.infix_nil]
        | tail _ hpiece => exact hfree piece hpiece
      · rw [joinWith_cons _ _ hne, ← hbefore, List.nil_append, hrest]
      · rw [← hrest, replaceAll_append h, joinWith_cons _ _ hne, ← hafter, List.nil_append]
    · obtain ⟨pieces, hne, hfree, hbefore, hafter⟩ := replaced_replaceAll h replacement cs
      obtain ⟨first, others, rfl⟩ := List.exists_cons_of_ne_nil hne
      refine ⟨(c :: first) :: others, List.cons_ne_nil _ _, ?_, ?_, ?_⟩
      · intro piece hpiece
        cases hpiece with
        | head =>
          rw [List.infix_cons_iff, not_or]
          refine ⟨fun hfirst => hprefix (hfirst.trans ?_), hfree first List.mem_cons_self⟩
          rw [hbefore]
          exact List.cons_prefix_cons.2 ⟨rfl, prefix_joinWith phrase first others⟩
        | tail _ hpiece => exact hfree piece (List.mem_cons_of_mem _ hpiece)
      · rw [joinWith_cons_cons, ← hbefore]
      · rw [replaceAll_cons hprefix, joinWith_cons_cons, ← hafter]
termination_by cs.length
decreasing_by
  · exact hshorter
  · exact Nat.lt_succ_self _

/-! ## No occurrence is left -/

/-- A replacement without the two ends of the phrase, and with a character that the phrase does
not have. -/
structure Separates (phrase replacement : List Char) : Prop where
  ne_nil : phrase ≠ []
  head : ∀ c ∈ phrase.head?, c ∉ replacement
  last : ∀ c ∈ phrase.getLast?, c ∉ replacement
  mark : ∃ c ∈ replacement, c ∉ phrase

namespace Separates

variable {phrase replacement : List Char}

theorem infix_right (h : Separates phrase replacement) {rest : List Char}
    (hoccurs : phrase <:+: replacement ++ rest) : phrase <:+: rest := by
  obtain ⟨c, hc⟩ := Option.isSome_iff_exists.1 (List.isSome_head?.2 h.ne_nil)
  rcases List.infix_append_iff.1 hoccurs with hleft | hright | ⟨l, r, rfl, hl, hr⟩
  · exact absurd (hleft.subset (List.mem_of_mem_head? hc)) (h.head c hc)
  · exact hright
  -- An occurrence across the border begins with a character of the replacement.
  · cases l with
    | nil => exact hr.isInfix
    | cons d l =>
      cases hc
      exact absurd (hl.subset List.mem_cons_self) (h.head _ rfl)

theorem infix_or_infix (h : Separates phrase replacement) {piece rest : List Char}
    (hoccurs : phrase <:+: piece ++ replacement ++ rest) :
    phrase <:+: piece ∨ phrase <:+: rest := by
  rw [List.append_assoc] at hoccurs
  rcases List.infix_append_iff.1 hoccurs with hleft | hright | ⟨l, r, rfl, hl, hr⟩
  · exact .inl hleft
  · exact .inr (h.infix_right hright)
  · rcases List.prefix_or_prefix_of_prefix hr (List.prefix_append replacement rest) with hr | hr
    -- An occurrence that ends in the replacement has its last character there.
    · rcases List.eq_nil_or_concat r with rfl | ⟨r, c, rfl⟩
      · rw [List.append_nil]
        exact .inl hl.isInfix
      · have hlast : c ∈ (l ++ r.concat c).getLast? := by simp
        exact absurd (hr.subset (by simp)) (h.last c hlast)
    -- One that goes beyond it has all of the replacement inside.
    · obtain ⟨c, hc, hnot⟩ := h.mark
      exact absurd (List.mem_append_right l (hr.subset hc)) hnot

end Separates

theorem not_infix_of_replaced {phrase replacement before after : List Char}
    (h : Separates phrase replacement) (hafter : Replaced phrase replacement before after) :
    ¬ phrase <:+: after := by
  obtain ⟨pieces, hne, hfree, -, rfl⟩ := hafter
  induction pieces with
  | nil => exact absurd rfl hne
  | cons piece pieces ih =>
    have hpiece := hfree piece List.mem_cons_self
    by_cases hnil : pieces = []
    · rwa [hnil, joinWith_singleton]
    · rw [joinWith_cons _ _ hnil]
      intro hoccurs
      rcases h.infix_or_infix hoccurs with hleft | hright
      · exact hpiece hleft
      · exact ih hnil (fun p hp => hfree p (List.mem_cons_of_mem _ hp)) hright

theorem replaceAll_of_not_infix {phrase cs : List Char} (h : phrase ≠ []) (hcs : ¬ phrase <:+: cs)
    (replacement : List Char) : replaceAll phrase replacement cs = cs := by
  obtain ⟨pieces, hne, -, hbefore, hafter⟩ := replaced_replaceAll h replacement cs
  obtain ⟨piece, others, rfl⟩ := List.exists_cons_of_ne_nil hne
  by_cases hnil : others = []
  · rw [hafter, hbefore, hnil]
    rfl
  · rw [joinWith_cons _ _ hnil] at hbefore
    exact absurd ⟨piece, joinWith phrase others, hbefore.symm⟩ hcs

end TypeRules.Text
