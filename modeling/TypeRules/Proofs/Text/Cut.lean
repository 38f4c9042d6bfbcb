import TypeRules.Text.Cut

/-! # Pieces of a text

Cutting a text and putting the pieces together again.

* `cutAt?_append_cons` — a cut is made at the first character of its class.
* `append_of_cutAtLast?`, `not_mem_of_cutAtLast?` — the last cut loses nothing, and nothing behind it
  can be cut again.
* `joinWith_splitAll`, `splitAll_joinWith` — pieces joined with the separator give the text back,
  and a joined text falls into its pieces again.
-/

namespace TypeRules.Text

/-! ## One cut -/

theorem cutAt?_append_cons {p : Char → Bool} {l : List Char} (hl : ∀ x ∈ l, p x = false) {c : Char}
    (hc : p c = true) (r : List Char) : cutAt? p (l ++ c :: r) = some (l, r) := by
  induction l with
  | nil => simp [cutAt?, hc]
  | cons x l ih =>
    have hx : p x = false := hl x List.mem_cons_self
    have hrest := ih fun y hy => hl y (List.mem_cons_of_mem _ hy)
    simp [cutAt?, hx, hrest]

theorem append_of_cutAtLast? {d : Char} {cs l r : List Char}
    (h : cutAtLast? d cs = some (l, r)) : cs = l ++ d :: r := by
  induction cs generalizing l with
  | nil => cases h
  | cons c cs ih =>
    rw [cutAtLast?] at h
    split at h
    · next l' r' hcut =>
      cases h
      rw [ih hcut, List.cons_append]
    · split at h
      · next hc =>
        cases h
        rw [hc, List.nil_append]
      · cases h

theorem cutAtLast?_eq_none_iff {d : Char} {cs : List Char} :
    cutAtLast? d cs = none ↔ d ∉ cs := by
  induction cs with
  | nil => simp [cutAtLast?]
  | cons c cs ih =>
    rw [cutAtLast?, List.mem_cons, not_or]
    cases hcut : cutAtLast? d cs with
    | none => simp [ih.1 hcut, eq_comm]
    | some cut => simp [append_of_cutAtLast? hcut]

theorem not_mem_of_cutAtLast? {d : Char} {cs l r : List Char}
    (h : cutAtLast? d cs = some (l, r)) : d ∉ r := by
  induction cs generalizing l with
  | nil => cases h
  | cons c cs ih =>
    rw [cutAtLast?] at h
    split at h
    · next hcut =>
      cases h
      exact ih hcut
    · next hcut =>
      split at h
      · cases h
        exact cutAtLast?_eq_none_iff.1 hcut
      · cases h

/-! ## Joining -/

@[simp] theorem joinWith_singleton (separator piece : List Char) :
    joinWith separator [piece] = piece := rfl

theorem joinWith_cons (separator piece : List Char) {pieces : List (List Char)}
    (h : pieces ≠ []) :
    joinWith separator (piece :: pieces) = piece ++ separator ++ joinWith separator pieces := by
  cases pieces with
  | nil => exact absurd rfl h
  | cons => rfl

theorem joinWith_append (separator : List Char) {pieces others : List (List Char)}
    (hpieces : pieces ≠ []) (hothers : others ≠ []) :
    joinWith separator (pieces ++ others) =
      joinWith separator pieces ++ separator ++ joinWith separator others := by
  induction pieces with
  | nil => exact absurd rfl hpieces
  | cons piece pieces ih =>
    by_cases hnil : pieces = []
    · subst hnil
      exact joinWith_cons separator piece hothers
    · rw [List.cons_append, joinWith_cons _ _ (List.append_ne_nil_of_left_ne_nil hnil _),
        joinWith_cons _ _ hnil, ih hnil]
      simp only [List.append_assoc]

theorem joinWith_eq_intercalate (separator : List Char) (pieces : List (List Char)) :
    joinWith separator pieces = separator.intercalate pieces := by
  induction pieces with
  | nil => rfl
  | cons piece pieces ih =>
    by_cases hne : pieces = []
    · subst hne
      rw [List.intercalate_singleton]
      rfl
    · rw [joinWith_cons separator piece hne, ih, List.intercalate_cons_of_ne_nil hne]

/-- Joining with a longer separator is joining with its first character, where the other
characters stand in front of all pieces but the first. -/
theorem joinWith_cons_separator (d : Char) (separator piece : List Char)
    (pieces : List (List Char)) :
    joinWith (d :: separator) (piece :: pieces) =
      joinWith [d] (piece :: pieces.map (separator ++ ·)) := by
  induction pieces generalizing piece with
  | nil => rfl
  | cons next pieces ih =>
    rw [joinWith_cons _ _ (List.cons_ne_nil _ _), List.map_cons,
      joinWith_cons _ _ (List.cons_ne_nil _ _), ih]
    cases pieces with
    | nil => simp
    | cons => simp [joinWith_cons]

theorem mem_joinWith {separator : List Char} {pieces : List (List Char)} {c : Char}
    (h : c ∈ joinWith separator pieces) : c ∈ separator ∨ ∃ piece ∈ pieces, c ∈ piece := by
  induction pieces with
  | nil => cases h
  | cons piece pieces ih =>
    by_cases hne : pieces = []
    · subst hne
      exact .inr ⟨piece, List.mem_cons_self, h⟩
    · rw [joinWith_cons separator piece hne, List.append_assoc] at h
      rcases List.mem_append.1 h with h | h
      · exact .inr ⟨piece, List.mem_cons_self, h⟩
      · rcases List.mem_append.1 h with h | h
        · exact .inl h
        · rcases ih h with h | ⟨other, hother, h⟩
          · exact .inl h
          · exact .inr ⟨other, List.mem_cons_of_mem _ hother, h⟩

theorem isInfix_joinWith {separator piece : List Char} {pieces : List (List Char)}
    (h : piece ∈ pieces) : piece <:+: joinWith separator pieces := by
  induction pieces with
  | nil => cases h
  | cons first pieces ih =>
    by_cases hne : pieces = []
    · subst hne
      obtain rfl := List.mem_singleton.1 h
      exact List.infix_rfl
    · rw [joinWith_cons separator first hne]
      cases h with
      | head => exact ⟨[], separator ++ joinWith separator pieces, by simp⟩
      | tail _ h => exact (ih h).trans (List.suffix_append _ _).isInfix

/-! ## Splitting at every separator -/

theorem splitAll_ne_nil (d : Char) (cs : List Char) : splitAll d cs ≠ [] := by
  cases cs with
  | nil => simp [splitAll]
  | cons c cs =>
    rw [splitAll]
    split
    · simp
    · split <;> simp

theorem splitAll_cons_of_ne {d c : Char} (h : c ≠ d) {cs piece : List Char}
    {pieces : List (List Char)} (hcs : splitAll d cs = piece :: pieces) :
    splitAll d (c :: cs) = (c :: piece) :: pieces := by
  rw [splitAll, if_neg h, hcs]

theorem joinWith_splitAll (d : Char) (cs : List Char) : joinWith [d] (splitAll d cs) = cs := by
  induction cs with
  | nil => rfl
  | cons c cs ih =>
    by_cases h : c = d
    · subst h
      rw [splitAll, if_pos rfl, joinWith_cons [c] [] (splitAll_ne_nil c cs), ih]
      rfl
    · obtain ⟨piece, pieces, hcs⟩ := List.exists_cons_of_ne_nil (splitAll_ne_nil d cs)
      rw [splitAll_cons_of_ne h hcs]
      rw [hcs] at ih
      by_cases hne : pieces = []
      · subst hne
        rw [joinWith_singleton] at ih ⊢
        rw [ih]
      · rw [joinWith_cons [d] piece hne] at ih
        rw [joinWith_cons [d] (c :: piece) hne, ← ih]
        rfl

theorem splitAll_of_not_mem {d : Char} {cs : List Char} (h : d ∉ cs) : splitAll d cs = [cs] := by
  induction cs with
  | nil => rfl
  | cons c cs ih =>
    rw [List.mem_cons, not_or] at h
    exact splitAll_cons_of_ne (Ne.symm h.1) (ih h.2)

theorem splitAll_append_cons {d : Char} {piece : List Char} (h : d ∉ piece) (cs : List Char) :
    splitAll d (piece ++ d :: cs) = piece :: splitAll d cs := by
  induction piece with
  | nil => rw [List.nil_append, splitAll, if_pos rfl]
  | cons c piece ih =>
    rw [List.mem_cons, not_or] at h
    exact splitAll_cons_of_ne (Ne.symm h.1) (ih h.2)

theorem not_mem_of_mem_splitAll {d : Char} {cs piece : List Char} (h : piece ∈ splitAll d cs) :
    d ∉ piece := by
  induction cs generalizing piece with
  | nil =>
    rw [List.mem_singleton.1 h]
    exact List.not_mem_nil
  | cons c cs ih =>
    by_cases hc : c = d
    · rw [splitAll, if_pos hc] at h
      cases h with
      | head => exact List.not_mem_nil
      | tail _ h => exact ih h
    · obtain ⟨first, rest, hcs⟩ := List.exists_cons_of_ne_nil (splitAll_ne_nil d cs)
      rw [splitAll_cons_of_ne hc hcs] at h
      rw [hcs] at ih
      cases h with
      | head =>
        rw [List.mem_cons, not_or]
        exact ⟨Ne.symm hc, ih List.mem_cons_self⟩
      | tail _ h => exact ih (List.mem_cons_of_mem _ h)

theorem splitAll_joinWith {d : Char} {pieces : List (List Char)} (hne : pieces ≠ [])
    (h : ∀ piece ∈ pieces, d ∉ piece) : splitAll d (joinWith [d] pieces) = pieces := by
  induction pieces with
  | nil => exact absurd rfl hne
  | cons piece pieces ih =>
    have hpiece := h piece List.mem_cons_self
    by_cases hnil : pieces = []
    · subst hnil
      exact splitAll_of_not_mem hpiece
    · rw [joinWith_cons [d] piece hnil, List.append_assoc, List.singleton_append,
        splitAll_append_cons hpiece, ih hnil fun p hp => h p (List.mem_cons_of_mem _ hp)]

/-! ## Ends -/

theorem withoutSuffix?_eq_none {d : Char} {cs : List Char} (h : d ∉ cs.getLast?)
    (back : List Char) : withoutSuffix? (back ++ [d]) cs = none := by
  cases hcut : withoutSuffix? (back ++ [d]) cs with
  | none => rfl
  | some front =>
    rw [eq_of_withoutSuffix? hcut, ← List.append_assoc, List.getLast?_concat] at h
    exact absurd rfl h

end TypeRules.Text
