/-! # Cutting texts

Ways to cut a text in two or more: at its first character of a class, at the first
occurrence of a phrase, at the last occurrence of a character, or at every one.  A cut
drops the separator itself.

* `cutAt?`, `cutAtPhrase?`, `cutAtLast?` give the text before and after the cut.
* `splitAll` gives all pieces; `joinWith` puts pieces together again.
* `withoutPrefix?`, `withoutSuffix?` remove a fixed beginning or end.
-/

namespace TypeRules.Text

/-! ## One cut -/

/-- The text before and after the first character of a class. -/
def cutAt? (p : Char → Bool) : List Char → Option (List Char × List Char)
  | [] => none
  | c :: cs => if p c then some ([], cs) else (cutAt? p cs).map fun (l, r) => (c :: l, r)

/-- The text before and after the first occurrence of a phrase. -/
def cutAtPhrase? (phrase : List Char) : List Char → Option (List Char × List Char)
  | [] => if phrase.isEmpty then some ([], []) else none
  | c :: cs =>
    if phrase.isPrefixOf (c :: cs) then some ([], (c :: cs).drop phrase.length)
    else (cutAtPhrase? phrase cs).map fun (l, r) => (c :: l, r)

/-- The text before and after the last occurrence of a character. -/
def cutAtLast? (d : Char) : List Char → Option (List Char × List Char)
  | [] => none
  | c :: cs =>
    match cutAtLast? d cs with
    | some (l, r) => some (c :: l, r)
    | none => if c = d then some ([], cs) else none

/-- A cut loses nothing but the character it was made at. -/
theorem eq_of_cutAt? {p : Char → Bool} {cs l r : List Char} (h : cutAt? p cs = some (l, r)) :
    ∃ c, p c = true ∧ cs = l ++ c :: r ∧ ∀ x ∈ l, p x = false := by
  induction cs generalizing l with
  | nil => simp [cutAt?] at h
  | cons c cs ih =>
    by_cases hc : p c
    · simp only [cutAt?, hc, if_true, Option.some.injEq, Prod.mk.injEq] at h
      obtain ⟨rfl, rfl⟩ := h
      exact ⟨c, hc, rfl, by simp⟩
    · simp only [cutAt?, hc, Bool.false_eq_true, if_false, Option.map_eq_some_iff,
        Prod.exists, Prod.mk.injEq] at h
      obtain ⟨l', r', hcut, rfl, rfl⟩ := h
      obtain ⟨d, hd, rfl, hl⟩ := ih hcut
      refine ⟨d, hd, rfl, fun x hx => ?_⟩
      rcases List.mem_cons.1 hx with rfl | hx
      · simpa using hc
      · exact hl x hx

/-- There is no cut exactly if no character is of the class. -/
theorem cutAt?_eq_none_iff {p : Char → Bool} {cs : List Char} :
    cutAt? p cs = none ↔ ∀ c ∈ cs, p c = false := by
  induction cs with
  | nil => simp [cutAt?]
  | cons c cs ih => by_cases hc : p c <;> simp [cutAt?, hc, ih]

/-! ## All cuts -/

/-- The pieces between all occurrences of a character; one more than there are of them. -/
def splitAll (d : Char) : List Char → List (List Char)
  | [] => [[]]
  | c :: cs =>
    if c = d then [] :: splitAll d cs
    else
      match splitAll d cs with
      | [] => [[c]]
      | piece :: pieces => (c :: piece) :: pieces

/-- Pieces one after the other with a separator between them. -/
def joinWith (separator : List Char) : List (List Char) → List Char
  | [] => []
  | [piece] => piece
  | piece :: pieces => piece ++ separator ++ joinWith separator pieces

/-! ## Ends -/

/-- The text behind a fixed beginning, if it begins so. -/
def withoutPrefix? (front cs : List Char) : Option (List Char) :=
  if front.isPrefixOf cs then some (cs.drop front.length) else none

/-- The text before a fixed end, if it ends so. -/
def withoutSuffix? (back cs : List Char) : Option (List Char) :=
  if back.isSuffixOf cs then some (cs.take (cs.length - back.length)) else none

theorem eq_of_withoutPrefix? {front cs r : List Char} (h : withoutPrefix? front cs = some r) :
    cs = front ++ r := by
  unfold withoutPrefix? at h
  split at h
  · next hp =>
    obtain ⟨t, rfl⟩ := List.isPrefixOf_iff_prefix.1 hp
    simpa using h
  · simp at h

theorem eq_of_withoutSuffix? {back cs l : List Char} (h : withoutSuffix? back cs = some l) :
    cs = l ++ back := by
  unfold withoutSuffix? at h
  split at h
  · next hs =>
    obtain ⟨t, rfl⟩ := List.isSuffixOf_iff_suffix.1 hs
    have : l = t := by simpa using h.symm
    rw [this]
  · simp at h

@[simp] theorem withoutPrefix?_append (front r : List Char) :
    withoutPrefix? front (front ++ r) = some r := by
  simp [withoutPrefix?, List.isPrefixOf_iff_prefix]

@[simp] theorem withoutSuffix?_append (l back : List Char) :
    withoutSuffix? back (l ++ back) = some l := by
  simp [withoutSuffix?, List.isSuffixOf_iff_suffix]

end TypeRules.Text
