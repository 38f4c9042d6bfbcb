import TypeRules.Text.Blank

/-! # Blanks around a text

Trimming does not see blanks that are put around a text, and what it takes away is blanks.

* `trim_blanks_append`, `trim_append_blanks` — blanks before or behind a text change nothing.
* `exists_blanks_around_trim` — a text is its trimmed form with blanks around it.
-/

namespace TypeRules.Text

def Blanks (cs : List Char) : Prop := ∀ c ∈ cs, isBlank c = true

-- The members are gone through; that there are only finitely many characters is of no use here.
instance (cs : List Char) : Decidable (Blanks cs) := List.decidableBAll (isBlank · = true) cs

instance (cs : List Char) : Decidable (Trimmed cs) :=
  @instDecidableAnd _ _ (Option.decidableForallMem cs.head?) (Option.decidableForallMem cs.getLast?)

theorem blanks_nil : Blanks [] := by
  intro c hc
  cases hc

theorem blanks_space : Blanks [' '] := by
  intro c hc
  rw [List.mem_singleton.1 hc]
  rfl

theorem Blanks.append {l r : List Char} (hl : Blanks l) (hr : Blanks r) : Blanks (l ++ r) := by
  intro c hc
  rcases List.mem_append.1 hc with hc | hc
  · exact hl c hc
  · exact hr c hc

theorem Blanks.reverse {cs : List Char} (h : Blanks cs) : Blanks cs.reverse := by
  intro c hc
  exact h c (List.mem_reverse.1 hc)

theorem blanks_takeWhile (cs : List Char) : Blanks (cs.takeWhile isBlank) := by
  intro c hc
  exact List.all_eq_true.1 List.all_takeWhile c hc

/-! ## Blanks do not count -/

theorem trimStart_blanks_append {l : List Char} (h : Blanks l) (cs : List Char) :
    trimStart (l ++ cs) = trimStart cs :=
  List.dropWhile_append_of_pos h

theorem trimEnd_append_blanks {r : List Char} (h : Blanks r) (cs : List Char) :
    trimEnd (cs ++ r) = trimEnd cs := by
  rw [trimEnd, trimEnd, List.reverse_append, List.dropWhile_append_of_pos h.reverse]

theorem trim_blanks_append {l : List Char} (h : Blanks l) (cs : List Char) :
    trim (l ++ cs) = trim cs := by
  rw [trim, trim, trimStart_blanks_append h]

theorem trim_append_blanks {r : List Char} (h : Blanks r) (cs : List Char) :
    trim (cs ++ r) = trim cs := by
  induction cs with
  | nil => rw [List.nil_append, trim_nil, trim_eq_nil_iff]; exact h
  | cons c cs ih =>
    rw [List.cons_append, trim, trim, trimStart_cons, trimStart_cons]
    split
    · exact ih
    · exact trimEnd_append_blanks h (c :: cs)

theorem trim_trimStart (cs : List Char) : trim (trimStart cs) = trim cs := by
  rw [trim, trim, trimStart_eq_self fun _ h => head_trimStart h]

theorem trim_blanks_around {l r cs : List Char} (hl : Blanks l) (hr : Blanks r)
    (h : Trimmed cs) : trim (l ++ cs ++ r) = cs := by
  rw [trim_append_blanks hr, trim_blanks_append hl, trim_eq_self h]

theorem trimmed_of_isBlank {cs : List Char} (h : ∀ c ∈ cs, isBlank c = false) : Trimmed cs :=
  ⟨fun c hc => h c (List.mem_of_mem_head? hc), fun c hc => h c (List.mem_of_mem_getLast? hc)⟩

theorem trimmed_append {l r : List Char} (hl : Trimmed l) (hl' : l ≠ []) (hr : Trimmed r)
    (hr' : r ≠ []) (cs : List Char) : Trimmed (l ++ cs ++ r) := by
  obtain ⟨c, l, rfl⟩ := List.exists_cons_of_ne_nil hl'
  obtain ⟨r, d, rfl⟩ := (List.eq_nil_or_concat r).resolve_left hr'
  rw [List.concat_eq_append] at hr ⊢
  constructor
  · intro x hx
    exact hl.1 x hx
  · intro x hx
    rw [← List.append_assoc, List.getLast?_concat] at hx
    refine hr.2 x ?_
    rwa [List.getLast?_concat]

/-- In front of a text without blanks around it, trimming only takes leading blanks away. -/
theorem trim_append_of_trimmed {cs : List Char} (h : Trimmed cs) (hne : cs ≠ [])
    (front : List Char) : trim (front ++ cs) = trimStart front ++ cs := by
  have hstart : trimStart (front ++ cs) = trimStart front ++ cs := by
    rw [trimStart, List.dropWhile_append]
    split
    · next hnil =>
      have hself : cs.dropWhile isBlank = cs := trimStart_eq_self h.1
      rw [hself, trimStart, List.isEmpty_iff.1 hnil, List.nil_append]
    · rfl
  obtain ⟨front', last, rfl⟩ := (List.eq_nil_or_concat cs).resolve_left hne
  rw [List.concat_eq_append] at h hstart ⊢
  rw [trim, hstart]
  refine trimEnd_eq_self fun c hc => h.2 c ?_
  rw [← List.append_assoc, List.getLast?_concat] at hc
  rwa [List.getLast?_concat]

/-! ## Only blanks are lost -/

theorem trim_ne_nil {cs : List Char} (h : ¬ Blanks cs) : trim cs ≠ [] :=
  fun hnil => h (trim_eq_nil_iff.1 hnil)

theorem exists_blanks_around_trim (cs : List Char) :
    ∃ l r, Blanks l ∧ Blanks r ∧ cs = l ++ trim cs ++ r := by
  refine ⟨cs.takeWhile isBlank, ((trimStart cs).reverse.takeWhile isBlank).reverse,
    blanks_takeWhile cs, (blanks_takeWhile _).reverse, ?_⟩
  have hstart : cs.takeWhile isBlank ++ trimStart cs = cs := List.takeWhile_append_dropWhile
  have hend : trim cs ++ ((trimStart cs).reverse.takeWhile isBlank).reverse = trimStart cs := by
    rw [trim, trimEnd, ← List.reverse_append, List.takeWhile_append_dropWhile, List.reverse_reverse]
  rw [List.append_assoc, hend, hstart]

theorem exists_trim_append {r : List Char} (hr : ¬ Blanks r) (l : List Char) :
    ∃ front, trim (l ++ r) = front ++ trim r := by
  obtain ⟨b, b', -, hb', hsplit⟩ := exists_blanks_around_trim r
  refine ⟨trimStart (l ++ b), ?_⟩
  have hwhole : l ++ r = l ++ b ++ trim r ++ b' := by
    rw [List.append_assoc l, List.append_assoc l, ← hsplit]
  rw [hwhole, trim_append_blanks hb', trim_append_of_trimmed (trimmed_trim r) (trim_ne_nil hr)]

theorem mem_trim {cs : List Char} {c : Char} (h : c ∈ cs) (hc : isBlank c = false) :
    c ∈ trim cs := by
  obtain ⟨l, r, hl, hr, heq⟩ := exists_blanks_around_trim cs
  rw [heq, List.mem_append, List.mem_append] at h
  rcases h with (h | h) | h
  · rw [hl c h] at hc
    cases hc
  · exact h
  · rw [hr c h] at hc
    cases hc

end TypeRules.Text
