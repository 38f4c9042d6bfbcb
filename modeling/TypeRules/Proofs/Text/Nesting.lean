import TypeRules.Proofs.Text.Cut
import TypeRules.Proofs.Text.Trim
import TypeRules.Text.Nesting

/-! # Texts under a scan

What a scan makes of a text is known from two things: the nesting it leaves behind, and the
characters it meets in the open.

* `Nesting.exposed` lists the characters that stand in the open.
* `Balanced` texts give back the depth at which they were entered and have nothing in the open
  below the top.  Quiet characters are balanced, and so are a balanced text in brackets and any
  text in quotes.
* `cutTopFrom?_append` lets a scan pass over a text where no character in the open is a hit,
  `cutTopFrom?_append_of_agree` over any text.
* `joinWith_splitTop`, `splitTop_joinWith` — pieces of a split joined with the separator give the
  text back, and balanced pieces without the separator in the open are found again.
-/

namespace TypeRules.Text

/-! ## Nesting behind a text -/

namespace Nesting

@[simp] theorem after_nil (n : Nesting) : n.after [] = n := rfl

@[simp] theorem after_cons (n : Nesting) (c : Char) (cs : List Char) :
    n.after (c :: cs) = (n.step c).after cs := rfl

@[simp] theorem after_append (n : Nesting) (l r : List Char) :
    n.after (l ++ r) = (n.after l).after r :=
  List.foldl_append

/-! ## Characters in the open -/

def exposed (n : Nesting) : List Char → List Char
  | [] => []
  | c :: cs => if n.exposes c then c :: exposed (n.step c) cs else exposed (n.step c) cs

theorem exposed_append (n : Nesting) (l r : List Char) :
    n.exposed (l ++ r) = n.exposed l ++ (n.after l).exposed r := by
  induction l generalizing n with
  | nil => rfl
  | cons c l ih =>
    rw [List.cons_append, exposed, exposed, ih, after_cons]
    split <;> rfl

theorem mem_of_mem_exposed {n : Nesting} {cs : List Char} {c : Char} (h : c ∈ n.exposed cs) :
    c ∈ cs := by
  induction cs generalizing n with
  | nil => cases h
  | cons x cs ih =>
    rw [exposed] at h
    split at h
    · cases h with
      | head => exact List.mem_cons_self
      | tail _ h => exact List.mem_cons_of_mem _ (ih h)
    · exact List.mem_cons_of_mem _ (ih h)

theorem eq_top_of_exposes {n : Nesting} {c : Char} (h : n.exposes c = true) : n = top := by
  obtain ⟨depth, quoted⟩ := n
  simp only [exposes, Bool.and_eq_true, Bool.not_eq_true', beq_iff_eq] at h
  obtain ⟨⟨⟨⟨rfl, rfl⟩, -⟩, -⟩, -⟩ := h
  rfl

/-- Nothing is opened by a character in the open, and nothing is there to be closed. -/
theorem step_of_exposes {n : Nesting} {c : Char} (h : n.exposes c = true) : n.step c = top := by
  obtain rfl := eq_top_of_exposes h
  simp only [exposes, Bool.and_eq_true, bne_iff_ne] at h
  obtain ⟨⟨⟨-, hquote⟩, hparen⟩, hangle⟩ := h
  simp [step, top, hquote, hparen, hangle]

end Nesting

/-! ## Quiet characters -/

def isQuiet (c : Char) : Bool := c != '"' && c != '(' && c != '<' && c != ')' && c != '>'

theorem ne_of_class {p : Char → Bool} {c d : Char} (h : p c = true) (hd : p d = false) :
    c ≠ d := by
  rintro rfl
  rw [h] at hd
  cases hd

/-- A class of characters is quiet if no quote and no bracket is in it. -/
theorem isQuiet_of_class {p : Char → Bool}
    (hp : ['"', '(', '<', ')', '>'].all (fun d => !p d) = true) {c : Char} (h : p c = true) :
    isQuiet c = true := by
  have hne : ∀ d ∈ ['"', '(', '<', ')', '>'], c ≠ d := by
    intro d hd
    have hd' := List.all_eq_true.1 hp d hd
    exact ne_of_class h (by simpa using hd')
  simp [isQuiet, hne]

theorem exposes_of_isQuiet {c : Char} (h : isQuiet c = true) : Nesting.top.exposes c = true := by
  simp only [isQuiet, Bool.and_eq_true] at h
  simp [Nesting.exposes, Nesting.top, h]

theorem step_of_isQuiet {c : Char} (h : isQuiet c = true) (d : Nat) :
    (Nesting.mk d false).step c = ⟨d, false⟩ := by
  simp only [isQuiet, Bool.and_eq_true, bne_iff_ne] at h
  obtain ⟨⟨⟨⟨hquote, hparen⟩, hangle⟩, hparen'⟩, hangle'⟩ := h
  simp [Nesting.step, hquote, hparen, hangle, hparen', hangle']

theorem not_exposes_of_pos {d : Nat} (h : 0 < d) (c : Char) :
    (Nesting.mk d false).exposes c = false := by
  have : d ≠ 0 := by omega
  simp [Nesting.exposes, this]

/-! ## Balanced texts -/

/-- A text that a scan leaves at the depth at which it entered it; below the top nothing of it
is in the open. -/
structure Balanced (cs : List Char) : Prop where
  after : ∀ d, (Nesting.mk d false).after cs = ⟨d, false⟩
  hidden : ∀ d, 0 < d → (Nesting.mk d false).exposed cs = []

theorem Balanced.after_top {cs : List Char} (h : Balanced cs) :
    Nesting.top.after cs = Nesting.top := h.after 0

theorem Balanced.exposed_append {l : List Char} (h : Balanced l) (r : List Char) :
    Nesting.top.exposed (l ++ r) = Nesting.top.exposed l ++ Nesting.top.exposed r := by
  rw [Nesting.exposed_append, h.after_top]

theorem balanced_nil : Balanced [] where
  after _ := rfl
  hidden _ _ := rfl

theorem Balanced.append {l r : List Char} (hl : Balanced l) (hr : Balanced r) :
    Balanced (l ++ r) where
  after d := by rw [Nesting.after_append, hl.after, hr.after]
  hidden d hd := by rw [Nesting.exposed_append, hl.hidden d hd, hl.after, hr.hidden d hd]; rfl

theorem balanced_of_isQuiet {cs : List Char} (h : ∀ c ∈ cs, isQuiet c = true) : Balanced cs := by
  induction cs with
  | nil => exact balanced_nil
  | cons c cs ih =>
    have hc := h c List.mem_cons_self
    have hcs := ih fun x hx => h x (List.mem_cons_of_mem _ hx)
    constructor
    · intro d
      rw [Nesting.after_cons, step_of_isQuiet hc, hcs.after]
    · intro d hd
      rw [Nesting.exposed, not_exposes_of_pos hd, step_of_isQuiet hc, hcs.hidden d hd]
      rfl

theorem isQuiet_of_isBlank {c : Char} (h : isBlank c = true) : isQuiet c = true :=
  isQuiet_of_class (by decide) h

theorem Blanks.balanced {cs : List Char} (h : Blanks cs) : Balanced cs :=
  balanced_of_isQuiet fun c hc => isQuiet_of_isBlank (h c hc)

theorem Blanks.not_mem_exposed_append {b cs : List Char} (hb : Blanks b) {d : Char}
    (hd : isBlank d = false) (h : d ∉ Nesting.top.exposed cs) :
    d ∉ Nesting.top.exposed (b ++ cs) := by
  rw [hb.balanced.exposed_append, List.mem_append, not_or]
  refine ⟨fun hmem => ?_, h⟩
  rw [hb d (Nesting.mem_of_mem_exposed hmem)] at hd
  cases hd

theorem after_enclosed {cs : List Char} (h : Balanced cs) {l r : Char} (hl : l = '(' ∨ l = '<')
    (hr : r = ')' ∨ r = '>') (d : Nat) :
    (Nesting.mk d false).after (l :: (cs ++ [r])) = ⟨d, false⟩ := by
  have hopen : (Nesting.mk d false).step l = ⟨d + 1, false⟩ := by rcases hl with rfl | rfl <;> rfl
  have hclose : (Nesting.mk (d + 1) false).step r = ⟨d, false⟩ := by
    rcases hr with rfl | rfl <;> rfl
  rw [Nesting.after_cons, hopen, Nesting.after_append, h.after, Nesting.after_cons, hclose,
    Nesting.after_nil]

theorem exposed_enclosed {cs : List Char} (h : Balanced cs) {l : Char} (hl : l = '(' ∨ l = '<')
    (r : Char) (d : Nat) : (Nesting.mk d false).exposed (l :: (cs ++ [r])) = [] := by
  have hopen : (Nesting.mk d false).step l = ⟨d + 1, false⟩ := by rcases hl with rfl | rfl <;> rfl
  have hbracket : (Nesting.mk d false).exposes l = false := by
    rcases hl with rfl | rfl <;> simp [Nesting.exposes]
  have hclose : (Nesting.mk (d + 1) false).exposed [r] = [] := by
    rw [Nesting.exposed, not_exposes_of_pos (Nat.succ_pos d)]
    rfl
  rw [Nesting.exposed, hbracket, hopen, Nesting.exposed_append, h.hidden (d + 1) (Nat.succ_pos d),
    h.after, hclose]
  rfl

theorem Balanced.enclosed {cs : List Char} (h : Balanced cs) {l r : Char}
    (hl : l = '(' ∨ l = '<') (hr : r = ')' ∨ r = '>') : Balanced (l :: (cs ++ [r])) where
  after := after_enclosed h hl hr
  hidden d _ := exposed_enclosed h hl r d

theorem exposed_angles {cs : List Char} (h : Balanced cs) (d : Nat) :
    (Nesting.mk d false).exposed ('<' :: (cs ++ ['>'])) = [] :=
  exposed_enclosed h (.inr rfl) '>' d

theorem Balanced.angles {cs : List Char} (h : Balanced cs) : Balanced ('<' :: (cs ++ ['>'])) :=
  h.enclosed (.inr rfl) (.inr rfl)

theorem Balanced.joinWith {separator : List Char} (hseparator : Balanced separator)
    {pieces : List (List Char)} (h : ∀ piece ∈ pieces, Balanced piece) :
    Balanced (joinWith separator pieces) := by
  induction pieces with
  | nil => exact balanced_nil
  | cons piece pieces ih =>
    have hpiece := h piece List.mem_cons_self
    by_cases hne : pieces = []
    · subst hne
      exact hpiece
    · rw [joinWith_cons separator piece hne]
      exact (hpiece.append hseparator).append (ih fun p hp => h p (List.mem_cons_of_mem _ hp))

/-! ## Quotes -/

theorem after_quoted {cs : List Char} (h : '"' ∉ cs) (d : Nat) :
    (Nesting.mk d true).after cs = ⟨d, true⟩ := by
  induction cs with
  | nil => rfl
  | cons c cs ih =>
    rw [List.mem_cons, not_or] at h
    have hstep : (Nesting.mk d true).step c = ⟨d, true⟩ := by
      simp [Nesting.step, Ne.symm h.1]
    rw [Nesting.after_cons, hstep, ih h.2]

theorem exposed_quoted {cs : List Char} (h : '"' ∉ cs) (d : Nat) :
    (Nesting.mk d true).exposed cs = [] := by
  induction cs with
  | nil => rfl
  | cons c cs ih =>
    rw [List.mem_cons, not_or] at h
    have hstep : (Nesting.mk d true).step c = ⟨d, true⟩ := by
      simp [Nesting.step, Ne.symm h.1]
    rw [Nesting.exposed, hstep, ih h.2]
    rfl

/-- Whatever stands in quotes is hidden, separators and brackets included. -/
theorem exposed_quotes {cs : List Char} (h : '"' ∉ cs) (d : Nat) :
    (Nesting.mk d false).exposed ('"' :: (cs ++ ['"'])) = [] := by
  have hopen : (Nesting.mk d false).step '"' = ⟨d, true⟩ := rfl
  have hquote : (Nesting.mk d false).exposes '"' = false := by simp [Nesting.exposes]
  rw [Nesting.exposed, hquote, hopen, Nesting.exposed_append, exposed_quoted h, after_quoted h]
  rfl

theorem balanced_quotes {cs : List Char} (h : '"' ∉ cs) : Balanced ('"' :: (cs ++ ['"'])) where
  after d := by
    have hopen : (Nesting.mk d false).step '"' = ⟨d, true⟩ := rfl
    rw [Nesting.after_cons, hopen, Nesting.after_append, after_quoted h]
    rfl
  hidden d _ := exposed_quotes h d

/-! ## Scanning past a text -/

/-- What a scan stops at is in the open. -/
theorem exposes_of_cutTopFrom? {hit : List Char → Bool} {n : Nesting} {cs l r : List Char}
    {c : Char} (h : cutTopFrom? hit n cs = some (l, c :: r)) : (n.after l).exposes c = true := by
  induction cs generalizing n l with
  | nil => cases h
  | cons d cs ih =>
    rw [cutTopFrom?] at h
    split at h
    · next hhit =>
      cases h
      exact (Bool.and_eq_true_iff.1 hhit).1
    · obtain ⟨⟨l', r'⟩, hcut, heq⟩ := Option.map_eq_some_iff.1 h
      cases heq
      rw [Nesting.after_cons]
      exact ih hcut

/-- A scan passes over a text where every hit would need a character of a class, and no character
in the open is of that class. -/
theorem cutTopFrom?_append {hit : List Char → Bool} {p : Char → Bool}
    (hhit : ∀ c cs, hit (c :: cs) = true → p c = true) {n : Nesting} {l : List Char}
    (h : ∀ c ∈ n.exposed l, p c = false) (r : List Char) :
    cutTopFrom? hit n (l ++ r) =
      (cutTopFrom? hit (n.after l) r).map fun cut => (l ++ cut.1, cut.2) := by
  induction l generalizing n with
  | nil =>
    rw [List.nil_append, Nesting.after_nil]
    cases cutTopFrom? hit n r <;> rfl
  | cons c l ih =>
    have hmiss : (n.exposes c && hit (c :: (l ++ r))) = false := by
      rw [Bool.and_eq_false_iff]
      cases hexposes : n.exposes c with
      | false => exact .inl rfl
      | true =>
        have hc : p c = false := h c (by simp [Nesting.exposed, hexposes])
        refine .inr (Bool.eq_false_iff.2 fun hcut => ?_)
        rw [hhit c _ hcut] at hc
        cases hc
    have hrest : ∀ x ∈ (n.step c).exposed l, p x = false := by
      intro x hx
      refine h x ?_
      rw [Nesting.exposed]
      split
      · exact List.mem_cons_of_mem _ hx
      · exact hx
    rw [List.cons_append, cutTopFrom?, hmiss, ih hrest, Nesting.after_cons]
    cases cutTopFrom? hit ((n.step c).after l) r <;> rfl

/-- Where hits do not depend on what is behind a text, a scan over more text stops at the first hit
in the first part, and otherwise goes on in the second part. -/
theorem cutTopFrom?_append_of_agree {hit : List Char → Bool} {r : List Char}
    (hagree : ∀ c cs, hit (c :: (cs ++ r)) = hit (c :: cs)) (n : Nesting) (l : List Char) :
    cutTopFrom? hit n (l ++ r) =
      ((cutTopFrom? hit n l).map fun cut => (cut.1, cut.2 ++ r)).or
        ((cutTopFrom? hit (n.after l) r).map fun cut => (l ++ cut.1, cut.2)) := by
  induction l generalizing n with
  | nil => cases hcut : cutTopFrom? hit n r <;> simp [cutTopFrom?, hcut]
  | cons c l ih =>
    rw [List.cons_append, cutTopFrom?, cutTopFrom?, hagree, ih, Nesting.after_cons]
    split
    · rfl
    · cases cutTopFrom? hit (n.step c) l with
      | some cut => rfl
      | none => cases cutTopFrom? hit ((n.step c).after l) r <;> rfl

theorem cutTop?_eq_none {hit : List Char → Bool} {p : Char → Bool}
    (hhit : ∀ c cs, hit (c :: cs) = true → p c = true) {cs : List Char}
    (h : ∀ c ∈ Nesting.top.exposed cs, p c = false) : cutTop? hit cs = none := by
  have hscan := cutTopFrom?_append hhit h []
  rw [List.append_nil] at hscan
  rw [cutTop?, hscan]
  rfl

theorem cutTopAt?_eq_none {d : Char} {cs : List Char} (h : d ∉ Nesting.top.exposed cs) :
    cutTopAt? d cs = none := by
  have hcut : cutTop? (startsWith d) cs = none :=
    cutTop?_eq_none (p := fun c => c == d) (fun c cs hc => hc) fun c hc => by
      rw [beq_eq_false_iff_ne]
      rintro rfl
      exact h hc
  rw [cutTopAt?, hcut]
  rfl

theorem cutTopAt?_append_cons {d : Char} (hd : Nesting.top.exposes d = true) {l : List Char}
    (hl : Nesting.top.after l = Nesting.top) (h : d ∉ Nesting.top.exposed l) (r : List Char) :
    cutTopAt? d (l ++ d :: r) = some (l, r) := by
  have hopen : ∀ c ∈ Nesting.top.exposed l, (c == d) = false := by
    intro c hc
    rw [beq_eq_false_iff_ne]
    rintro rfl
    exact h hc
  have hscan := cutTopFrom?_append (fun c cs (hc : startsWith d (c :: cs) = true) => hc) hopen
    (d :: r)
  have hcut : cutTopFrom? (startsWith d) Nesting.top (d :: r) = some ([], d :: r) := by
    simp [cutTopFrom?, hd, startsWith]
  rw [cutTopAt?, cutTop?, hscan, hl, hcut]
  simp

/-! ## Splitting -/

theorem splitTop_of_none {d : Char} {cs : List Char} (h : cutTopAt? d cs = none) :
    splitTop d cs = [cs] := by
  rw [splitTop]
  split
  · rfl
  · next hcut => simp [h] at hcut

theorem splitTop_of_some {d : Char} {cs piece rest : List Char}
    (h : cutTopAt? d cs = some (piece, rest)) : splitTop d cs = piece :: splitTop d rest := by
  rw [splitTop]
  split
  · next hcut => simp [h] at hcut
  · next hcut =>
    rw [h] at hcut
    cases hcut
    rfl

theorem splitTop_ne_nil (d : Char) (cs : List Char) : splitTop d cs ≠ [] := by
  cases h : cutTopAt? d cs with
  | none => simp [splitTop_of_none h]
  | some cut => simp [splitTop_of_some h]

theorem joinWith_splitTop (d : Char) (cs : List Char) : joinWith [d] (splitTop d cs) = cs := by
  fun_induction splitTop d cs with
  | case1 => rfl
  | case2 cs piece rest hcut ih =>
    rw [joinWith_cons [d] piece (splitTop_ne_nil d rest), ih, append_of_cutTopAt? hcut,
      List.append_assoc]
    rfl

theorem splitTop_joinWith {d : Char} (hd : Nesting.top.exposes d = true)
    {pieces : List (List Char)} (hne : pieces ≠ [])
    (h : ∀ piece ∈ pieces, Balanced piece ∧ d ∉ Nesting.top.exposed piece) :
    splitTop d (joinWith [d] pieces) = pieces := by
  induction pieces with
  | nil => exact absurd rfl hne
  | cons piece pieces ih =>
    obtain ⟨hbalanced, hpiece⟩ := h piece List.mem_cons_self
    by_cases hnil : pieces = []
    · subst hnil
      exact splitTop_of_none (cutTopAt?_eq_none hpiece)
    · have hcut := cutTopAt?_append_cons hd hbalanced.after_top hpiece (joinWith [d] pieces)
      rw [joinWith_cons [d] piece hnil, List.append_assoc, List.singleton_append,
        splitTop_of_some hcut, ih hnil fun p hp => h p (List.mem_cons_of_mem _ hp)]

end TypeRules.Text
