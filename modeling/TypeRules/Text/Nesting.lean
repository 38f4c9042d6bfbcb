/-! # Nesting inside a text

A character of a rule text counts as a separator only outside of parentheses, angle
brackets and double quotes.  A `Nesting` says how deep a scan is at one place of a text.
Quotes hide everything up to the next quote; the two kinds of brackets open and close the
same depth; a closing bracket that nothing opened changes nothing.

* `Nesting.step` reads one character, `Nesting.after` a whole text.
* `cutTop?` cuts a text at the first exposed place that a test picks.
* `splitTop` cuts at every exposed occurrence of a separator, beginning anew behind each.
* `splitTopOnce` does so in a single scan.
-/

namespace TypeRules.Text

/-! ## Depth -/

/-- How deep a scan is: brackets open around it, and whether it is inside of quotes. -/
structure Nesting where
  depth : Nat
  quoted : Bool
  deriving DecidableEq, Repr

def Nesting.top : Nesting := ⟨0, false⟩

def Nesting.step (n : Nesting) (c : Char) : Nesting :=
  -- Inside of quotes nothing counts but the closing quote.
  if n.quoted then ⟨n.depth, c != '"'⟩
  else if c = '"' then ⟨n.depth, true⟩
  else if c = '(' ∨ c = '<' then ⟨n.depth + 1, false⟩
  else if c = ')' ∨ c = '>' then ⟨n.depth - 1, false⟩
  else n

def Nesting.after (n : Nesting) (cs : List Char) : Nesting := cs.foldl Nesting.step n

/-- Whether a character is in the open: it stands outside of brackets and quotes and
opens neither. -/
def Nesting.exposes (n : Nesting) (c : Char) : Bool :=
  !n.quoted && n.depth == 0 && c != '"' && c != '(' && c != '<'

/-! ## Cutting in the open -/

/-- The text before the first exposed place where `hit` holds of the text from there on,
and that text. -/
def cutTopFrom? (hit : List Char → Bool) : Nesting → List Char → Option (List Char × List Char)
  | _, [] => none
  | n, c :: cs =>
    if n.exposes c && hit (c :: cs) then some ([], c :: cs)
    else (cutTopFrom? hit (n.step c) cs).map fun (l, r) => (c :: l, r)

/-- The first cut of a whole text, see `cutTopFrom?`. -/
def cutTop? (hit : List Char → Bool) (cs : List Char) : Option (List Char × List Char) :=
  cutTopFrom? hit Nesting.top cs

def startsWith (d : Char) : List Char → Bool
  | [] => false
  | c :: _ => c == d

/-- The text before and after the first exposed occurrence of a character. -/
def cutTopAt? (d : Char) (cs : List Char) : Option (List Char × List Char) :=
  (cutTop? (startsWith d) cs).map fun (l, r) => (l, r.tail)

theorem append_of_cutTopFrom? {hit : List Char → Bool} {n : Nesting} {cs l r : List Char}
    (h : cutTopFrom? hit n cs = some (l, r)) : cs = l ++ r ∧ r ≠ [] ∧ hit r = true := by
  induction cs generalizing n l with
  | nil => simp [cutTopFrom?] at h
  | cons c cs ih =>
    rw [cutTopFrom?] at h
    split at h
    · next hc =>
      simp only [Option.some.injEq, Prod.mk.injEq] at h
      obtain ⟨rfl, rfl⟩ := h
      exact ⟨rfl, by simp, (Bool.and_eq_true_iff.1 hc).2⟩
    · simp only [Option.map_eq_some_iff, Prod.exists, Prod.mk.injEq] at h
      obtain ⟨l', r', hcut, rfl, rfl⟩ := h
      obtain ⟨rfl, hr⟩ := ih hcut
      exact ⟨rfl, hr⟩

theorem append_of_cutTopAt? {d : Char} {cs l r : List Char}
    (h : cutTopAt? d cs = some (l, r)) : cs = l ++ d :: r := by
  simp only [cutTopAt?, Option.map_eq_some_iff, Prod.exists, Prod.mk.injEq] at h
  obtain ⟨l', r', hcut, rfl, rfl⟩ := h
  obtain ⟨rfl, hne, hhit⟩ := append_of_cutTopFrom? hcut
  cases r' with
  | nil => simp at hne
  | cons c cs =>
    simp only [startsWith, beq_iff_eq] at hhit
    subst hhit
    rfl

/-! ## Splitting -/

/-- The pieces between the exposed occurrences of a separator.  Each piece is looked for
as in a text of its own: behind a cut the scan is outside of everything. -/
def splitTop (d : Char) (cs : List Char) : List (List Char) :=
  match _h : cutTopAt? d cs with
  | none => [cs]
  | some (piece, rest) => piece :: splitTop d rest
termination_by cs.length
decreasing_by
  rw [append_of_cutTopAt? _h]
  simp only [List.length_append, List.length_cons]
  omega

/-- The same pieces from one scan over the whole text. -/
def splitTopOnceFrom (d : Char) : Nesting → List Char → List (List Char)
  | _, [] => [[]]
  | n, c :: cs =>
    if n.exposes c && c == d then [] :: splitTopOnceFrom d (n.step c) cs
    else
      match splitTopOnceFrom d (n.step c) cs with
      | [] => [[c]]
      | piece :: pieces => (c :: piece) :: pieces

/-- The pieces of a whole text by a single scan. -/
def splitTopOnce (d : Char) (cs : List Char) : List (List Char) :=
  splitTopOnceFrom d Nesting.top cs

/-- A piece is no longer than the text it was cut from. -/
theorem length_le_of_mem_splitTop {d : Char} {cs piece : List Char}
    (h : piece ∈ splitTop d cs) : piece.length ≤ cs.length := by
  fun_induction splitTop d cs with
  | case1 cs _ => simp_all
  | case2 cs l r hcut ih =>
    have hcs := congrArg List.length (append_of_cutTopAt? hcut)
    simp only [List.length_append, List.length_cons] at hcs
    rcases List.mem_cons.1 h with rfl | h
    · omega
    · have := ih h
      omega

end TypeRules.Text
