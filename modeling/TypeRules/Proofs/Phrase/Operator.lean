import TypeRules.Phrase.Reader
import TypeRules.Proofs.Source

/-! # The operator of a rule text

* `Operator.sign` is the short form in which an operator is written.
* `Operator.cut?_sign` — behind a text in which no operator can begin in the open, an operator
  among blanks is found.
* `Phrase.readText_sign` — a text of this shape is read as the two sides of its operator.
* `Phrase.readText_textOf` — such a text is one with a source, with a format or without one.
-/

namespace TypeRules

open Text

namespace Operator

/-! ## Signs -/

def sign : Operator → List Char
  | map => "=>".toList
  | annotate => "@".toList
  | implement => "=+".toList

theorem atStart?_sign (operator : Operator) (cs : List Char) :
    atStart? (operator.sign ++ cs) = some (operator, cs) := by
  cases operator <;> rfl

/-- A character with which an operator may begin. -/
def isOpener (c : Char) : Bool := c == '=' || c == '@' || c == ' '

/-- No operator begins with a character of a class that has none of these. -/
theorem isOpener_of_class {p : Char → Bool} (hequals : p '=' = false) (hat : p '@' = false)
    (hblank : p ' ' = false) {c : Char} (h : p c = true) : isOpener c = false := by
  simp [isOpener, ne_of_class h hequals, ne_of_class h hat, ne_of_class h hblank]

def begins (cs : List Char) : Bool := (atStart? cs).isSome

theorem isOpener_of_begins (c : Char) (cs : List Char) (h : begins (c :: cs) = true) :
    isOpener c = true := by
  rw [begins, atStart?.eq_def] at h
  split at h
  · next heq => cases heq; rfl
  · next heq => cases heq; rfl
  · next heq => cases heq; rfl
  · rw [Option.isSome_map] at h
    obtain ⟨rest, hrest⟩ := Option.isSome_iff_exists.1 h
    have hword := eq_of_withoutPrefix? hrest
    obtain ⟨rfl, -⟩ := List.cons.inj hword
    rfl

theorem atStart?_blank_sign (operator : Operator) (cs : List Char) :
    atStart? (' ' :: (operator.sign ++ cs)) = none := by
  cases operator <;> rfl

/-! ## The cut -/

theorem cutTopFrom?_blank_sign (operator : Operator) (cs : List Char) :
    cutTopFrom? begins Nesting.top (' ' :: (operator.sign ++ cs)) =
      some ([' '], operator.sign ++ cs) := by
  -- A blank begins an operator only in front of a word.
  have hblank : (Nesting.top.exposes ' ' && begins (' ' :: (operator.sign ++ cs))) = false := by
    rw [begins, atStart?_blank_sign]
    rfl
  have hstep : Nesting.top.step ' ' = Nesting.top := by decide
  have hsign : cutTopFrom? begins Nesting.top (operator.sign ++ cs) =
      some ([], operator.sign ++ cs) := by
    cases operator <;> rfl
  rw [cutTopFrom?, hblank, hstep, hsign]
  rfl

theorem cut?_sign {left : List Char} (hafter : Nesting.top.after left = Nesting.top)
    (h : ∀ c ∈ Nesting.top.exposed left, isOpener c = false) (operator : Operator)
    (cs : List Char) :
    cut? (left ++ ' ' :: (operator.sign ++ cs)) = some (left ++ [' '], operator, cs) := by
  have hscan := cutTopFrom?_append isOpener_of_begins h (' ' :: (operator.sign ++ cs))
  rw [hafter, cutTopFrom?_blank_sign] at hscan
  have hcut : cutTop? (fun cs => (atStart? cs).isSome) (left ++ ' ' :: (operator.sign ++ cs)) =
      some (left ++ [' '], operator.sign ++ cs) := hscan
  rw [cut?, hcut]
  simp [atStart?_sign]

end Operator

/-! ## The two sides -/

namespace Phrase

theorem readText_of_cut? {text : String} {left right : List Char} {operator : Operator}
    (hcut : Operator.cut? (trim text.toList) = some (left, operator, right))
    (hleft : trim left ≠ []) (hright : trim right ≠ []) :
    readText text = (readSides (Source.readRule (trim left)) operator (trim right)).mapError
      (.unreadable text) := by
  have hne : trim text.toList ≠ [] := by
    intro hnil
    rw [hnil] at hcut
    cases hcut
  rw [readText]
  simp [hcut, hleft, hright, hne]

/-- Two sides with an operator among blanks between them, of which the left one gives no
operator away, are read as these sides. -/
theorem readText_sign {left right : List Char} (hleft : Trimmed left) (hleft' : left ≠ [])
    (hright : Trimmed right) (hright' : right ≠ [])
    (hafter : Nesting.top.after left = Nesting.top)
    (hopener : ∀ c ∈ Nesting.top.exposed left, Operator.isOpener c = false)
    {operator : Operator} {text : String}
    (htext : text.toList = left ++ ' ' :: (operator.sign ++ ' ' :: right)) :
    readText text = (readSides (Source.readRule left) operator right).mapError
      (.unreadable text) := by
  have htrim : trim text.toList = left ++ ' ' :: (operator.sign ++ ' ' :: right) := by
    have htrimmed := trimmed_append hleft hleft' hright hright' (' ' :: (operator.sign ++ [' ']))
    rw [htext]
    refine trim_eq_self ?_
    simpa using htrimmed
  have hcut : Operator.cut? (trim text.toList) = some (left ++ [' '], operator, ' ' :: right) := by
    rw [htrim, Operator.cut?_sign hafter hopener]
  have hfront : trim (left ++ [' ']) = left := by
    rw [trim_append_blanks blanks_space, trim_eq_self hleft]
  have hback : trim (' ' :: right) = right := by
    rw [← List.singleton_append, trim_blanks_append blanks_space, trim_eq_self hright]
  have hread := readText_of_cut? hcut (by rwa [hfront]) (by rwa [hback])
  rwa [hfront, hback] at hread

/-! ## Sources in front of an operator -/

theorem isOpener_of_mem_textOf {name : String} {format : Option String} (hname : SourceText name)
    (hformat : ∀ f ∈ format, SourceText f) :
    ∀ c ∈ (Source.textOf (some name) format).toList, Operator.isOpener c = false := by
  intro c hc
  rcases Source.isSourceChar_or_colon_of_mem_textOf hname hformat c hc with h | rfl
  · exact Operator.isOpener_of_class (by decide) (by decide) (by decide) h
  · decide

theorem readText_textOf {name : String} {format : Option String} (hname : SourceText name)
    (hformat : ∀ f ∈ format, SourceText f) {right : List Char} (hright : Trimmed right)
    (hright' : right ≠ []) {operator : Operator} {text : String}
    (htext : text.toList = (Source.textOf (some name) format).toList ++
      ' ' :: (operator.sign ++ ' ' :: right)) :
    readText text = (readSides ⟨name, format⟩ operator right).mapError (.unreadable text) := by
  have hquiet := Source.isQuiet_of_mem_textOf hname hformat
  have hopener := isOpener_of_mem_textOf hname hformat
  rw [readText_sign (Source.trimmed_textOf hname hformat) (Source.textOf_ne_nil hname) hright
    hright' (balanced_of_isQuiet hquiet).after_top
    (fun c hc => hopener c (Nesting.mem_of_mem_exposed hc)) htext,
    Source.readRule_textOf hname hformat]

end Phrase

end TypeRules
