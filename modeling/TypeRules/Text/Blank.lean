/-! # Blanks and trimming

Rule texts are trimmed at many places, always by the same class of characters: the
Unicode property `White_Space`.  Texts are handled as lists of characters while they
are cut apart, and as strings once they are stored.

* `isBlank` decides the property.
* `trimStart`, `trimEnd`, `trim` remove blanks from one or both ends.
* `Trimmed` says that there is nothing left to remove; `trim` always gets there and
  leaves such a text alone.
-/

namespace TypeRules.Text

/-! ## The class of blanks -/

def isBlank (c : Char) : Bool :=
  let n := c.toNat
  (9 ≤ n && n ≤ 13) || n == 0x20 || n == 0x85 || n == 0xA0 || n == 0x1680 ||
    (0x2000 ≤ n && n ≤ 0x200A) || n == 0x2028 || n == 0x2029 || n == 0x202F ||
    n == 0x205F || n == 0x3000

/-! ## Trimming -/

def trimStart (cs : List Char) : List Char := cs.dropWhile isBlank

def trimEnd (cs : List Char) : List Char := (cs.reverse.dropWhile isBlank).reverse

def trim (cs : List Char) : List Char := trimEnd (trimStart cs)

def Trimmed (cs : List Char) : Prop :=
  (∀ c ∈ cs.head?, isBlank c = false) ∧ (∀ c ∈ cs.getLast?, isBlank c = false)

@[simp] theorem trimStart_nil : trimStart [] = [] := rfl
@[simp] theorem trimEnd_nil : trimEnd [] = [] := rfl
@[simp] theorem trim_nil : trim [] = [] := rfl

theorem trimStart_cons (c : Char) (cs : List Char) :
    trimStart (c :: cs) = if isBlank c then trimStart cs else c :: cs := by
  simp [trimStart, List.dropWhile_cons]

theorem trimStart_isSuffix (cs : List Char) : trimStart cs <:+ cs :=
  List.dropWhile_suffix _

theorem trimEnd_isPrefix (cs : List Char) : trimEnd cs <+: cs := by
  have h : (cs.reverse.dropWhile isBlank) <:+ cs.reverse := List.dropWhile_suffix _
  simpa [trimEnd] using List.reverse_prefix.2 h

theorem trim_isInfix (cs : List Char) : trim cs <:+: cs :=
  (trimEnd_isPrefix _).isInfix.trans (trimStart_isSuffix _).isInfix

theorem length_trim_le (cs : List Char) : (trim cs).length ≤ cs.length :=
  (trim_isInfix cs).length_le

theorem mem_of_mem_trim {c : Char} {cs : List Char} (h : c ∈ trim cs) : c ∈ cs :=
  (trim_isInfix cs).subset h

/-- Whatever is left in front of a trimmed text is not blank. -/
theorem head_trimStart {c : Char} {cs : List Char} (h : c ∈ (trimStart cs).head?) :
    isBlank c = false := by
  induction cs with
  | nil => simp at h
  | cons d ds ih =>
    rw [trimStart_cons] at h
    split at h
    · exact ih h
    · next hd =>
      simp only [List.head?_cons, Option.mem_def, Option.some.injEq] at h
      subst h
      simpa using hd

theorem last_trimEnd {c : Char} {cs : List Char} (h : c ∈ (trimEnd cs).getLast?) :
    isBlank c = false := by
  rw [trimEnd, List.getLast?_reverse] at h
  exact head_trimStart h

/-- A text without a blank in front keeps its front, whatever is cut off behind. -/
theorem head_of_isPrefix {xs ys : List Char} (h : xs <+: ys) {c : Char} (hc : c ∈ xs.head?) :
    c ∈ ys.head? := by
  obtain ⟨t, rfl⟩ := h
  cases xs with
  | nil => simp at hc
  | cons x xs => simpa using hc

theorem trimmed_trim (cs : List Char) : Trimmed (trim cs) :=
  ⟨fun _ h => head_trimStart (head_of_isPrefix (trimEnd_isPrefix _) h), fun _ h => last_trimEnd h⟩

theorem trimStart_eq_self {cs : List Char} (h : ∀ c ∈ cs.head?, isBlank c = false) :
    trimStart cs = cs := by
  cases cs with
  | nil => rfl
  | cons c cs => simp [trimStart_cons, h c (by simp)]

theorem trimEnd_eq_self {cs : List Char} (h : ∀ c ∈ cs.getLast?, isBlank c = false) :
    trimEnd cs = cs := by
  have : trimStart cs.reverse = cs.reverse := trimStart_eq_self (by simpa using h)
  rw [trimStart] at this
  rw [trimEnd, this, List.reverse_reverse]

theorem trim_eq_self {cs : List Char} (h : Trimmed cs) : trim cs = cs := by
  rw [trim, trimStart_eq_self h.1, trimEnd_eq_self h.2]

@[simp] theorem trim_trim (cs : List Char) : trim (trim cs) = trim cs :=
  trim_eq_self (trimmed_trim cs)

theorem trimStart_eq_nil_iff {cs : List Char} :
    trimStart cs = [] ↔ ∀ c ∈ cs, isBlank c = true := by
  induction cs with
  | nil => simp
  | cons c cs ih => by_cases h : isBlank c <;> simp [trimStart_cons, h, ih]

/-- Nothing is left exactly if there are only blanks. -/
theorem trim_eq_nil_iff {cs : List Char} : trim cs = [] ↔ ∀ c ∈ cs, isBlank c = true := by
  rw [← trimStart_eq_nil_iff]
  constructor
  · intro h
    have hall : ∀ c ∈ (trimStart cs).reverse, isBlank c = true :=
      trimStart_eq_nil_iff.1 (List.reverse_eq_nil_iff.1 h)
    cases hcs : trimStart cs with
    | nil => rfl
    | cons d ds =>
      have hd : isBlank d = false := head_trimStart (by simp [hcs] : d ∈ (trimStart cs).head?)
      have := hall d (by simp [hcs])
      simp [hd] at this
  · intro h
    simp [trim, h]

/-! ## Stored texts -/

/-- A string without the blanks at its ends. -/
def trimString (s : String) : String := String.ofList (trim s.toList)

@[simp] theorem toList_trimString (s : String) : (trimString s).toList = trim s.toList := by
  simp [trimString]

end TypeRules.Text
