import TypeRules.Annotation.Value
import TypeRules.Proofs.Text.Cut
import TypeRules.Proofs.Text.Trim
import TypeRules.Proofs.TypeRef.Name

/-! # What a value is made of

The text of a parameter is split into a value, which is written where the parameter stands, and the
type to be imported for it.

* `Identifier`, `IdentifierPath` and `Capitalised` are the notions by which values are told apart.
* `ParameterValue.SplitOf` lists the ways to split a text, `splitOf_read` says that there is always
  one of them.
* `read_reassembled` — value and import give the text back, each kind of value in its own way.
-/

namespace TypeRules

open Text

/-! ## Names in values -/

inductive Identifier : List Char → Prop where
  | mk {c : Char} {cs : List Char} (hstart : isIdentifierStart c = true)
      (hnext : ∀ x ∈ cs, isIdentifierNext x = true) : Identifier (c :: cs)

/-- Two or more identifiers with dots between them. -/
structure IdentifierPath (cs : List Char) : Prop where
  dot : '.' ∈ cs
  segment : ∀ segment ∈ splitAll '.' cs, Identifier segment

/-- The segment begins with an ASCII capital, as the names of types do. -/
def Capitalised (segment : List Char) : Prop := ∃ c ∈ segment.head?, c.isUpper = true

namespace ParameterValue

theorem isQualified_iff {cs : List Char} : isQualified cs = true ↔ IdentifierPath cs := by
  rw [isQualified, Bool.and_eq_true, List.contains_iff_mem, isDotted_eq_true_iff]
  constructor
  · rintro ⟨hdot, hsegments⟩
    refine ⟨hdot, fun segment hsegment => ?_⟩
    obtain ⟨c, rest, rfl, hstart, hnext⟩ := hsegments segment hsegment
    exact ⟨hstart, hnext⟩
  · rintro ⟨hdot, hsegments⟩
    refine ⟨hdot, fun segment hsegment => ?_⟩
    obtain ⟨hstart, hnext⟩ := hsegments segment hsegment
    exact ⟨_, _, rfl, hstart, hnext⟩

theorem isTypeSegment_iff {segment : List Char} :
    isTypeSegment segment = true ↔ Capitalised segment := by
  cases segment <;> simp [isTypeSegment, Capitalised]

instance (segment : List Char) : Decidable (Capitalised segment) :=
  decidable_of_iff _ isTypeSegment_iff

/-! ## Ways to split a text -/

/-- A text and the value that it is split into, with the import. -/
inductive SplitOf (cs : List Char) : ParameterValue → Prop where
  | literal (hquote : cs.head? = some '"') : SplitOf cs (.simple (String.ofList cs))
  | token (hquote : cs.head? ≠ some '"') (hclass : ¬ classSuffix <:+ cs)
      (hname : ¬ IdentifierPath cs) : SplitOf cs (.simple (String.ofList cs))
  /-- A class without a package. -/
  | bareClass {name : List Char} (hquote : cs.head? ≠ some '"') (hdot : '.' ∉ name)
      (hcs : cs = name ++ classSuffix) : SplitOf cs (.classRef (String.ofList cs) none)
  | classRef {package name : List Char} (hquote : cs.head? ≠ some '"') (hdot : '.' ∉ name)
      (hcs : cs = package ++ '.' :: name ++ classSuffix) :
      SplitOf cs (.classRef (String.ofList (name ++ classSuffix))
        (some (String.ofList (package ++ '.' :: name))))
  /-- A name without a type in it, or one that begins with its type. -/
  | bareName (hquote : cs.head? ≠ some '"') (hclass : ¬ classSuffix <:+ cs)
      (hname : IdentifierPath cs)
      (htype : (∀ segment ∈ splitAll '.' cs, ¬ Capitalised segment) ∨
        ∃ type rest, splitAll '.' cs = type :: rest ∧ Capitalised type) :
      SplitOf cs (.qualified (String.ofList cs) none)
  | qualified {front rest : List (List Char)} {type : List Char} (hquote : cs.head? ≠ some '"')
      (hclass : ¬ classSuffix <:+ cs) (hname : IdentifierPath cs) (hne : front ≠ [])
      (hfront : ∀ segment ∈ front, ¬ Capitalised segment) (htype : Capitalised type)
      (hcs : splitAll '.' cs = front ++ type :: rest) :
      SplitOf cs (.qualified (String.ofList (joinWith ['.'] (type :: rest)))
        (some (String.ofList (joinWith ['.'] (front ++ [type])))))

theorem splitOf_ofClass {cs path : List Char} (hquote : cs.head? ≠ some '"')
    (hcs : cs = path ++ classSuffix) : SplitOf cs (ofClass path) := by
  rw [ofClass]
  split
  · next package name hcut =>
    have hpath := append_of_cutAtLast? hcut
    rw [hpath] at hcs ⊢
    exact .classRef hquote (not_mem_of_cutAtLast? hcut) hcs
  · next hcut =>
    rw [← hcs]
    exact .bareClass hquote (cutAtLast?_eq_none_iff.1 hcut) hcs

theorem splitOf_ofQualified {cs : List Char} (hquote : cs.head? ≠ some '"')
    (hclass : ¬ classSuffix <:+ cs) (hname : IdentifierPath cs) : SplitOf cs (ofQualified cs) := by
  have hsplit : (splitAll '.' cs).takeWhile (fun segment => !isTypeSegment segment) ++
      (splitAll '.' cs).dropWhile (fun segment => !isTypeSegment segment) = splitAll '.' cs :=
    List.takeWhile_append_dropWhile
  have hlower : ∀ segment ∈ (splitAll '.' cs).takeWhile fun segment => !isTypeSegment segment,
      ¬ Capitalised segment := by
    intro segment hsegment
    have hmiss := List.all_eq_true.1 List.all_takeWhile segment hsegment
    rwa [Bool.not_eq_true', Bool.eq_false_iff, ne_eq, isTypeSegment_iff] at hmiss
  have htype : ∀ type rest,
      (splitAll '.' cs).dropWhile (fun segment => !isTypeSegment segment) = type :: rest →
        Capitalised type := by
    intro type rest hback
    have hhit := List.head?_dropWhile_not (fun segment => !isTypeSegment segment) (splitAll '.' cs)
    rw [hback] at hhit
    simpa [isTypeSegment_iff] using hhit
  rw [ofQualified]
  split
  · next first others type rest hfront hback =>
    rw [hback] at hsplit
    exact .qualified hquote hclass hname (hfront ▸ List.cons_ne_nil first others) hlower
      (htype type rest hback) hsplit.symm
  · next hnone =>
    refine .bareName hquote hclass hname ?_
    cases hback : (splitAll '.' cs).dropWhile fun segment => !isTypeSegment segment with
    | nil =>
      rw [hback, List.append_nil] at hsplit
      rw [hsplit] at hlower
      exact .inl hlower
    | cons type rest =>
      cases hfront : (splitAll '.' cs).takeWhile fun segment => !isTypeSegment segment with
      | nil =>
        rw [hfront, hback, List.nil_append] at hsplit
        exact .inr ⟨type, rest, hsplit.symm, htype type rest hback⟩
      | cons first others => exact absurd hback (hnone first others type rest hfront)

theorem splitOf_read (text : List Char) : SplitOf (trim text) (read text) := by
  rw [read]
  split
  · next hquote => exact .literal hquote
  · next hquote =>
    split
    · next path hpath => exact splitOf_ofClass hquote (eq_of_withoutSuffix? hpath)
    · next hpath =>
      have hclass : ¬ classSuffix <:+ trim text := by
        rintro ⟨path, hsuffix⟩
        rw [← hsuffix, withoutSuffix?_append] at hpath
        cases hpath
      split
      · next hname => exact splitOf_ofQualified hquote hclass (isQualified_iff.1 hname)
      · next hname => exact .token hquote hclass fun h => hname (isQualified_iff.2 h)

namespace SplitOf

variable {cs : List Char} {v : ParameterValue} {value path : String}

theorem text_eq (h : SplitOf cs v) (hnone : v.imported = none) : v.text.toList = cs := by
  cases h with
  | literal | token | bareClass | bareName => exact String.toList_ofList
  | classRef => cases hnone
  | qualified => cases hnone

theorem class_eq (h : SplitOf cs (.classRef value (some path))) :
    cs = path.toList ++ ".class".toList ∧
      ∃ package name, path.toList = package ++ '.' :: name ∧ '.' ∉ name ∧
        value.toList = name ++ ".class".toList := by
  cases h with
  | @classRef package name _ hdot hcs =>
    simp only [String.toList_ofList]
    exact ⟨hcs, package, name, rfl, hdot, rfl⟩

/-- The import and the value share the segment of the type. -/
theorem qualified_eq (h : SplitOf cs (.qualified value (some path))) :
    ∃ front type rest, front ≠ [] ∧ cs = front ++ '.' :: value.toList ∧
      path.toList = front ++ '.' :: type ∧ splitAll '.' value.toList = type :: rest ∧
      Capitalised type ∧ ∀ segment ∈ splitAll '.' front, ¬ Capitalised segment := by
  cases h with
  | @qualified front rest type _ _ hname hne hfront htype hcs =>
    have hdot : ∀ segment ∈ front ++ type :: rest, '.' ∉ segment := by
      intro segment hsegment
      exact not_mem_of_mem_splitAll (hcs ▸ hsegment)
    have hback : ∀ segment ∈ type :: rest, '.' ∉ segment := fun segment hsegment =>
      hdot segment (List.mem_append_right front hsegment)
    have hbefore : ∀ segment ∈ front, '.' ∉ segment := fun segment hsegment =>
      hdot segment (List.mem_append_left _ hsegment)
    have hwhole : cs = joinWith ['.'] front ++ '.' :: joinWith ['.'] (type :: rest) := by
      have hjoin := joinWith_append ['.'] hne (List.cons_ne_nil type rest)
      rw [← hcs, joinWith_splitAll] at hjoin
      rw [hjoin, List.append_assoc, List.singleton_append]
    have hpath : joinWith ['.'] (front ++ [type]) = joinWith ['.'] front ++ '.' :: type := by
      rw [joinWith_append ['.'] hne (List.cons_ne_nil type []), joinWith_singleton,
        List.append_assoc, List.singleton_append]
    have hnil : joinWith ['.'] front ≠ [] := by
      obtain ⟨first, others, rfl⟩ := List.exists_cons_of_ne_nil hne
      have hfirst : first ∈ splitAll '.' cs := hcs ▸ List.mem_cons_self
      obtain ⟨-, -⟩ := hname.segment first hfirst
      by_cases hothers : others = []
      · subst hothers
        exact List.cons_ne_nil _ _
      · rw [joinWith_cons _ _ hothers, List.append_assoc]
        exact List.cons_ne_nil _ _
    simp only [String.toList_ofList]
    exact ⟨joinWith ['.'] front, type, rest, hnil, hwhole, hpath,
      splitAll_joinWith (List.cons_ne_nil type rest) hback, htype,
      by rwa [splitAll_joinWith hne hbefore]⟩

theorem bareName_eq (h : SplitOf cs (.qualified value none)) :
    (∀ segment ∈ splitAll '.' value.toList, ¬ Capitalised segment) ∨
      ∃ type rest, splitAll '.' value.toList = type :: rest ∧ Capitalised type := by
  cases h with
  | bareName _ _ _ htype => rwa [String.toList_ofList]

theorem class_iff (h : SplitOf cs v) :
    (∃ value path, v = .classRef value path) ↔
      cs.head? ≠ some '"' ∧ ".class".toList <:+ cs := by
  cases h with
  | literal hquote => simp [hquote]
  | token _ hclass => exact iff_of_false (by simp) fun h => hclass h.2
  | bareClass hquote _ hcs =>
    exact iff_of_true ⟨_, _, rfl⟩ ⟨hquote, hcs ▸ List.suffix_append _ _⟩
  | classRef hquote _ hcs =>
    exact iff_of_true ⟨_, _, rfl⟩ ⟨hquote, hcs ▸ List.suffix_append _ _⟩
  | bareName _ hclass => exact iff_of_false (by simp) fun h => hclass h.2
  | qualified _ hclass => exact iff_of_false (by simp) fun h => hclass h.2

theorem qualified_iff (h : SplitOf cs v) :
    (∃ value path, v = .qualified value path) ↔
      cs.head? ≠ some '"' ∧ ¬ ".class".toList <:+ cs ∧ IdentifierPath cs := by
  cases h with
  | literal hquote => simp [hquote]
  | token _ _ hname => exact iff_of_false (by simp) fun h => hname h.2.2
  | bareClass _ _ hcs =>
    exact iff_of_false (by simp) fun h => h.2.1 (hcs ▸ List.suffix_append _ _)
  | classRef _ _ hcs =>
    exact iff_of_false (by simp) fun h => h.2.1 (hcs ▸ List.suffix_append _ _)
  | bareName hquote hclass hname => exact iff_of_true ⟨_, _, rfl⟩ ⟨hquote, hclass, hname⟩
  | qualified hquote hclass hname => exact iff_of_true ⟨_, _, rfl⟩ ⟨hquote, hclass, hname⟩

end SplitOf

/-! ## Main result -/

/-- Value and import give the text without the blanks around it back.

* A text that begins with a quote is a value as it is, and so is every text without an import.
* The import of a class is all in front of the suffix, and the value has its last segment.
* The import of a qualified name ends with the first segment that begins with a capital, and the
  value begins with it.

Which kind a value is of can be told from the quote, from the suffix and from the pattern of
qualified names, in this order. -/
theorem read_reassembled (cs : List Char) :
    ((trim cs).head? = some '"' → read cs = .simple (String.ofList (trim cs))) ∧
    ((read cs).imported = none → (read cs).text.toList = trim cs) ∧
    (∀ value path, read cs = .classRef value (some path) →
      trim cs = path.toList ++ ".class".toList ∧
      ∃ package name, path.toList = package ++ '.' :: name ∧ '.' ∉ name ∧
        value.toList = name ++ ".class".toList) ∧
    (∀ value path, read cs = .qualified value (some path) →
      ∃ front type rest, front ≠ [] ∧ trim cs = front ++ '.' :: value.toList ∧
        path.toList = front ++ '.' :: type ∧ splitAll '.' value.toList = type :: rest ∧
        Capitalised type ∧ ∀ segment ∈ splitAll '.' front, ¬ Capitalised segment) ∧
    (∀ value, read cs = .qualified value none →
      (∀ segment ∈ splitAll '.' value.toList, ¬ Capitalised segment) ∨
        ∃ type rest, splitAll '.' value.toList = type :: rest ∧ Capitalised type) ∧
    ((∃ value path, read cs = .classRef value path) ↔
      (trim cs).head? ≠ some '"' ∧ ".class".toList <:+ trim cs) ∧
    ((∃ value path, read cs = .qualified value path) ↔
      (trim cs).head? ≠ some '"' ∧ ¬ ".class".toList <:+ trim cs ∧ IdentifierPath (trim cs)) := by
  have hsplit := splitOf_read cs
  refine ⟨fun hquote => ?_, hsplit.text_eq, fun value path hread => ?_, fun value path hread => ?_,
    fun value hread => ?_, hsplit.class_iff, hsplit.qualified_iff⟩
  · rw [read, if_pos hquote]
  · exact (hread ▸ hsplit).class_eq
  · exact (hread ▸ hsplit).qualified_eq
  · exact (hread ▸ hsplit).bareName_eq

theorem read_reassembled_jsonFormat :
    let cs := " com.x.JsonFormat.Shape.NUMBER ".toList
    read cs = .qualified "JsonFormat.Shape.NUMBER" (some "com.x.JsonFormat") ∧
      ∃ front type rest, front ≠ [] ∧ trim cs = front ++ '.' :: "JsonFormat.Shape.NUMBER".toList ∧
        "com.x.JsonFormat".toList = front ++ '.' :: type ∧
        splitAll '.' "JsonFormat.Shape.NUMBER".toList = type :: rest ∧ Capitalised type ∧
        ∀ segment ∈ splitAll '.' front, ¬ Capitalised segment := by
  intro cs
  have hread : read cs = .qualified "JsonFormat.Shape.NUMBER" (some "com.x.JsonFormat") := by
    decide +kernel
  obtain ⟨-, -, -, hqualified, -⟩ := read_reassembled cs
  exact ⟨hread, hqualified _ _ hread⟩

end ParameterValue

end TypeRules
