import Mathlib.Data.List.Induction
import Mathlib.Data.List.Nodup
import TypeRules.Proofs.Annotation.Written
import TypeRules.Proofs.Phrase.Operator
import TypeRules.Proofs.Phrase.Reading

/-! # Parameters under the same key

The parameters of an annotation are read one after the other and put under their keys.  Where a
key comes again, the value replaces the one that was there.

* `Annotation.merge` does this for pairs that are read already; `Annotation.Merges` says what comes
  out: a key stands where it was written first, with the value that was written last.
* `length_merge_eq_iff`, `merge_eq_self_iff` — nothing is lost exactly if no key comes twice.
* `read_enclosed_eq_ok_iff` — an annotation is read exactly if its name and all its parameters
  are, whatever the keys are.
* `parameters_merged` is the statement about rule texts.
-/

namespace TypeRules

open Text

namespace Annotation

/-! ## One parameter more -/

section SetIn

variable (key : String) (value : ParameterValue)

theorem map_fst_setIn (parameters : List (String × ParameterValue)) :
    (setIn key value parameters).map Prod.fst =
      if key ∈ parameters.map Prod.fst then parameters.map Prod.fst
      else parameters.map Prod.fst ++ [key] := by
  induction parameters with
  | nil => rfl
  | cons p rest ih =>
    obtain ⟨k, v⟩ := p
    by_cases hk : k = key
    · simp [setIn, hk]
    · rw [setIn, if_neg hk, List.map_cons, ih]
      by_cases hmem : key ∈ rest.map Prod.fst
      · simp [hmem]
      · simp [hmem, Ne.symm hk]

theorem length_setIn (parameters : List (String × ParameterValue)) :
    (setIn key value parameters).length =
      if key ∈ parameters.map Prod.fst then parameters.length else parameters.length + 1 := by
  have hlength := congrArg List.length (map_fst_setIn key value parameters)
  rw [List.length_map] at hlength
  rw [hlength]
  split <;> simp

theorem mem_setIn_iff {parameters : List (String × ParameterValue)}
    (h : (parameters.map Prod.fst).Nodup) {p : String × ParameterValue} :
    p ∈ setIn key value parameters ↔ p = (key, value) ∨ (p.1 ≠ key ∧ p ∈ parameters) := by
  induction parameters with
  | nil => simp [setIn]
  | cons first rest ih =>
    obtain ⟨k, v⟩ := first
    rw [List.map_cons, List.nodup_cons] at h
    by_cases hk : k = key
    · subst hk
      have hrest : p ∈ rest → p.1 ≠ k := by
        intro hmem heq
        have hkey : p.1 ∈ rest.map Prod.fst := List.mem_map_of_mem hmem
        rw [heq] at hkey
        exact h.1 hkey
      rw [setIn, if_pos rfl, List.mem_cons, List.mem_cons]
      constructor
      · rintro (hp | hmem)
        · exact .inl hp
        · exact .inr ⟨hrest hmem, .inr hmem⟩
      · rintro (hp | ⟨hne, rfl | hmem⟩)
        · exact .inl hp
        · exact absurd rfl hne
        · exact .inr hmem
    · rw [setIn, if_neg hk, List.mem_cons, List.mem_cons, ih h.2]
      constructor
      · rintro (rfl | hp | ⟨hne, hmem⟩)
        · exact .inr ⟨hk, .inl rfl⟩
        · exact .inl hp
        · exact .inr ⟨hne, .inr hmem⟩
      · rintro (hp | ⟨hne, hp | hmem⟩)
        · exact .inr (.inl hp)
        · exact .inl hp
        · exact .inr (.inr ⟨hne, hmem⟩)

end SetIn

/-! ## All parameters -/

/-- The parameters that are left when pairs are put under their keys, from left to right. -/
def merge (pairs : List (String × ParameterValue)) : List (String × ParameterValue) :=
  pairs.foldl (fun parameters p => setIn p.1 p.2 parameters) []

theorem merge_append_singleton (pairs : List (String × ParameterValue))
    (p : String × ParameterValue) : merge (pairs ++ [p]) = setIn p.1 p.2 (merge pairs) := by
  rw [merge, List.foldl_append]
  rfl

/-- Every key that was written is there once, at the place where it was written first, and has
the value that was written last. -/
structure Merges (pairs parameters : List (String × ParameterValue)) : Prop where
  keys : parameters.map Prod.fst = (pairs.map Prod.fst).eraseDups
  distinct : (parameters.map Prod.fst).Nodup
  values : ∀ key value, (key, value) ∈ parameters ↔
    ∃ front back, pairs = front ++ (key, value) :: back ∧ key ∉ back.map Prod.fst

theorem Merges.mem_keys_iff {pairs parameters : List (String × ParameterValue)}
    (h : Merges pairs parameters) {key : String} :
    key ∈ parameters.map Prod.fst ↔ key ∈ pairs.map Prod.fst := by
  rw [h.keys, List.mem_eraseDups]

/-- What was written last stays last or gets a pair behind it. -/
theorem last_append_singleton_iff {pairs : List (String × ParameterValue)} {key key' : String}
    {value value' : ParameterValue} :
    (∃ front back, pairs ++ [(key', value')] = front ++ (key, value) :: back ∧
        key ∉ back.map Prod.fst) ↔
      (key, value) = (key', value') ∨ key ≠ key' ∧
        ∃ front back, pairs = front ++ (key, value) :: back ∧ key ∉ back.map Prod.fst := by
  constructor
  · rintro ⟨front, back, hpairs, hback⟩
    rcases List.eq_nil_or_concat back with rfl | ⟨back, p, rfl⟩
    · obtain ⟨-, hlast⟩ := List.append_inj' hpairs rfl
      exact .inl (List.cons.inj hlast).1.symm
    · rw [List.concat_eq_append, ← List.cons_append, ← List.append_assoc] at hpairs
      obtain ⟨rfl, hlast⟩ := List.append_inj' hpairs rfl
      obtain ⟨rfl, -⟩ := List.cons.inj hlast
      simp only [List.concat_eq_append, List.map_append, List.map_cons, List.map_nil,
        List.mem_append, List.mem_singleton, not_or] at hback
      exact .inr ⟨hback.2, front, back, rfl, hback.1⟩
  · rintro (heq | ⟨hne, front, back, rfl, hback⟩)
    · exact ⟨pairs, [], by rw [heq], List.not_mem_nil⟩
    · refine ⟨front, back ++ [(key', value')], by simp, ?_⟩
      simpa using ⟨fun v hv => hback (List.mem_map_of_mem hv), hne⟩

theorem merges_merge (pairs : List (String × ParameterValue)) : Merges pairs (merge pairs) := by
  -- Pairs come behind all others, so the induction is at the end of the list.
  induction pairs using List.reverseRecOn with
  | nil => exact ⟨rfl, List.nodup_nil, by simp [merge]⟩
  | append_singleton pairs p ih =>
    obtain ⟨key', value'⟩ := p
    have hkeys : (setIn key' value' (merge pairs)).map Prod.fst =
        if key' ∈ pairs.map Prod.fst then (merge pairs).map Prod.fst
        else (merge pairs).map Prod.fst ++ [key'] := by
      rw [map_fst_setIn]
      simp only [ih.mem_keys_iff]
    rw [merge_append_singleton]
    refine ⟨?_, ?_, fun key value => ?_⟩
    · rw [hkeys, List.map_append, List.eraseDups_append, ih.keys]
      split
      · next hmem => simp [List.removeAll, hmem]
      · next hmem => simp [List.removeAll, hmem, List.eraseDups_cons]
    · rw [hkeys]
      split
      · exact ih.distinct
      · next hmem =>
        rw [← ih.mem_keys_iff] at hmem
        rw [← List.concat_eq_append]
        exact ih.distinct.concat hmem
    · rw [mem_setIn_iff key' value' ih.distinct, last_append_singleton_iff, ih.values]

theorem length_merge_append_singleton (pairs : List (String × ParameterValue))
    (p : String × ParameterValue) :
    (merge (pairs ++ [p])).length =
      if p.1 ∈ pairs.map Prod.fst then (merge pairs).length else (merge pairs).length + 1 := by
  rw [merge_append_singleton, length_setIn]
  simp only [(merges_merge pairs).mem_keys_iff]

theorem length_merge_le (pairs : List (String × ParameterValue)) :
    (merge pairs).length ≤ pairs.length := by
  induction pairs using List.reverseRecOn with
  | nil => exact Nat.le_refl 0
  | append_singleton pairs p ih =>
    rw [length_merge_append_singleton, List.length_append, List.length_singleton]
    split <;> omega

theorem nodup_append_singleton_iff {pairs : List (String × ParameterValue)}
    {p : String × ParameterValue} :
    ((pairs ++ [p]).map Prod.fst).Nodup ↔
      p.1 ∉ pairs.map Prod.fst ∧ (pairs.map Prod.fst).Nodup := by
  rw [List.map_append, List.map_singleton, ← List.concat_eq_append, List.nodup_concat]

theorem length_merge_eq_iff {pairs : List (String × ParameterValue)} :
    (merge pairs).length = pairs.length ↔ (pairs.map Prod.fst).Nodup := by
  induction pairs using List.reverseRecOn with
  | nil => simp [merge]
  | append_singleton pairs p ih =>
    have hle := length_merge_le pairs
    rw [length_merge_append_singleton, List.length_append, List.length_singleton,
      nodup_append_singleton_iff, ← ih]
    split
    · next hmem =>
      constructor
      · intro h
        omega
      · rintro ⟨hnot, -⟩
        exact absurd hmem hnot
    · next hmem =>
      constructor
      · intro h
        exact ⟨hmem, by omega⟩
      · rintro ⟨-, h⟩
        omega

theorem merge_eq_self_iff {pairs : List (String × ParameterValue)} :
    merge pairs = pairs ↔ (pairs.map Prod.fst).Nodup := by
  constructor
  · intro h
    rw [← length_merge_eq_iff, h]
  · intro h
    induction pairs using List.reverseRecOn with
    | nil => rfl
    | append_singleton pairs p ih =>
      obtain ⟨hnot, hnodup⟩ := nodup_append_singleton_iff.1 h
      rw [merge_append_singleton, ih hnodup, setIn_of_not_mem hnot]

/-! ## Reading -/

theorem readParameters_eq_ok_iff {a b : Annotation} {pieces : List (List Char)} :
    readParameters a pieces = .ok b ↔
      ∃ pairs, List.Forall₂ (fun piece p => readParameter piece = .ok p) pieces pairs ∧
        b = { a with
          parameters := pairs.foldl (fun parameters p => setIn p.1 p.2 parameters)
            a.parameters } := by
  induction pieces generalizing a with
  | nil =>
    constructor
    · intro h
      cases h
      exact ⟨[], .nil, rfl⟩
    · rintro ⟨pairs, hpairs, rfl⟩
      cases hpairs
      rfl
  | cons piece pieces ih =>
    rw [readParameters, bind_eq_ok_iff]
    constructor
    · rintro ⟨⟨key, value⟩, hread, hrest⟩
      obtain ⟨pairs, hpairs, rfl⟩ := ih.1 hrest
      exact ⟨(key, value) :: pairs, .cons hread hpairs, rfl⟩
    · rintro ⟨pairs, hpairs, rfl⟩
      cases hpairs with
      | @cons _ p _ rest hread hrest => exact ⟨p, hread, ih.2 ⟨rest, hrest, rfl⟩⟩

/-- An annotation with parentheses is read as its name and what is between the parentheses. -/
theorem read_enclosed {cs name inner : List Char}
    (hcs : trim cs = name ++ '(' :: (inner ++ [')'])) (hname : '(' ∉ name) :
    read cs = TypeRef.readName name >>= fun name =>
      if (trim inner).isEmpty then .ok (ofName name)
      else readParameters (ofName name) (splitTop ',' inner) := by
  have hopen : cutAt? (· == '(') (trim cs) = some (name, inner ++ [')']) := by
    rw [hcs]
    refine cutAt?_append_cons (fun c hc => beq_eq_false_iff_ne.2 ?_) rfl _
    rintro rfl
    exact hname hc
  have hclose : withoutSuffix? [')'] (trimEnd (inner ++ [')'])) = some inner := by
    rw [trimEnd_eq_self, withoutSuffix?_append]
    intro c hc
    rw [List.getLast?_concat] at hc
    cases hc
    rfl
  exact read_of_parentheses hopen hclose

/-- The text between the first parenthesis and the last decides about the parameters, and their
keys decide about nothing. -/
theorem read_enclosed_eq_ok_iff {cs name inner : List Char}
    (hcs : trim cs = name ++ '(' :: (inner ++ [')'])) (hname : '(' ∉ name)
    (hinner : ¬ Blanks inner) {a : Annotation} :
    read cs = .ok a ↔ TypeRef.readName name = .ok a.typeName ∧
      ∃ pairs, List.Forall₂ (fun piece p => readParameter piece = .ok p) (splitTop ',' inner)
          pairs ∧ a.parameters = merge pairs := by
  have hempty : ¬ (trim inner).isEmpty = true := by
    rwa [List.isEmpty_iff, trim_eq_nil_iff]
  obtain ⟨typeName, parameters⟩ := a
  rw [read_enclosed hcs hname, bind_eq_ok_iff]
  simp only [if_neg hempty, readParameters_eq_ok_iff]
  constructor
  · rintro ⟨name, hread, pairs, hpairs, heq⟩
    cases heq
    exact ⟨hread, pairs, hpairs, rfl⟩
  · rintro ⟨hread, pairs, hpairs, rfl⟩
    exact ⟨typeName, hread, pairs, hpairs, rfl⟩

end Annotation

/-! ## Main result -/

namespace Phrase

/-- The text of the annotation in a rule text: all that is behind the sign `@`, or what is in
front of a target. -/
inductive AnnotatedBy (text : String) (cs : List Char) : Prop where
  | alone {left : List Char} (h : Sides text left .annotate cs) : AnnotatedBy text cs
  | beforeTarget {left right back : List Char} (h : Sides text left .map right)
      (hcut : cutAnnotation right = (some cs, back)) : AnnotatedBy text cs

theorem Sides.unique {text : String} {l l' r r' : List Char} {operator operator' : Operator}
    (h : Sides text l operator r) (h' : Sides text l' operator' r') :
    l = l' ∧ operator = operator' ∧ r = r' := by
  obtain ⟨left, right, hcut, rfl, rfl⟩ := h.cut
  obtain ⟨left', right', hcut', rfl, rfl⟩ := h'.cut
  rw [hcut] at hcut'
  cases hcut'
  exact ⟨rfl, rfl, rfl⟩

theorem AnnotatedBy.unique {text : String} {cs cs' : List Char} (h : AnnotatedBy text cs)
    (h' : AnnotatedBy text cs') : cs = cs' := by
  cases h with
  | alone h =>
    cases h' with
    | alone h' => exact (h.unique h').2.2
    | beforeTarget h' _ => cases (h.unique h').2.1
  | beforeTarget h hcut =>
    cases h' with
    | alone h' => cases (h.unique h').2.1
    | beforeTarget h' hcut' =>
      obtain ⟨-, -, rfl⟩ := h.unique h'
      rw [hcut] at hcut'
      cases hcut'
      rfl

theorem AnnotatedBy.trim_eq {text : String} {cs : List Char} (h : AnnotatedBy text cs) :
    trim cs = cs := by
  cases h with
  | alone h =>
    obtain ⟨l, r, -, -, rfl⟩ := h.cut
    exact trim_trim r
  | beforeTarget h hcut =>
    unfold cutAnnotation at hcut
    split at hcut
    · next front back _ =>
      cases hcut
      exact trim_trim front
    · cases hcut

theorem exists_annotatedBy {text : String} {phrase : Phrase} (h : readText text = .ok phrase)
    {a : Annotation} (ha : a ∈ phrase.annotation?) :
    ∃ cs, AnnotatedBy text cs ∧ Annotation.read cs = .ok a := by
  cases reads_of_readText h with
  | name _ _ _ => cases ha
  | target _ _ _ => cases ha
  | map hsides hcut hmark _ =>
    cases hmark with
    | none => cases ha
    | some hread =>
      cases ha
      exact ⟨_, .beforeTarget hsides hcut, hread⟩
  | annotate hsides hread =>
    cases ha
    exact ⟨_, .alone hsides, hread⟩
  | implement _ _ => cases ha

theorem readText_of_sides_annotate {text : String} {left right : List Char}
    (h : Sides text left .annotate right) {a : Annotation} (ha : Annotation.read right = .ok a) :
    readText text = .ok (.annotate (Source.readRule left) a) := by
  obtain ⟨l, r, hcut, rfl, rfl⟩ := h.cut
  rw [readText_of_cut? hcut h.left_ne_nil h.right_ne_nil]
  simp only [readSides, ha]
  rfl

/-- If a rule text with an annotation is read, the parameters are what is left of the pairs that
are read from the segments of the text in parentheses: every key in the place of its first pair,
with the value of its last one.  So there are as many of them as there are segments, and these in
the same order, exactly if no key comes twice; and a text is not refused for keys that do. -/
theorem parameters_merged (text : String) :
    (∀ phrase, readText text = .ok phrase → ∀ a ∈ phrase.annotation?,
      (∃ cs, AnnotatedBy text cs) ∧
      ∀ name inner, AnnotatedBy text (name ++ '(' :: (inner ++ [')'])) → '(' ∉ name →
        ¬ Blanks inner →
        ∃ pairs, List.Forall₂ (fun piece p => Annotation.readParameter piece = .ok p)
            (splitTop ',' inner) pairs ∧
          Annotation.Merges pairs a.parameters ∧
          (a.parameters.length = (splitTop ',' inner).length ↔ (pairs.map Prod.fst).Nodup) ∧
          (a.parameters = pairs ↔ (pairs.map Prod.fst).Nodup)) ∧
    ∀ left name inner pairs, Sides text left .annotate (name ++ '(' :: (inner ++ [')'])) →
      TypeName (trim name) → ¬ Blanks inner →
      List.Forall₂ (fun piece p => Annotation.readParameter piece = .ok p) (splitTop ',' inner)
        pairs →
      ∃ a, readText text = .ok (.annotate (Source.readRule left) a) := by
  constructor
  · intro phrase h a ha
    obtain ⟨cs, hannotated, hread⟩ := exists_annotatedBy h ha
    refine ⟨⟨cs, hannotated⟩, fun name inner hshape hname hinner => ?_⟩
    rw [hannotated.unique hshape] at hread
    have hiff := Annotation.read_enclosed_eq_ok_iff hshape.trim_eq hname hinner (a := a)
    obtain ⟨-, pairs, hpairs, hmerge⟩ := hiff.1 hread
    rw [hmerge, hpairs.length_eq]
    exact ⟨pairs, hpairs, Annotation.merges_merge pairs, Annotation.length_merge_eq_iff,
      Annotation.merge_eq_self_iff⟩
  · intro left name inner pairs hsides hname hinner hpairs
    have htrim := (AnnotatedBy.alone hsides).trim_eq
    have hparenthesis : '(' ∉ name := fun hmem =>
      absurd (hname.isNameChar _ (mem_trim hmem rfl)) (by decide +kernel)
    have hread : TypeRef.readName name = .ok (String.ofList (trim name)) :=
      TypeRef.readName_eq_ok_iff.2 ⟨hname, rfl⟩
    have hiff := Annotation.read_enclosed_eq_ok_iff htrim hparenthesis hinner
      (a := ⟨String.ofList (trim name), Annotation.merge pairs⟩)
    exact ⟨_, readText_of_sides_annotate hsides (hiff.2 ⟨hread, pairs, hpairs, rfl⟩)⟩

/-- A text with two keys for three parameters is read, and the first value of `a` is lost. -/
theorem parameters_merged_repeatedKey :
    let text := "Foo @ io.A(a = 1, b = 2, a = 3)"
    let a : Annotation := ⟨"io.A", [("a", .simple "3"), ("b", .simple "2")]⟩
    readText text = .ok (.annotate ⟨"Foo", none⟩ a) ∧
      (∃ pairs, List.Forall₂ (fun piece p => Annotation.readParameter piece = .ok p)
          ["a = 1".toList, " b = 2".toList, " a = 3".toList] pairs ∧
        Annotation.Merges pairs a.parameters ∧ ¬ (pairs.map Prod.fst).Nodup) ∧
      ∃ a, readText text = .ok (.annotate (Source.readRule "Foo".toList) a) := by
  intro text a
  have hread : readText text = .ok (.annotate ⟨"Foo", none⟩ a) := by decide +kernel
  have hsides : Sides text "Foo".toList .annotate
      ("io.A".toList ++ '(' :: ("a = 1, b = 2, a = 3".toList ++ [')'])) :=
    ⟨⟨"Foo ".toList, " io.A(a = 1, b = 2, a = 3)".toList, by decide +kernel, by decide +kernel,
      by decide +kernel⟩, by decide, by decide⟩
  have hsplit : splitTop ',' "a = 1, b = 2, a = 3".toList =
      ["a = 1".toList, " b = 2".toList, " a = 3".toList] := by decide +kernel
  have hinner : ¬ Blanks "a = 1, b = 2, a = 3".toList :=
    fun h => absurd (h 'a' (by decide)) (by decide)
  obtain ⟨hmerged, haccepted⟩ := parameters_merged text
  refine ⟨hread, ?_, ?_⟩
  · obtain ⟨pairs, hpairs, hmerges, hlength, -⟩ :=
      (hmerged _ hread a rfl).2 _ _ (.alone hsides) (by decide) hinner
    rw [hsplit] at hpairs hlength
    exact ⟨pairs, hpairs, hmerges, hlength.not.1 (by decide)⟩
  · refine haccepted _ _ _ [("a", .simple "1"), ("b", .simple "2"), ("a", .simple "3")] hsides
      (isTypeName_iff.1 (by decide +kernel)) hinner ?_
    rw [hsplit]
    exact .cons (by decide +kernel) (.cons (by decide +kernel) (.cons (by decide +kernel) .nil))

/-- Two values without keys have the same key, and only the second one is kept. -/
theorem parameter_lost_unnamed :
    let text := "Foo @ io.A(1, 2)"
    AnnotatedBy text ("io.A".toList ++ '(' :: ("1, 2".toList ++ [')'])) ∧
      splitTop ',' "1, 2".toList = ["1".toList, " 2".toList] ∧
      readText text = .ok (.annotate ⟨"Foo", none⟩ ⟨"io.A", [("", .simple "2")]⟩) := by
  have hsides : Sides "Foo @ io.A(1, 2)" "Foo".toList .annotate
      ("io.A".toList ++ '(' :: ("1, 2".toList ++ [')'])) :=
    ⟨⟨"Foo ".toList, " io.A(1, 2)".toList, by decide +kernel, by decide +kernel,
      by decide +kernel⟩, by decide, by decide⟩
  exact ⟨.alone hsides, by decide +kernel, by decide +kernel⟩

end Phrase

end TypeRules
