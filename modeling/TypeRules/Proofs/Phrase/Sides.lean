import TypeRules.Proofs.Phrase.Operator
import TypeRules.Proofs.Phrase.Reading

/-! # What stands behind an operator

A rule text is cut at its first operator.  Where this is depends on what is in front of it alone, so
the side behind it can be exchanged.

* `Operator.begins_append_sign` — a sign behind a text does not make another operator begin in it.
* `Operator.cut?_name_cases` — the first operator is the sign in front of a name at the end, or the
  sign is in the text behind the first operator.
* `Phrase.not_isSuffix_of_readSides` — in the latter case that text cannot be read.
* `Phrase.exists_source_of_readText` is the statement about rule texts.
-/

namespace TypeRules

open Text

/-! ## Where operators begin -/

namespace Operator

/-- The ways to write an operator. -/
def words : List (List Char) := ["=>".toList, "=+".toList, "@".toList, implementWord]

theorem begins_iff {cs : List Char} : begins cs = true ↔ ∃ word ∈ words, word <+: cs := by
  constructor
  · intro h
    rw [begins, atStart?.eq_def] at h
    split at h
    · exact ⟨"=>".toList, by decide, List.prefix_append ['=', '>'] _⟩
    · exact ⟨"=+".toList, by decide, List.prefix_append ['=', '+'] _⟩
    · exact ⟨"@".toList, by decide, List.prefix_append ['@'] _⟩
    · rw [Option.isSome_map] at h
      obtain ⟨rest, hrest⟩ := Option.isSome_iff_exists.1 h
      exact ⟨implementWord, by decide, eq_of_withoutPrefix? hrest ▸ List.prefix_append _ _⟩
  · rintro ⟨word, hword, rest, rfl⟩
    simp only [words, List.mem_cons, List.not_mem_nil, or_false] at hword
    rcases hword with rfl | rfl | rfl | rfl <;> rfl

theorem atStart?_append {cs rest : List Char} {operator : Operator}
    (h : atStart? cs = some (operator, rest)) (back : List Char) :
    atStart? (cs ++ back) = some (operator, rest ++ back) := by
  rw [atStart?.eq_def] at h
  split at h
  · cases h; rfl
  · cases h; rfl
  · cases h; rfl
  · obtain ⟨behind, hword, heq⟩ := Option.map_eq_some_iff.1 h
    cases heq
    rw [eq_of_withoutPrefix? hword, List.append_assoc]
    rfl

theorem exists_sign (operator : Operator) :
    ∃ d tail, operator.sign = d :: tail ∧ ∀ word ∈ words, d ∉ word.tail := by
  cases operator with
  | map => exact ⟨'=', ['>'], rfl, by decide⟩
  | annotate => exact ⟨'@', [], rfl, by decide⟩
  | implement => exact ⟨'=', ['+'], rfl, by decide⟩

theorem prefix_append_cons_iff {word l r : List Char} {d : Char} (hd : d ∉ word.tail)
    (hl : l ≠ []) : word <+: l ++ d :: r ↔ word <+: l := by
  constructor
  · intro h
    rcases List.prefix_or_prefix_of_prefix h (List.prefix_append l (d :: r)) with h' | ⟨t, rfl⟩
    · exact h'
    · cases t with
      | nil => simp
      | cons x t =>
        obtain ⟨rfl, -⟩ := List.cons_prefix_cons.1 ((List.prefix_append_right_inj l).1 h)
        obtain ⟨c, l, rfl⟩ := List.exists_cons_of_ne_nil hl
        exact absurd (List.mem_append_right l List.mem_cons_self) hd
  · intro h
    exact h.trans (List.prefix_append _ _)

/-- A sign behind a text does not make any other place of it the beginning of an operator. -/
theorem begins_append_sign (c : Char) (cs : List Char) (operator : Operator)
    (back : List Char) :
    begins (c :: (cs ++ (operator.sign ++ back))) = begins (c :: cs) := by
  obtain ⟨d, tail, hsign, hwords⟩ := operator.exists_sign
  rw [Bool.eq_iff_iff, begins_iff, begins_iff, hsign, List.cons_append, ← List.cons_append]
  constructor
  · rintro ⟨word, hword, h⟩
    exact ⟨word, hword, (prefix_append_cons_iff (hwords word hword) (List.cons_ne_nil c cs)).1 h⟩
  · rintro ⟨word, hword, h⟩
    exact ⟨word, hword, (prefix_append_cons_iff (hwords word hword) (List.cons_ne_nil c cs)).2 h⟩

/-! ## The first operator -/

theorem cutTop?_eq_none_of_cut? {cs : List Char} (h : cut? cs = none) :
    cutTop? begins cs = none := by
  cases hcut : cutTop? begins cs with
  | none => rfl
  | some cut =>
    obtain ⟨left, rest⟩ := cut
    obtain ⟨found, hfound⟩ := Option.isSome_iff_exists.1 (append_of_cutTopFrom? hcut).2.2
    have hsome : cut? cs = some (left, found.1, found.2) :=
      Option.bind_eq_some_iff.2 ⟨(left, rest), hcut,
        Option.bind_eq_some_iff.2 ⟨found, hfound, rfl⟩⟩
    rw [h] at hsome
    cases hsome

theorem cutTop?_append_sign (cs : List Char) (operator : Operator) (back : List Char) :
    cutTop? begins (cs ++ (operator.sign ++ back)) =
      ((cutTop? begins cs).map fun cut => (cut.1, cut.2 ++ (operator.sign ++ back))).or
        ((cutTopFrom? begins (Nesting.top.after cs) (operator.sign ++ back)).map fun cut =>
          (cs ++ cut.1, cut.2)) :=
  cutTopFrom?_append_of_agree (fun c cs => begins_append_sign c cs operator back) _ _

/-- An operator in front of a sign is found whatever is behind. -/
theorem cut?_append_sign_of_some {cs left right : List Char} {first : Operator}
    (h : cut? cs = some (left, first, right)) (operator : Operator) (back : List Char) :
    cut? (cs ++ (operator.sign ++ back)) =
      some (left, first, right ++ (operator.sign ++ back)) := by
  obtain ⟨⟨left', rest⟩, hcut, h⟩ := Option.bind_eq_some_iff.1 h
  obtain ⟨⟨first', right'⟩, hstart, h⟩ := Option.bind_eq_some_iff.1 h
  cases h
  have hfound : cutTop? begins cs = some (left, rest) := hcut
  have hcut' : cutTop? begins (cs ++ (operator.sign ++ back)) =
      some (left, rest ++ (operator.sign ++ back)) := by
    rw [cutTop?_append_sign, hfound]
    rfl
  exact Option.bind_eq_some_iff.2 ⟨_, hcut',
    Option.bind_eq_some_iff.2 ⟨_, atStart?_append hstart _, rfl⟩⟩

theorem cut?_append_sign_of_none {cs : List Char} (h : cut? cs = none)
    (htop : Nesting.top.after cs = Nesting.top) (operator : Operator) (back : List Char) :
    cut? (cs ++ (operator.sign ++ back)) = some (cs, operator, back) := by
  have hsign : cutTopFrom? begins Nesting.top (operator.sign ++ back) =
      some ([], operator.sign ++ back) := by
    cases operator <;> rfl
  have hcut : cutTop? begins (cs ++ (operator.sign ++ back)) =
      some (cs, operator.sign ++ back) := by
    rw [cutTop?_append_sign, cutTop?_eq_none_of_cut? h, htop, hsign]
    simp
  exact Option.bind_eq_some_iff.2 ⟨_, hcut,
    Option.bind_eq_some_iff.2 ⟨_, atStart?_sign operator back, rfl⟩⟩

/-! ## A name behind a sign -/

theorem cutTopFrom?_eq_none_of_suffixes {hit : List Char → Bool} {cs : List Char}
    (h : ∀ r, r <:+ cs → r ≠ [] → hit r = false) (n : Nesting) : cutTopFrom? hit n cs = none := by
  cases hcut : cutTopFrom? hit n cs with
  | none => rfl
  | some cut =>
    obtain ⟨l, r⟩ := cut
    obtain ⟨rfl, hne, hhit⟩ := append_of_cutTopFrom? hcut
    rw [h r (List.suffix_append l r) hne] at hhit
    cases hhit

theorem begins_eq_false {c : Char} (h : isOpener c = false) (cs : List Char) :
    begins (c :: cs) = false := by
  refine Bool.eq_false_iff.2 fun hbegins => ?_
  rw [isOpener_of_begins c cs hbegins] at h
  cases h

theorem isOpener_of_isNameChar {c : Char} (h : isNameChar c = true) : isOpener c = false :=
  isOpener_of_class (by decide +kernel) (by decide +kernel) (by decide +kernel) h

theorem begins_blank_name {name : List Char} (hname : TypeName name) :
    begins (' ' :: name) = false := by
  refine Bool.eq_false_iff.2 fun hbegins => ?_
  obtain ⟨word, hword, hprefix⟩ := begins_iff.1 hbegins
  simp only [words, List.mem_cons, List.not_mem_nil, or_false] at hword
  rcases hword with rfl | rfl | rfl | rfl
  · cases (List.cons_prefix_cons.1 hprefix).1
  · cases (List.cons_prefix_cons.1 hprefix).1
  · cases (List.cons_prefix_cons.1 hprefix).1
  · have hmem : ' ' ∈ name := (List.cons_prefix_cons.1 hprefix).2.subset (by decide)
    exact absurd (hname.isNameChar ' ' hmem) (by decide +kernel)

theorem begins_suffix_blank_name {name r : List Char} (hname : TypeName name)
    (hr : r <:+ ' ' :: name) (hne : r ≠ []) : begins r = false := by
  rcases List.suffix_cons_iff.1 hr with rfl | hr
  · exact begins_blank_name hname
  · obtain ⟨c, r, rfl⟩ := List.exists_cons_of_ne_nil hne
    exact begins_eq_false
      (isOpener_of_isNameChar (hname.isNameChar c (hr.subset List.mem_cons_self))) r

/-- Behind the first character of a sign, no operator begins before the end of a name. -/
theorem begins_eq_false_behind_sign {name : List Char} (hname : TypeName name)
    (operator : Operator) {r : List Char} (hr : r <:+ operator.sign.tail ++ ' ' :: name)
    (hne : r ≠ []) : begins r = false := by
  cases operator with
  | annotate => exact begins_suffix_blank_name hname hr hne
  | map | implement =>
    rcases List.suffix_cons_iff.1 hr with rfl | hr
    · exact begins_eq_false rfl _
    · exact begins_suffix_blank_name hname hr hne

/-- If the first operator of a text with a name at the end is the sign in front of this name, the
same is true of every text that is the same up to the sign. -/
theorem cut?_name_cases {cs name : List Char} (hname : TypeName name) {operator first : Operator}
    {left right : List Char}
    (h : cut? (cs ++ (operator.sign ++ ' ' :: name)) = some (left, first, right)) :
    (∀ back, cut? (cs ++ (operator.sign ++ back)) = some (cs, operator, back)) ∨
      operator.sign ++ ' ' :: name <:+ right := by
  cases hcs : cut? cs with
  | some cut =>
    obtain ⟨left', first', right'⟩ := cut
    rw [cut?_append_sign_of_some hcs] at h
    cases h
    exact .inr (List.suffix_append _ _)
  | none =>
    refine .inl fun back => cut?_append_sign_of_none hcs ?_ operator back
    -- Inside of brackets or quotes the sign is passed over, and nothing is found behind it.
    by_contra htop
    obtain ⟨d, tail, hsign, -⟩ := operator.exists_sign
    have hhidden : (Nesting.top.after cs).exposes d = false :=
      Bool.eq_false_iff.2 fun hexposes => htop (Nesting.eq_top_of_exposes hexposes)
    have hbehind : cutTopFrom? begins ((Nesting.top.after cs).step d) (tail ++ ' ' :: name) =
        none := by
      refine cutTopFrom?_eq_none_of_suffixes (fun r hr hne => ?_) _
      refine begins_eq_false_behind_sign hname operator ?_ hne
      rwa [hsign]
    have hnone : cutTop? begins (cs ++ (operator.sign ++ ' ' :: name)) = none := by
      rw [cutTop?_append_sign, cutTop?_eq_none_of_cut? hcs, hsign, List.cons_append, cutTopFrom?,
        hhidden, hbehind]
      rfl
    obtain ⟨cut, hcut, -⟩ := Option.bind_eq_some_iff.1 h
    have hsome : cutTop? begins (cs ++ (operator.sign ++ ' ' :: name)) = some cut := hcut
    rw [hnone] at hsome
    cases hsome

end Operator

/-! ## Texts with an operator inside -/

/-- Behind a parenthesis an annotation ends with the other one. -/
theorem Annotation.getLast?_trim_of_read {cs : List Char} {a : Annotation} (h : read cs = .ok a)
    {c : Char} (hc : c ∈ trim cs) (hname : isNameChar c = false) :
    (trim cs).getLast? = some ')' := by
  rw [read] at h
  split at h
  · obtain ⟨name, hread, -⟩ := map_eq_ok_iff.1 h
    have hpattern := (TypeRef.readName_eq_ok_iff.1 hread).1
    rw [hpattern.isNameChar c hc] at hname
    cases hname
  · next name rest hopen =>
    split at h
    · cases h
    · next inner hclose =>
      obtain ⟨d, -, hcs, -⟩ := eq_of_cutAt? hopen
      have hrest : trimEnd rest = rest := by
        refine trimEnd_eq_self fun x hx => (trimmed_trim cs).2 x ?_
        rw [hcs, List.getLast?_append, List.getLast?_cons, hx]
        rfl
      rw [hcs, ← hrest, eq_of_withoutSuffix? hclose, ← List.cons_append, ← List.append_assoc,
        List.getLast?_concat]

theorem TypeRef.equals_not_mem_of_read {cs : List Char} {t : TypeRef} (h : read cs = .ok t) :
    '=' ∉ cs := by
  intro hmem
  rcases (derives_of_read h).isPlainChar_or_of_mem _ hmem with hplain | hbracket
  · exact absurd hplain (by decide +kernel)
  · exact absurd hbracket (by decide)

theorem Target.equals_not_mem_of_read {cs : List Char} {t : Target} (h : read cs = .ok t) :
    '=' ∉ trim cs := by
  obtain ⟨type, htype, -⟩ := bind_eq_ok_iff.1 h
  have hbase := TypeRef.equals_not_mem_of_read htype
  cases hcut : withoutSuffix? arrayMarker (trim cs) with
  | none => rwa [hcut] at hbase
  | some base =>
    rw [hcut] at hbase
    rw [eq_of_withoutSuffix? hcut, List.mem_append, not_or]
    exact ⟨hbase, by decide⟩

namespace Phrase

theorem eq_of_cutAnnotation_none {cs back : List Char} (h : cutAnnotation cs = (none, back)) :
    back = cs := by
  unfold cutAnnotation at h
  split at h
  · cases h
  · cases h
    rfl

theorem exists_of_cutAnnotation {cs front back : List Char}
    (h : cutAnnotation cs = (some front, back)) :
    ∃ l b r, cs = l ++ b :: r ∧ isBlank b = true ∧ front = trim l ∧ back = trim (b :: r) := by
  unfold cutAnnotation at h
  split at h
  · next l r hcut =>
    cases h
    obtain ⟨rfl, hne, hstarts⟩ := append_of_cutTopFrom? hcut
    obtain ⟨b, r, rfl⟩ := List.exists_cons_of_ne_nil hne
    exact ⟨l, b, r, rfl, isBlank_of_startsTarget b r hstarts, rfl, rfl⟩
  · cases h

/-- If a blank divides a text that ends in a sign and a name, and the sign is in front of it, the
blank is the one between them. -/
theorem eq_of_blank_behind_sign {front name l r : List Char} {b c : Char} (hname : TypeName name)
    (hc : isBlank c = false) (hb : isBlank b = true) (hequals : '=' ∉ b :: r)
    (h : front ++ '=' :: c :: ' ' :: name = l ++ b :: r) : l = front ++ ['=', c] := by
  have hbehind : b :: r <:+ '=' :: c :: ' ' :: name := by
    have hsuffix : b :: r <:+ front ++ '=' :: c :: ' ' :: name := h ▸ List.suffix_append l (b :: r)
    rcases List.suffix_or_suffix_of_suffix hsuffix (List.suffix_append front _) with
      hshort | hlong
    · exact hshort
    · exact absurd (hlong.subset List.mem_cons_self) hequals
  rcases List.suffix_cons_iff.1 hbehind with heq | hbehind
  · rw [heq] at hequals
    exact absurd List.mem_cons_self hequals
  rcases List.suffix_cons_iff.1 hbehind with heq | hbehind
  · obtain ⟨rfl, -⟩ := List.cons.inj heq
    rw [hb] at hc
    cases hc
  rcases List.suffix_cons_iff.1 hbehind with heq | hbehind
  · have hsplit : front ++ ['=', c] ++ ' ' :: name = l ++ ' ' :: name := by
      rw [heq] at h
      simpa using h
    exact (List.append_cancel_right hsplit).symm
  · have hchar := hname.isNameChar b (hbehind.subset List.mem_cons_self)
    rw [isBlank_of_isNameChar hchar] at hb
    cases hb

/-- A text with a sign in it is an annotation only if it ends with a parenthesis. -/
theorem getLast?_of_read_annotation {cs : List Char} (hcs : Trimmed cs) (hequals : '=' ∈ cs)
    {a : Annotation} (h : Annotation.read cs = .ok a) : cs.getLast? = some ')' := by
  have hself := trim_eq_self hcs
  have hlast := Annotation.getLast?_trim_of_read h (c := '=') (by rwa [hself])
    (by decide +kernel)
  rwa [hself] at hlast

/-- No annotation has a sign and a name at its end. -/
theorem not_isSuffix_of_annotation {name right : List Char} {c : Char} (hname : TypeName name)
    (hright : Trimmed right) {a : Annotation} (h : Annotation.read right = .ok a) :
    ¬ '=' :: c :: ' ' :: name <:+ right := by
  intro hsuffix
  have hlast := getLast?_of_read_annotation hright (hsuffix.subset List.mem_cons_self) h
  obtain ⟨front, rfl⟩ := hsuffix
  obtain ⟨name, d, rfl⟩ := (List.eq_nil_or_concat name).resolve_left hname.ne_nil
  have hd := hname.isNameChar d (by simp)
  rw [List.getLast?_append] at hlast
  simp only [List.concat_eq_append, List.getLast?_cons, List.getLast?_concat] at hlast
  cases hlast
  exact absurd hd (by decide +kernel)

/-- Neither a target nor the annotation in front of it has a sign in it that is followed by a
name at the end. -/
theorem not_isSuffix_of_mapping {name right : List Char} {c : Char} (hname : TypeName name)
    (hblank : isBlank c = false) (hclose : c ≠ ')') (hright : Trimmed right) {source : Source}
    {phrase : Phrase} (h : readSides source .map right = .ok phrase) :
    ¬ '=' :: c :: ' ' :: name <:+ right := by
  intro hsuffix
  have hequals : '=' ∈ right := hsuffix.subset List.mem_cons_self
  obtain ⟨front, hfront⟩ := hsuffix
  cases hcut : cutAnnotation right with
  | mk mark back =>
    simp only [readSides, hcut] at h
    obtain ⟨a, hmark, h⟩ := bind_eq_ok_iff.1 h
    obtain ⟨t, ht, -⟩ := bind_eq_ok_iff.1 h
    have hback := Target.equals_not_mem_of_read ht
    cases mark with
    | none =>
      rw [eq_of_cutAnnotation_none hcut, trim_eq_self hright] at hback
      exact hback hequals
    | some mark =>
      obtain ⟨l, b, r, hsplit, hb, rfl, rfl⟩ := exists_of_cutAnnotation hcut
      have hl : l = front ++ ['=', c] := by
        rw [trim_trim] at hback
        exact eq_of_blank_behind_sign hname hblank hb (fun hmem => hback (mem_trim hmem rfl))
          (hfront.trans hsplit)
      have hmem : '=' ∈ trim l := mem_trim (by rw [hl]; simp) rfl
      have htrim : trim l = trimStart front ++ ['=', c] := by
        rw [hl]
        exact trim_append_of_trimmed (trimmed_of_isBlank (by simpa using ⟨rfl, hblank⟩))
          (List.cons_ne_nil _ _) front
      cases optionMapM_eq_ok_iff.1 hmark with
      | some hread =>
        have hlast := getLast?_of_read_annotation (trimmed_trim l) hmem hread
        rw [htrim, List.getLast?_append] at hlast
        cases hlast
        exact hclose rfl

/-- No side of an operator that can be read has a sign and a name at its end. -/
theorem not_isSuffix_of_readSides {operator first : Operator} (hoperator : operator ≠ .annotate)
    {name right : List Char} (hname : TypeName name) (hright : Trimmed right) {source : Source}
    {phrase : Phrase} (h : readSides source first right = .ok phrase) :
    ¬ operator.sign ++ ' ' :: name <:+ right := by
  obtain ⟨c, hsign, hblank, hclose⟩ :
      ∃ c, operator.sign = ['=', c] ∧ isBlank c = false ∧ c ≠ ')' := by
    cases operator with
    | map => exact ⟨'>', rfl, rfl, by decide⟩
    | annotate => exact absurd rfl hoperator
    | implement => exact ⟨'+', rfl, rfl, by decide⟩
  rw [hsign]
  cases first with
  | annotate =>
    obtain ⟨a, ha, -⟩ := bind_eq_ok_iff.1 h
    exact not_isSuffix_of_annotation hname hright ha
  | implement =>
    obtain ⟨t, ht, -⟩ := bind_eq_ok_iff.1 h
    exact fun hsuffix =>
      TypeRef.equals_not_mem_of_read ht (hsuffix.subset List.mem_cons_self)
  | map => exact not_isSuffix_of_mapping hname hblank hclose hright h

/-! ## Main result -/

theorem exists_cut_of_readText {text : String} {phrase : Phrase} (h : readText text = .ok phrase)
    (hsource : phrase.source? ≠ none) :
    ∃ l first r, Operator.cut? (trim text.toList) = some (l, first, r) ∧ trim l ≠ [] ∧
      readSides (Source.readRule (trim l)) first (trim r) = .ok phrase := by
  rw [readText] at h
  split at h
  · cases h
  · split at h
    · have hbare := mapError_eq_ok_iff.1 h
      rw [readBare] at hbare
      split at hbare
      · obtain ⟨t, -, rfl⟩ := map_eq_ok_iff.1 hbare
        exact absurd rfl hsource
      · cases hbare
        exact absurd rfl hsource
    · next l first r hcut =>
      split at h
      · cases h
      · next hleft =>
        split at h
        · cases h
        · exact ⟨l, first, r, hcut, by simpa using hleft, mapError_eq_ok_iff.1 h⟩

theorem trimmed_sign_append (operator : Operator) {right : List Char} (hright : Trimmed right)
    (hright' : right ≠ []) : Trimmed (operator.sign ++ ' ' :: right) := by
  have hblank : ∀ c ∈ operator.sign, isBlank c = false := by
    cases operator <;> simp [Operator.sign, isBlank]
  have hne : operator.sign ≠ [] := by
    cases operator <;> exact List.cons_ne_nil _ _
  have htrimmed := trimmed_append (trimmed_of_isBlank hblank) hne hright hright' [' ']
  simpa using htrimmed

theorem trim_behind (source : List Char) (operator : Operator) {right : List Char}
    (hright : Trimmed right) (hright' : right ≠ []) :
    trim (source ++ ' ' :: (operator.sign ++ ' ' :: right)) =
      trimStart (source ++ [' ']) ++ (operator.sign ++ ' ' :: right) := by
  have hne : operator.sign ++ ' ' :: right ≠ [] := by simp
  have htrim := trim_append_of_trimmed (trimmed_sign_append operator hright hright') hne
    (source ++ [' '])
  rwa [List.append_assoc, List.singleton_append] at htrim

/-- If a text that ends in a sign and a name is read with a source, this is the sign of its
operator, and whatever stands in the place of the name is read as the right side of the operator,
with the same source on the left. -/
theorem exists_source_of_readText {operator : Operator} (hoperator : operator ≠ .annotate)
    {source name : List Char} (hname : TypeName name) {text : String} {phrase : Phrase}
    (htext : text.toList = source ++ ' ' :: (operator.sign ++ ' ' :: name))
    (h : readText text = .ok phrase) (hsource : phrase.source? ≠ none) :
    ∃ s : Source, ∀ (right : List Char) (other : String), Trimmed right → right ≠ [] →
      other.toList = source ++ ' ' :: (operator.sign ++ ' ' :: right) →
      readText other = (readSides s operator right).mapError (.unreadable other) := by
  obtain ⟨l, first, r, hcut, hl, hsides⟩ := exists_cut_of_readText h hsource
  rw [htext, trim_behind source operator hname.trimmed hname.ne_nil] at hcut
  rcases Operator.cut?_name_cases hname hcut with hall | ⟨front, rfl⟩
  · have hleft : l = trimStart (source ++ [' ']) := by
      rw [hall] at hcut
      cases hcut
      rfl
    refine ⟨Source.readRule (trim l), fun right other hright hright' hother => ?_⟩
    have hcut' : Operator.cut? (trim other.toList) = some (l, operator, ' ' :: right) := by
      rw [hother, trim_behind source operator hright hright', hall, hleft]
    have hself : trim (' ' :: right) = right := by
      rw [← List.singleton_append, trim_blanks_append blanks_space, trim_eq_self hright]
    have hread := readText_of_cut? hcut' hl (by rwa [hself])
    rwa [hself] at hread
  -- With an operator in front of the sign, the sign would be in what is read behind it.
  · rw [trim_append_of_trimmed (trimmed_sign_append operator hname.trimmed hname.ne_nil)
      (by simp)] at hsides
    have htrimmed : Trimmed (trimStart front ++ (operator.sign ++ ' ' :: name)) := by
      rw [← trim_append_of_trimmed (trimmed_sign_append operator hname.trimmed hname.ne_nil)
        (by simp)]
      exact trimmed_trim _
    exact absurd (List.suffix_append _ _)
      (not_isSuffix_of_readSides hoperator hname htrimmed hsides)

end Phrase

end TypeRules
