import TypeRules.Proofs.Annotation.Written
import TypeRules.Proofs.Phrase.Spelled

/-! # Blanks between tokens

A mapping consists of a few tokens: its source, the sign, the names of its target with brackets and
commas, and the marker of arrays.  Blanks between them mean nothing, except in one place.

* `Spaced` — the texts of a list of tokens, with any blanks between and around them.
* `TypeRef.derives_of_spaced` — every text of the tokens of a reference is one that the grammar
  derives for it.
* `Target.MarkerApart` — there is a blank in front of the marker of arrays.  It separates what looks
  like an annotation from what looks like a target.
* `Phrase.readText_spaced` is the statement about whole rule texts.
-/

namespace TypeRules

open Text

/-! ## Tokens and texts -/

/-- A text of the given tokens, with any blanks in front of each of them and behind the last. -/
inductive Spaced : List (List Char) → List Char → Prop where
  | nil {b : List Char} (hb : Blanks b) : Spaced [] b
  | cons {b token cs : List Char} {tokens : List (List Char)} (hb : Blanks b)
      (h : Spaced tokens cs) : Spaced (token :: tokens) (b ++ (token ++ cs))

theorem exists_append_of_spaced {front back : List (List Char)} {cs : List Char}
    (h : Spaced (front ++ back) cs) : ∃ l r, cs = l ++ r ∧ Spaced front l ∧ Spaced back r := by
  induction front generalizing cs with
  | nil => exact ⟨[], cs, rfl, .nil blanks_nil, h⟩
  | cons token front ih =>
    obtain _ | ⟨hb, h⟩ := h
    obtain ⟨l, r, rfl, hl, hr⟩ := ih h
    exact ⟨_, r, by simp only [List.append_assoc], .cons hb hl, hr⟩

theorem exists_of_spaced_singleton {token cs : List Char} (h : Spaced [token] cs) :
    ∃ l r, Blanks l ∧ Blanks r ∧ cs = l ++ token ++ r := by
  obtain _ | ⟨hl, h⟩ := h
  obtain ⟨hr⟩ := h
  exact ⟨_, _, hl, hr, by rw [List.append_assoc]⟩

/-! ## References -/

namespace TypeRef

mutual

/-- The names, brackets and commas of a reference. -/
def tokens : TypeRef → List (List Char)
  | mk name [] => [name.toList]
  | mk name (arg :: args) => name.toList :: ['<'] :: (arg.tokens ++ (laterTokens args ++ [['>']]))

/-- Arguments with a comma in front of each. -/
def laterTokens : List TypeRef → List (List Char)
  | [] => []
  | arg :: args => [','] :: (arg.tokens ++ laterTokens args)

end

/-- The blanks in front of a comma or a bracket belong to the argument there. -/
theorem exists_args_of_spaced {arg : TypeRef} {args : List TypeRef}
    (hargs : ∀ arg' ∈ arg :: args, ∀ cs, Spaced arg'.tokens cs → Derives cs arg') {cs : List Char}
    (h : Spaced (arg.tokens ++ (laterTokens args ++ [['>']])) cs) :
    ∃ (pairs : List (List Char × TypeRef)) (r : List Char), Blanks r ∧
      (∀ pair ∈ pairs, Derives pair.1 pair.2) ∧ pairs.map Prod.snd = arg :: args ∧
      cs = joinWith [','] (pairs.map Prod.fst) ++ '>' :: r := by
  induction args generalizing arg cs with
  | nil =>
    obtain ⟨l, _, rfl, hl, h⟩ := exists_append_of_spaced h
    obtain ⟨b, r, hb, hr, rfl⟩ := exists_of_spaced_singleton h
    refine ⟨[(l ++ b, arg)], r, hr, ?_, rfl, by simp⟩
    intro pair hpair
    rw [List.mem_singleton.1 hpair]
    exact (hargs arg List.mem_cons_self l hl).append_blanks hb
  | cons next args ih =>
    obtain ⟨l, r, rfl, hl, hr⟩ := exists_append_of_spaced h
    rw [laterTokens, List.cons_append, List.append_assoc] at hr
    obtain _ | @⟨b, _, rest, _, hb, hrest⟩ := hr
    obtain ⟨pairs, r, hr, hpairs, hsnd, rfl⟩ :=
      ih (fun arg' harg' => hargs arg' (List.mem_cons_of_mem arg harg')) hrest
    have hne : pairs.map Prod.fst ≠ [] := by
      intro hnil
      rw [List.map_eq_nil_iff.1 hnil] at hsnd
      cases hsnd
    refine ⟨(l ++ b, arg) :: pairs, r, hr, ?_, by rw [List.map_cons, hsnd], ?_⟩
    · intro pair hpair
      rcases List.mem_cons.1 hpair with rfl | hpair
      · exact (hargs arg List.mem_cons_self l hl).append_blanks hb
      · exact hpairs pair hpair
    · rw [List.map_cons, joinWith_cons _ _ hne]
      simp

theorem derives_of_spaced {t : TypeRef} (ht : t.WellNamed) {cs : List Char}
    (h : Spaced t.tokens cs) : Derives cs t := by
  induction t using induct generalizing cs with
  | mk name args ih =>
    obtain ⟨hname, hargs⟩ := ht
    cases args with
    | nil =>
      obtain ⟨l, r, hl, hr, rfl⟩ := exists_of_spaced_singleton h
      have hderives := Derives.name hl hname hr
      rwa [String.ofList_toList] at hderives
    | cons arg args =>
      rw [tokens] at h
      obtain _ | @⟨l, _, _, _, hl, h⟩ := h
      obtain _ | @⟨m, _, inner, _, hm, h⟩ := h
      have hread : ∀ arg' ∈ arg :: args, ∀ cs, Spaced arg'.tokens cs → Derives cs arg' :=
        fun arg' hmem cs h => ih arg' hmem (hargs arg' hmem) h
      obtain ⟨pairs, r, hr, hpairs, hsnd, rfl⟩ := exists_args_of_spaced hread h
      have hne : pairs ≠ [] := by
        rintro rfl
        cases hsnd
      have hderives := Derives.generic hl hname hm hne hpairs hr
      rw [hsnd, String.ofList_toList] at hderives
      simpa using hderives

end TypeRef

/-! ## Targets -/

namespace Target

def tokens (t : Target) : List (List Char) :=
  t.type.tokens ++ if t.array then [arrayMarker] else []

variable {t : Target} {cs : List Char}

theorem derives_of_spaced (ht : t.Consistent) (harray : t.array = false)
    (h : Spaced t.tokens cs) : TypeRef.Derives cs t.type := by
  rw [tokens, harray, if_neg Bool.false_ne_true, List.append_nil] at h
  exact TypeRef.derives_of_spaced ht.type h

theorem type_of_array (ht : t.Consistent) (harray : t.array = true) :
    t.type = .ofName t.type.name ∧ TypeName t.type.name.toList := by
  obtain ⟨⟨name, args⟩, primitive, array⟩ := t
  obtain rfl : args = [] := (ht.primitive.1 (ht.array harray)).1
  obtain ⟨hname, -⟩ := ht.type
  exact ⟨rfl, hname⟩

/-- Only in front of its marker there can be blanks within an array. -/
theorem exists_trim_of_spaced (ht : t.Consistent) (harray : t.array = true)
    (h : Spaced t.tokens cs) :
    ∃ m, Blanks m ∧ trim cs = t.type.name.toList ++ (m ++ arrayMarker) := by
  obtain ⟨htype, hname⟩ := type_of_array ht harray
  have htokens : t.tokens = t.type.name.toList :: [arrayMarker] := by
    rw [tokens, htype, harray]
    rfl
  rw [htokens] at h
  obtain _ | @⟨l, _, _, _, hl, h⟩ := h
  obtain ⟨m, r, hm, hr, rfl⟩ := exists_of_spaced_singleton h
  have htrimmed : Trimmed (t.type.name.toList ++ m ++ arrayMarker) :=
    trimmed_append hname.trimmed hname.ne_nil (trimmed_of_isBlank isBlank_of_mem_arrayMarker)
      (by decide) m
  have hsplit : l ++ (t.type.name.toList ++ (m ++ arrayMarker ++ r)) =
      l ++ (t.type.name.toList ++ m ++ arrayMarker) ++ r := by simp
  rw [hsplit, trim_blanks_around hl hr htrimmed, List.append_assoc]
  exact ⟨m, hm, rfl⟩

/-- The character in front of the marker of arrays is a blank. -/
def MarkerApart (cs : List Char) : Prop :=
  ∃ front b, isBlank b = true ∧ cs = front ++ b :: arrayMarker

theorem marker_not_mem_of_derives {type : TypeRef} (h : TypeRef.Derives cs type) :
    ']' ∉ trim cs := by
  intro hmem
  rcases h.isPlainChar_or_of_mem ']' (mem_of_mem_trim hmem) with hplain | hmem
  · exact absurd hplain (by decide +kernel)
  · exact absurd hmem (by decide)

theorem not_markerApart_of_derives {type : TypeRef} (h : TypeRef.Derives cs type)
    (front : List Char) : ¬ MarkerApart (front ++ trim cs) := by
  rintro ⟨front', b, -, heq⟩
  have hlast : (trim cs).getLast? = some ']' := by
    rw [← List.getLast?_append_of_ne_nil front (trim_ne_nil h.not_blanks), heq]
    simp [arrayMarker]
  exact marker_not_mem_of_derives h (List.mem_of_mem_getLast? hlast)

theorem markerApart_iff {name m : List Char} (hname : TypeName name) (hm : Blanks m)
    (front : List Char) :
    MarkerApart (front ++ (name ++ (m ++ arrayMarker))) ↔ m ≠ [] := by
  constructor
  · rintro ⟨front', b, hb, heq⟩ rfl
    have hlast : name.getLast? = some b := by
      have hfront : front ++ name = front' ++ [b] := by
        have hwhole : front ++ name ++ arrayMarker = front' ++ [b] ++ arrayMarker := by
          simpa using heq
        exact List.append_cancel_right hwhole
      rw [← List.getLast?_append_of_ne_nil front hname.ne_nil, hfront, List.getLast?_concat]
    have hblank := hname.trimmed.2 b hlast
    rw [hb] at hblank
    cases hblank
  · intro hne
    obtain ⟨m', b, rfl⟩ := (List.eq_nil_or_concat m).resolve_left hne
    rw [List.concat_eq_append] at hm ⊢
    exact ⟨front ++ (name ++ m'), b, hm b (by simp), by simp⟩

theorem read_of_spaced (ht : t.Consistent) (h : Spaced t.tokens cs) : read cs = .ok t := by
  cases harray : t.array with
  | false =>
    have hderives := derives_of_spaced ht harray h
    have hmarker : withoutSuffix? arrayMarker (trim cs) = none :=
      withoutSuffix?_eq_none (fun hlast =>
        marker_not_mem_of_derives hderives (List.mem_of_mem_getLast? hlast)) ['[']
    refine read_of_base ht (by rw [hmarker, harray]; rfl) ?_
    rw [hmarker, Option.getD_none, TypeRef.read_eq_of_trim_eq (trim_trim cs)]
    exact TypeRef.read_of_derives hderives
  | true =>
    obtain ⟨m, hm, htrim⟩ := exists_trim_of_spaced ht harray h
    obtain ⟨htype, hname⟩ := type_of_array ht harray
    have hmarker : withoutSuffix? arrayMarker (trim cs) = some (t.type.name.toList ++ m) := by
      rw [htrim, ← List.append_assoc, withoutSuffix?_append]
    have hderives := TypeRef.Derives.name blanks_nil hname hm
    rw [String.ofList_toList, ← htype] at hderives
    refine read_of_base ht (by rw [hmarker, harray]; rfl) ?_
    rw [hmarker]
    exact TypeRef.read_of_derives hderives

theorem writtenAs_of_spaced (ht : t.Consistent) (h : Spaced t.tokens cs)
    (hmarker : ¬ MarkerApart (trim cs)) : t.WrittenAs cs where
  read := read_of_spaced ht h
  marker base hbase := by
    have hsplit := eq_of_withoutSuffix? hbase
    refine ⟨fun c hc => ?_, fun c hc => ?_⟩
    · exact (trimmed_trim cs).1 c (head_of_isPrefix ⟨arrayMarker, hsplit.symm⟩ hc)
    · refine Bool.eq_false_iff.2 fun hblank => hmarker ?_
      obtain ⟨front, rfl⟩ := List.getLast?_eq_some_iff.1 hc
      exact ⟨front, c, hblank, by rw [hsplit, List.append_assoc]; rfl⟩

end Target

/-! ## A name in front of a marker -/

theorem Annotation.read_of_typeName {name : List Char} (hname : TypeName name) :
    read name = .ok (.ofName (String.ofList name)) := by
  have htrim := trim_eq_self hname.trimmed
  have hparenthesis : ∀ c ∈ trim name, (c == '(') = false := fun c hc =>
    beq_eq_false_iff_ne.2 (ne_of_class (hname.isNameChar c (mem_of_mem_trim hc)) (by decide +kernel))
  have hread : TypeRef.readName name = .ok (String.ofList name) :=
    TypeRef.readName_eq_ok_iff.2 ⟨htrim.symm ▸ hname, by rw [htrim]⟩
  rw [read_of_no_parenthesis (cutAt?_eq_none_iff.2 hparenthesis), hread]
  rfl

namespace Phrase

theorem startsTarget_blanks_marker {b : Char} {m : List Char} (hm : Blanks (b :: m)) :
    startsTarget (b :: m ++ arrayMarker) = true := by
  have hb : isBlank b = true := hm b List.mem_cons_self
  have htrim : trimStart (b :: m ++ arrayMarker) = arrayMarker := by
    rw [trimStart_blanks_append hm]
    rfl
  rw [List.cons_append] at htrim ⊢
  simp only [startsTarget, hb, htrim]
  decide

theorem cutAnnotation_name_marker {b : Char} {name m : List Char} (hname : TypeName name)
    (hm : Blanks (b :: m)) :
    cutAnnotation (name ++ (b :: m ++ arrayMarker)) = (some name, arrayMarker) := by
  have hcut : cutTop? startsTarget (name ++ (b :: m ++ arrayMarker)) =
      some (name, b :: m ++ arrayMarker) := by
    have hscan := cutTopFrom?_append isBlank_of_startsTarget (n := Nesting.top)
      (fun c hc => isBlank_of_isNameChar (hname.isNameChar c (Nesting.mem_of_mem_exposed hc)))
      (b :: m ++ arrayMarker)
    have hbalanced : Balanced name :=
      balanced_of_isQuiet fun c hc => isQuiet_of_isNameChar (hname.isNameChar c hc)
    have hexposes := exposes_of_isQuiet (isQuiet_of_isBlank (hm b List.mem_cons_self))
    rw [cutTop?, hscan, hbalanced.after_top, List.cons_append, cutTopFrom?, hexposes,
      ← List.cons_append, startsTarget_blanks_marker hm]
    simp
  have hback : trim (b :: m ++ arrayMarker) = arrayMarker := by
    rw [trim_blanks_append hm]
    rfl
  unfold cutAnnotation
  simp only [hcut, hback, trim_eq_self hname.trimmed]

/-- In front of a blank a name is an annotation, and no target is left for the marker behind. -/
theorem readSides_markerApart (source : Source) {name m : List Char} (hname : TypeName name)
    (hm : Blanks m) (hne : m ≠ []) :
    readSides source .map (name ++ (m ++ arrayMarker)) = .error (.invalidTypeName "") := by
  obtain ⟨b, m, rfl⟩ := List.exists_cons_of_ne_nil hne
  have hrest : Target.read arrayMarker = .error (.invalidTypeName "") := by decide +kernel
  simp only [readSides, cutAnnotation_name_marker hname hm, Option.mapM_some,
    Annotation.read_of_typeName hname, hrest]
  rfl

end Phrase

/-! ## Sources -/

/-- The word of an operator has a blank in front of a letter.  In a source there are no blanks, and
behind it there are no letters. -/
theorem SourceText.no_word {source : String} (hsource : SourceText source) {b : List Char}
    (hb : Blanks b) : ¬ Operator.implementWord <:+: source.toList ++ b := by
  rintro ⟨front, back, heq⟩
  have hletter : 'i' ∈ Operator.implementWord ++ back := List.mem_append_left back (by decide)
  rw [List.append_assoc] at heq
  rcases List.append_eq_append_iff.1 heq with ⟨inner, hinner, h⟩ | ⟨blanks, -, rfl⟩
  · cases inner with
    | nil =>
      rw [h] at hletter
      exact absurd (hb 'i' hletter) (by decide)
    | cons c inner =>
      have hspace : (Operator.implementWord ++ back).head? = some ' ' := rfl
      rw [h] at hspace
      obtain rfl : c = ' ' := by simpa using hspace
      exact absurd (hsource.isSourceChar ' ' (by simp [hinner])) (by decide)
  · exact absurd (hb 'i' (List.mem_append_right blanks hletter)) (by decide)

theorem SourceText.free {source : String} (hsource : SourceText source) {b : List Char}
    (hb : Blanks b) : Operator.Free (source.toList ++ b) := by
  refine Operator.free_of_isLeftChar (fun c hc => ?_) (hsource.no_word hb)
  rcases List.mem_append.1 hc with hc | hc
  · exact isLeftChar_of_class rfl (hsource.isSourceChar c hc)
  · exact isLeftChar_of_class rfl (hb c hc)

namespace Phrase

/-- What is behind an operator is read on its own, in a text with any blanks. -/
theorem readText_source_sign {source text : String} (hsource : SourceText source)
    {b m right : List Char} (hb : Blanks b) (hm : Blanks m) (hright : ¬ Blanks right)
    {operator : Operator}
    (htext : text.toList = b ++ (source.toList ++ (m ++ (operator.sign ++ right)))) :
    readText text = (readSides ⟨source, none⟩ operator (trim right)).mapError
      (.unreadable text) := by
  have hstart : trimStart (b ++ (source.toList ++ m)) = source.toList ++ m := by
    rw [trimStart_blanks_append hb]
    refine trimStart_eq_self fun c hc => hsource.trimmed.1 c ?_
    rwa [List.head?_append_of_ne_nil _ hsource.toList_ne_nil] at hc
  have htrim : trim (b ++ (source.toList ++ m)) = source.toList := by
    rw [trim_blanks_append hb, trim_append_blanks hm, trim_eq_self hsource.trimmed]
  have hread : Source.readRule (b ++ (source.toList ++ m)) = ⟨source, none⟩ := by
    have htextOf : Source.readRule (Source.textOf (some source) none).toList = ⟨source, none⟩ :=
      Source.readRule_textOf hsource nofun
    rwa [Source.toList_textOf_none, ← htrim, Source.readRule_trim] at htextOf
  have hfree : Operator.Free (trimStart (b ++ (source.toList ++ m))) := by
    rw [hstart]
    exact hsource.free hm
  have hleft : ¬ Blanks (b ++ (source.toList ++ m)) := fun hblanks =>
    hsource.toList_ne_nil (by rw [← htrim, trim_eq_nil_iff.2 hblanks])
  rw [readText_append_sign hfree hleft hright (by simpa using htext), hread]

/-! ## Main result -/

/-- Blanks between the tokens of a mapping mean nothing, as long as none of them is in front of the
marker of arrays.  With a blank there the text is refused. -/
theorem readText_spaced {source : String} (hsource : SourceText source) {t : Target}
    (ht : t.Consistent) {text : String}
    (h : Spaced (source.toList :: Operator.map.sign :: t.tokens) text.toList) :
    (¬ Target.MarkerApart (trim text.toList) →
        readText text = .ok (.map ⟨source, none⟩ none t)) ∧
      (Target.MarkerApart (trim text.toList) →
        readText text = .error (.unreadable text (.invalidTypeName ""))) := by
  generalize htext : text.toList = whole at h
  obtain _ | @⟨b, _, _, _, hb, h⟩ := h
  obtain _ | @⟨m, _, cs, _, hm, hcs⟩ := h
  have hblanks : ¬ Blanks cs := Target.not_blanks_of_read (Target.read_of_spaced ht hcs)
  have hread := readText_source_sign hsource hb hm hblanks htext
  obtain ⟨front, htrim⟩ : ∃ front, trim text.toList = front ++ trim cs := by
    have hfront := exists_trim_append hblanks (b ++ (source.toList ++ (m ++ Operator.map.sign)))
    rw [htext]
    simpa using hfront
  rw [← htext, htrim]
  have hplain (hmarker : ¬ Target.MarkerApart (trim cs)) :
      readText text = .ok (.map ⟨source, none⟩ none t) := by
    rw [hread, (Target.writtenAs_of_spaced ht hcs hmarker).readSides]
    rfl
  cases harray : t.array with
  | false =>
    have hderives := Target.derives_of_spaced ht harray hcs
    exact ⟨fun _ => hplain (Target.not_markerApart_of_derives hderives []),
      fun hmarker => absurd hmarker (Target.not_markerApart_of_derives hderives front)⟩
  | true =>
    obtain ⟨m, hm, hcs'⟩ := Target.exists_trim_of_spaced ht harray hcs
    obtain ⟨-, hname⟩ := Target.type_of_array ht harray
    rw [hcs', Target.markerApart_iff hname hm]
    have hown : Target.MarkerApart (trim cs) ↔ m ≠ [] := by
      rw [hcs']
      exact Target.markerApart_iff hname hm []
    rw [hown] at hplain
    refine ⟨hplain, fun hne => ?_⟩
    rw [hread, hcs', readSides_markerApart _ hname hm hne]
    rfl

/-- Blanks of several kinds at every place of a target with arguments, and in front of a marker. -/
theorem readText_spaced_everywhere :
    let t : Target := ⟨.mk "Map" [.ofName "A", .mk "List" [.ofName "?"]], false, false⟩
    readText " Foo\t=>\n Map < A\u00a0,List <?>\u2003> " = .ok (.map ⟨"Foo", none⟩ none t) ∧
      readText "Foo=>byte\t []" =
        .error (.unreadable "Foo=>byte\t []" (.invalidTypeName "")) := by
  intro t
  have hfoo : SourceText "Foo" := by decide +kernel
  have hmap : Spaced ("Foo".toList :: Operator.map.sign :: t.tokens)
      " Foo\t=>\n Map < A\u00a0,List <?>\u2003> ".toList := by
    have htokens : t.tokens = ["Map".toList, ['<'], ['A'], [','], "List".toList, ['<'], ['?'],
      ['>'], ['>']] := by decide +kernel
    have hblanks : Blanks " ".toList ∧ Blanks "\t".toList ∧ Blanks "\n ".toList ∧
      Blanks "\u00a0".toList ∧ Blanks "\u2003".toList := by decide +kernel
    obtain ⟨hspace, htab, hline, hfixed, hwide⟩ := hblanks
    rw [htokens]
    exact .cons hspace <| .cons htab <| .cons hline <| .cons hspace <| .cons hspace <|
      .cons hfixed <| .cons blanks_nil <| .cons hspace <| .cons blanks_nil <| .cons blanks_nil <|
      .cons hwide <| .nil hspace
  have hbyte : Spaced ("Foo".toList :: Operator.map.sign ::
      Target.tokens ⟨.ofName "byte", true, true⟩) "Foo=>byte\t []".toList := by
    have htokens : Target.tokens ⟨.ofName "byte", true, true⟩ = ["byte".toList, arrayMarker] := by
      decide +kernel
    have hblanks : Blanks "\t ".toList := by decide +kernel
    rw [htokens]
    exact .cons blanks_nil <| .cons blanks_nil <| .cons blanks_nil <| .cons hblanks <|
      .nil blanks_nil
  obtain ⟨hplain, -⟩ := readText_spaced hfoo (by decide +kernel) hmap
  obtain ⟨-, hapart⟩ := readText_spaced hfoo (by decide +kernel) hbyte
  refine ⟨hplain ?_, hapart ?_⟩
  · rintro ⟨front, b, -, h⟩
    have hlast : (trim " Foo\t=>\n Map < A\u00a0,List <?>\u2003> ".toList).getLast? = some ']' := by
      rw [h]
      simp [arrayMarker]
    exact absurd hlast (by decide +kernel)
  · exact ⟨"Foo=>byte\t".toList, ' ', by decide, by decide +kernel⟩

/-- A blank between a primitive type and its marker makes the type an annotation. -/
theorem readText_byte_apart :
    SourceText "Foo" ∧ Target.Consistent ⟨.ofName "byte", true, true⟩ ∧
      readText "Foo => byte[]" = .ok (.map ⟨"Foo", none⟩ none ⟨.ofName "byte", true, true⟩) ∧
      readText "Foo => byte []" =
        .error (.unreadable "Foo => byte []" (.invalidTypeName "")) := by
  decide +kernel

end Phrase

end TypeRules
