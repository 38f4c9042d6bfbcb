import TypeRules.Proofs.Document.Entries
import TypeRules.Proofs.Phrase.Sides

/-! # Type arguments that are given apart

The arguments of a type can stand in brackets behind its name, or apart from the rule text.  In
brackets they are references, and apart each one is a text of its own, read like a rule.

* `read_unmarked`, `read_of_isMarked` compare the two ways to read an argument: they agree but for
  the marker of arrays, which is dropped apart and refused in brackets.
* `TypeRef.read_bracketed` — arguments in brackets are read one by one, if the commas between them
  are the only ones in the open.
* `Phrase.readText_bracketed` — with arguments in brackets a text has another type, and is the same
  phrase otherwise.
* `Entry.exists_converted` — the arguments of a converted entry may as well be part of its type.
* `Entry.convert_bracketed` is the statement about entries.
-/

namespace TypeRules

open Text

/-! ## Arguments by themselves -/

/-- Whether a type argument has the marker of arrays at its end. -/
def isMarked (text : String) : Bool := (withoutSuffix? arrayMarker (trim text.toList)).isSome

/-- A type argument without the marker of arrays. -/
def unmarked (text : String) : String :=
  match withoutSuffix? arrayMarker (trim text.toList) with
  | some base => String.ofList base
  | none => text

theorem unmarked_of_not_isMarked {text : String} (h : isMarked text = false) :
    unmarked text = text := by
  rw [isMarked, Option.isSome_eq_false_iff, Option.isNone_iff_eq_none] at h
  rw [unmarked, h]

theorem read_unmarked_of_target {text : String} {t : Target}
    (h : Target.read (trim text.toList) = .ok t) :
    TypeRef.read (unmarked text).toList = .ok t.type ∧ (isMarked text = true → t.type.args = []) := by
  obtain ⟨hbase, harray⟩ := Target.type_of_read h
  rw [trim_trim] at hbase harray
  constructor
  · rw [unmarked]
    split
    · next base hcut =>
      rw [hcut] at hbase
      rwa [String.toList_ofList]
    · next hcut =>
      rw [hcut] at hbase
      exact (TypeRef.read_eq_of_trim_eq (trim_trim _)).symm.trans hbase
  · intro hmarked
    have hconsistent := Target.consistent_of_read h
    rw [isMarked, ← harray] at hmarked
    exact (hconsistent.primitive.1 (hconsistent.array hmarked)).1

theorem read_of_wildcard {text : String} (h : trimString text = wildcardName) :
    TypeRef.read text.toList = .ok (.ofName wildcardName) ∧ isMarked text = false := by
  have htrim : trim text.toList = trim ['?'] := by
    rw [← toList_trimString, h]
    rfl
  constructor
  · rw [TypeRef.read_eq_of_trim_eq htrim]
    exact TypeRef.read_of_derives (.name blanks_nil .wildcard blanks_nil)
  · rw [isMarked, htrim]
    rfl

/-- An argument given apart is read as what it is without the marker, and with the marker it has
no arguments itself. -/
theorem read_unmarked {text : String} {t : TypeRef} (h : readGeneric text = .ok t) :
    TypeRef.read (unmarked text).toList = .ok t ∧ (isMarked text = true → t.args = []) := by
  obtain ⟨phrase, hphrase, h⟩ := bind_eq_ok_iff.1 h
  have hreads := Phrase.reads_of_readText hphrase
  split at h
  · cases h
    cases hreads with
    | target _ _ ht => exact read_unmarked_of_target ht
  · split at h
    · next hname =>
      cases h
      cases hreads with
      | name =>
        obtain ⟨hread, hmarked⟩ := read_of_wildcard hname
        rw [unmarked_of_not_isMarked hmarked, hname]
        exact ⟨hread, fun _ => rfl⟩
    · cases h
  · cases h

/-- Without the marker, an argument in brackets is what it is apart. -/
theorem read_of_not_isMarked {text : String} {t : TypeRef} (h : readGeneric text = .ok t)
    (hmarked : isMarked text = false) : TypeRef.read text.toList = .ok t := by
  have hread := (read_unmarked h).1
  rwa [unmarked_of_not_isMarked hmarked] at hread

theorem eq_of_isMarked {text : String} (h : isMarked text = true) :
    trim text.toList = (unmarked text).toList ++ arrayMarker := by
  obtain ⟨base, hbase⟩ := Option.isSome_iff_exists.1 h
  rw [unmarked, hbase, String.toList_ofList, eq_of_withoutSuffix? hbase]

theorem isPlainChar_of_isMarked {text : String} {t : TypeRef} (h : readGeneric text = .ok t)
    (hmarked : isMarked text = true) :
    ∀ c ∈ text.toList, TypeRef.isPlainChar c = true ∨ c ∈ arrayMarker := by
  obtain ⟨hread, hargs⟩ := read_unmarked h
  have hbase := (TypeRef.derives_of_read hread).isPlainChar_of_args_eq_nil (hargs hmarked)
  intro c hc
  cases hblank : isBlank c with
  | true => exact .inl (by simp [TypeRef.isPlainChar, hblank])
  | false =>
    have hmem := mem_trim hc hblank
    rw [eq_of_isMarked hmarked] at hmem
    exact (List.mem_append.1 hmem).imp_left (hbase c)

/-- In brackets, an argument with the marker is a name that is none. -/
theorem read_of_isMarked {text : String} {t : TypeRef} (h : readGeneric text = .ok t)
    (hmarked : isMarked text = true) :
    TypeRef.read text.toList = .error (.invalidTypeName (trimString text)) := by
  have hopen : cutAt? (· == '<') (trim text.toList) = none := by
    rw [cutAt?_eq_none_iff]
    intro c hc
    rw [beq_eq_false_iff_ne]
    rintro rfl
    rcases isPlainChar_of_isMarked h hmarked _ (mem_of_mem_trim hc) with hplain | hmarker
    · exact absurd hplain (by decide +kernel)
    · exact absurd hmarker (by decide)
  have hname : isTypeName (trim text.toList) = false := by
    refine Bool.eq_false_iff.2 fun hname => ?_
    have hchar := (isTypeName_iff.1 hname).isNameChar '[' (by
      rw [eq_of_isMarked hmarked]
      exact List.mem_append_right _ (by decide))
    exact absurd hchar (by decide +kernel)
  rw [TypeRef.read_of_no_angle hopen, TypeRef.readName]
  simp only [hname]
  rfl

/-- A text that stays whole among others with commas between them. -/
structure Whole (text : String) : Prop where
  balanced : Balanced text.toList
  comma : ',' ∉ Nesting.top.exposed text.toList

theorem whole_of_read {text : String} {t : TypeRef} (h : TypeRef.read text.toList = .ok t) :
    Whole text :=
  ⟨(TypeRef.derives_of_read h).balanced.1, (TypeRef.derives_of_read h).comma_not_mem⟩

theorem whole_of_readGeneric {text : String} {t : TypeRef} (h : readGeneric text = .ok t) :
    Whole text := by
  cases hmarked : isMarked text with
  | false => exact whole_of_read (read_of_not_isMarked h hmarked)
  | true =>
    have hchars := isPlainChar_of_isMarked h hmarked
    refine ⟨balanced_of_isQuiet fun c hc => ?_, fun hmem => ?_⟩
    · rcases hchars c hc with hplain | hmarker
      · exact TypeRef.isQuiet_of_isPlainChar hplain
      · exact List.all_eq_true.1 (by decide : arrayMarker.all isQuiet = true) c hmarker
    · rcases hchars _ (Nesting.mem_of_mem_exposed hmem) with hplain | hmarker
      · exact absurd hplain (by decide +kernel)
      · exact absurd hmarker (by decide)

/-! ## Arguments in brackets -/

namespace TypeRef

/-- The text of a type with the texts of its arguments in brackets. -/
def bracketed (name : String) (texts : List String) : String :=
  name ++ "<" ++ ", ".intercalate texts ++ ">"

theorem toList_bracketed (name : String) (texts : List String) :
    (bracketed name texts).toList =
      name.toList ++ '<' :: (joinWith ", ".toList (texts.map String.toList) ++ ['>']) := by
  rw [bracketed, String.toList_append, String.toList_append, String.toList_append,
    String.toList_intercalate, joinWith_eq_intercalate]
  simp only [List.append_assoc]
  rfl

theorem trimmed_bracketed {name : String} (hname : TypeName name.toList) (texts : List String) :
    Trimmed (bracketed name texts).toList := by
  have htrimmed := trimmed_generic hname ('<' :: joinWith ", ".toList (texts.map String.toList))
  rwa [List.cons_append, ← toList_bracketed] at htrimmed

theorem splitTop_joinWith_comma {first : String} {rest : List String}
    (h : ∀ text ∈ first :: rest, Whole text) :
    splitTop ',' (joinWith ", ".toList ((first :: rest).map String.toList)) =
      first.toList :: rest.map fun text => ' ' :: text.toList := by
  have hinner : joinWith ", ".toList ((first :: rest).map String.toList) =
      joinWith [','] (first.toList :: rest.map fun text => ' ' :: text.toList) := by
    have hseparator : ", ".toList = ',' :: [' '] := rfl
    rw [hseparator, List.map_cons, joinWith_cons_separator]
    simp [Function.comp_def]
  rw [hinner]
  refine splitTop_joinWith rfl (List.cons_ne_nil _ _) fun piece hpiece => ?_
  rcases List.mem_cons.1 hpiece with rfl | hpiece
  · obtain ⟨hbalanced, hcomma⟩ := h first List.mem_cons_self
    exact ⟨hbalanced, hcomma⟩
  · obtain ⟨text, htext, rfl⟩ := List.mem_map.1 hpiece
    obtain ⟨hbalanced, hcomma⟩ := h text (List.mem_cons_of_mem _ htext)
    exact ⟨blanks_space.balanced.append hbalanced, blanks_space.not_mem_exposed_append rfl hcomma⟩

theorem readName_of_typeName {name : String} (hname : TypeName name.toList) :
    readName name.toList = .ok name := by
  have hself := trim_eq_self hname.trimmed
  exact readName_eq_ok_iff.2 ⟨by rwa [hself], by rw [hself, String.ofList_toList]⟩

/-- A list of arguments is read by reading each of them. -/
theorem read_bracketed {name : String} (hname : TypeName name.toList) {texts : List String}
    (hne : texts ≠ []) (h : ∀ text ∈ texts, Whole text) :
    read (bracketed name texts).toList =
      (texts.mapM fun text => read text.toList).map (mk name) := by
  obtain ⟨first, rest, rfl⟩ := List.exists_cons_of_ne_nil hne
  have hopen : cutAt? (· == '<') (trim (bracketed name (first :: rest)).toList) =
      some (name.toList, joinWith ", ".toList ((first :: rest).map String.toList) ++ ['>']) := by
    have hplain := isPlainChar_of_mem blanks_nil hname blanks_nil
    rw [List.nil_append, List.append_nil] at hplain
    rw [trim_eq_self (trimmed_bracketed hname _), toList_bracketed]
    exact cutAt?_append_cons (ne_angle_of_isPlainChar hplain) rfl _
  have hblank : ∀ text : String, read (' ' :: text.toList) = read text.toList := fun text =>
    read_eq_of_trim_eq (trim_blanks_append blanks_space _)
  rw [read_of_brackets hopen (withoutSuffix?_append _ _), splitTop_joinWith_comma h,
    readName_of_typeName hname, List.mapM_cons, List.mapM_map, List.mapM_cons]
  simp only [Function.comp_def, hblank]
  cases read first.toList with
  | error fault => rfl
  | ok t => cases rest.mapM fun text => read text.toList <;> rfl

end TypeRef

theorem Target.read_bracketed {name : String} (hname : TypeName name.toList)
    {texts : List String} (hne : texts ≠ []) (h : ∀ text ∈ texts, Whole text) :
    read (TypeRef.bracketed name texts).toList =
      (texts.mapM fun text => TypeRef.read text.toList).map fun args =>
        ⟨.mk name args, false, false⟩ := by
  have hlast : withoutSuffix? arrayMarker (TypeRef.bracketed name texts).toList = none := by
    refine withoutSuffix?_eq_none (d := ']') ?_ ['[']
    rw [TypeRef.toList_bracketed, ← List.cons_append, ← List.append_assoc, List.getLast?_concat]
    decide
  rw [read, trim_eq_self (TypeRef.trimmed_bracketed hname texts), hlast]
  simp only [Option.getD_none, Option.isSome_none, TypeRef.read_bracketed hname hne h]
  cases hargs : texts.mapM fun text => TypeRef.read text.toList with
  | error fault => rfl
  | ok args =>
    have hargs' : args ≠ [] := by
      rintro rfl
      exact hne (List.forall₂_nil_right_iff.1 (mapM_eq_ok_iff_forall₂.1 hargs))
    simp [Except.map, hargs']

/-! ## Lists of arguments -/

theorem mapM_read_unmarked {generics : List String} {args : List TypeRef}
    (h : generics.mapM readGeneric = .ok args) :
    (generics.map unmarked).mapM (fun text => TypeRef.read text.toList) = .ok args := by
  rw [mapM_eq_ok_iff_forall₂, List.forall₂_map_left_iff]
  exact (mapM_eq_ok_iff_forall₂.1 h).imp fun _ _ hread => (read_unmarked hread).1

/-- In brackets, the first argument with the marker is refused. -/
theorem mapM_read_of_find? {generics : List String} {args : List TypeRef}
    (h : generics.mapM readGeneric = .ok args) {text : String}
    (hfind : generics.find? isMarked = some text) :
    generics.mapM (fun text => TypeRef.read text.toList) =
      .error (.invalidTypeName (trimString text)) := by
  obtain ⟨hmarked, front, back, rfl, hfront⟩ := List.find?_eq_some_iff_append.1 hfind
  obtain ⟨t, ht⟩ := exists_ok_of_mapM h (by simp : text ∈ front ++ text :: back)
  have hnone : (front.findSome? fun text => refusal? (TypeRef.read text.toList)) = none := by
    refine List.findSome?_eq_none_iff.2 fun other hother => ?_
    obtain ⟨u, hu⟩ := exists_ok_of_mapM h (List.mem_append_left _ hother)
    rw [read_of_not_isMarked hu (by simpa using hfront other hother)]
    rfl
  rw [← refusal?_eq_some_iff, refusal?_mapM, List.findSome?_append, hnone, List.findSome?_cons,
    read_of_isMarked ht hmarked]
  rfl

/-! ## Phrases -/

namespace Phrase

/-- The phrase with another type behind its operator. -/
def withType : Phrase → TypeRef → Phrase
  | map source annotation t, type => map source annotation { t with type }
  | implement source _, type => implement source type
  | phrase, _ => phrase

theorem readSides_map_name (source : Source) {name : String} (hname : TypeName name.toList)
    (hprimitive : name ∉ primitiveNames) :
    readSides source .map name.toList = .ok (map source none ⟨.ofName name, false, false⟩) := by
  have hconsistent : (Target.mk (.ofName name) false false).Consistent := {
    type := .mk hname nofun
    primitive := by simp [TypeRef.ofName, hprimitive]
    array := nofun }
  have hchars : (Target.mk (.ofName name) false false).chars = name.toList := List.append_nil _
  rw [← hchars]
  exact readSides_map_chars hconsistent source

theorem readSides_map_bracketed (source : Source) {name : String} (hname : TypeName name.toList)
    {texts : List String} (hne : texts ≠ []) (h : ∀ text ∈ texts, Whole text) :
    readSides source .map (TypeRef.bracketed name texts).toList =
      (texts.mapM fun text => TypeRef.read text.toList).map fun args =>
        map source none ⟨.mk name args, false, false⟩ := by
  -- The blanks behind the commas are inside of the brackets, so there is no annotation.
  have hcut : cutAnnotation (TypeRef.bracketed name texts).toList =
      (none, (TypeRef.bracketed name texts).toList) := by
    refine cutAnnotation_eq_none fun c hc => ?_
    have hfront : Balanced name.toList :=
      balanced_of_isQuiet fun c hc => isQuiet_of_isNameChar (hname.isNameChar c hc)
    have hcomma : Balanced ", ".toList := balanced_of_isQuiet (List.all_eq_true.1 rfl)
    have hinner : Balanced (joinWith ", ".toList (texts.map String.toList)) :=
      hcomma.joinWith fun piece hpiece => by
        obtain ⟨text, htext, rfl⟩ := List.mem_map.1 hpiece
        exact (h text htext).balanced
    rw [TypeRef.toList_bracketed, hfront.exposed_append, Nesting.top, exposed_angles hinner 0,
      List.append_nil] at hc
    exact isBlank_of_isNameChar (hname.isNameChar c (Nesting.mem_of_mem_exposed hc))
  simp only [readSides, hcut, Target.read_bracketed hname hne h]
  cases texts.mapM fun text => TypeRef.read text.toList <;> rfl

/-- With arguments in brackets, a text with a name behind its operator has another type, and is the
same phrase otherwise. -/
theorem readText_bracketed {operator : Operator} (hoperator : operator ≠ .annotate)
    {source : List Char} {name : String} (hname : TypeName name.toList)
    (hprimitive : name ∉ primitiveNames) {text : String} {phrase : Phrase}
    (htext : text.toList = source ++ ' ' :: (operator.sign ++ ' ' :: name.toList))
    (h : readText text = .ok phrase) (hsource : phrase.source? ≠ none) :
    phrase.type? = some (.ofName name) ∧
      ∀ (texts : List String) (other : String), texts ≠ [] → (∀ text ∈ texts, Whole text) →
        other.toList = source ++
          ' ' :: (operator.sign ++ ' ' :: (TypeRef.bracketed name texts).toList) →
        readText other = ((texts.mapM fun text => TypeRef.read text.toList).map fun args =>
          phrase.withType (.mk name args)).mapError (.unreadable other) := by
  obtain ⟨s, hs⟩ := exists_source_of_readText hoperator hname htext h hsource
  have hsides : readSides s operator name.toList = .ok phrase := by
    rw [hs name.toList text hname.trimmed hname.ne_nil htext] at h
    exact mapError_eq_ok_iff.1 h
  have hother : ∀ (texts : List String) (other : String),
      other.toList = source ++
        ' ' :: (operator.sign ++ ' ' :: (TypeRef.bracketed name texts).toList) →
      readText other = (readSides s operator (TypeRef.bracketed name texts).toList).mapError
        (.unreadable other) := by
    intro texts other heq
    refine hs _ other (TypeRef.trimmed_bracketed hname texts) ?_ heq
    rw [TypeRef.toList_bracketed]
    simp
  cases operator with
  | annotate => exact absurd rfl hoperator
  | map =>
    rw [readSides_map_name s hname hprimitive] at hsides
    cases hsides
    refine ⟨rfl, fun texts other hne htexts heq => ?_⟩
    rw [hother texts other heq, readSides_map_bracketed s hname hne htexts]
    rfl
  | implement =>
    have hread : TypeRef.read name.toList = .ok (.ofName name) :=
      TypeRef.read_text (t := .ofName name) (.mk hname nofun)
    simp only [readSides, hread] at hsides
    cases hsides
    refine ⟨rfl, fun texts other hne htexts heq => ?_⟩
    rw [hother texts other heq, readSides, TypeRef.read_bracketed hname hne htexts]
    cases texts.mapM fun text => TypeRef.read text.toList <;> rfl

end Phrase

/-! ## Entries -/

theorem TypeRef.exists_of_applyTo_ofName {name : String} {generics : List String} {t : TypeRef}
    (h : (ofName name).applyTo generics = .ok t) :
    ∃ args, generics.mapM readGeneric = .ok args ∧ t = mk name args := by
  obtain ⟨args, hargs, rfl⟩ := map_eq_ok_iff.1 h
  exact ⟨args, hargs, rfl⟩

/-- The arguments given apart may as well be part of the target. -/
theorem Target.exists_of_rule {t : Target} {source : Option Source} {generics : List String}
    {r : TypeRule} (h : t.rule source generics = .ok r) :
    ∃ full, t.type.applyTo generics = .ok full ∧
      ({ t with type := full } : Target).rule source [] = .ok r := by
  obtain ⟨full, hfull, hr⟩ := bind_eq_ok_iff.1 h
  exact ⟨full, hfull, bind_eq_ok_iff.2 ⟨full, full.applyTo_nil, hr⟩⟩

namespace Entry

/-- The ways in which entries become rules. -/
def converters : List (Entry → Except Error Rule) := [typeRule, nameRule, addRule, contentRule]

variable {convert : Entry → Except Error Rule} {e : Entry} {rule : Rule}

theorem convert_of_readText_error (hconvert : convert ∈ converters) {error : Error}
    (h : Phrase.readText e.rule = .error error) : convert e = .error error := by
  simp only [converters, List.mem_cons, List.not_mem_nil, or_false] at hconvert
  rcases hconvert with rfl | rfl | rfl | rfl
  · rw [typeRule, h]
    rfl
  · rw [nameRule, h]
    rfl
  · rw [addRule, h]
    rfl
  · rw [contentRule, h]
    rfl

/-- What an entry is read as if it is converted: there is a source, and the arguments given apart
may as well be part of the type. -/
structure Converted (convert : Entry → Except Error Rule) (e : Entry) (rule : Rule)
    (phrase : Phrase) : Prop where
  reads : Phrase.readText e.rule = .ok phrase
  source : phrase.source? ≠ none
  moved : ∀ type ∈ phrase.type?, ∃ full, type.applyTo e.generics = .ok full ∧
    ∀ text, Phrase.readText text = .ok (phrase.withType full) → convert ⟨text, []⟩ = .ok rule

theorem converted_map {source : Source} {mark : Option Annotation} {t : Target}
    {place : Option Source} {f : TypeRule → Except Error Rule}
    (hmap : ∀ (e : Entry) (t : Target), Phrase.readText e.rule = .ok (.map source mark t) →
      convert e = t.rule place e.generics >>= f)
    (hphrase : Phrase.readText e.rule = .ok (.map source mark t)) (h : convert e = .ok rule) :
    Converted convert e rule (.map source mark t) := by
  rw [hmap e t hphrase] at h
  obtain ⟨r, hr, hrule⟩ := bind_eq_ok_iff.1 h
  obtain ⟨full, hfull, hr⟩ := Target.exists_of_rule hr
  refine ⟨hphrase, nofun, fun type htype => ?_⟩
  cases htype
  refine ⟨full, hfull, fun text htext => ?_⟩
  rw [hmap ⟨text, []⟩ _ htext]
  exact bind_eq_ok_iff.2 ⟨r, hr, hrule⟩

theorem exists_converted (hconvert : convert ∈ converters) (h : convert e = .ok rule) :
    ∃ phrase, Converted convert e rule phrase := by
  simp only [converters, List.mem_cons, List.not_mem_nil, or_false] at hconvert
  rcases hconvert with rfl | rfl | rfl | rfl
  · obtain ⟨phrase, hphrase, hrule⟩ := bind_eq_ok_iff.1 h
    split at hrule
    · exact ⟨_, converted_map (fun e t he => by rw [typeRule, he]; rfl) hphrase h⟩
    · exact ⟨_, hphrase, nofun, nofun⟩
    · obtain ⟨full, hfull, hrule⟩ := bind_eq_ok_iff.1 hrule
      refine ⟨_, hphrase, nofun, fun type htype => ?_⟩
      cases htype
      exact ⟨full, hfull, fun text htext => bind_eq_ok_iff.2 ⟨_, htext,
        bind_eq_ok_iff.2 ⟨full, full.applyTo_nil, hrule⟩⟩⟩
    · cases hrule
  · obtain ⟨phrase, hphrase, hrule⟩ := bind_eq_ok_iff.1 h
    split at hrule
    · exact ⟨_, converted_map (fun e t he => by rw [nameRule, he]; rfl) hphrase h⟩
    · exact ⟨_, hphrase, nofun, nofun⟩
    · cases hrule
  · obtain ⟨phrase, hphrase, hrule⟩ := bind_eq_ok_iff.1 h
    split at hrule
    · exact ⟨_, converted_map (fun e t he => by rw [addRule, he]; rfl) hphrase h⟩
    · cases hrule
  · obtain ⟨phrase, hphrase, hrule⟩ := bind_eq_ok_iff.1 h
    split at hrule
    · exact ⟨_, converted_map (fun e t he => by rw [contentRule, he]; rfl) hphrase h⟩
    · cases hrule

/-! ## Main result -/

/-- A rule text of a source, an operator and what stands behind it. -/
def ruleText (source : String) (operator : Operator) (target : String) : String :=
  source ++ " " ++ String.ofList operator.sign ++ " " ++ target

/-- An entry about a type whose arguments are given apart. -/
def apart (source : String) (operator : Operator) (name : String) (generics : List String) :
    Entry :=
  ⟨ruleText source operator name, generics⟩

/-- An entry about a type whose arguments are in brackets. -/
def bracketed (source : String) (operator : Operator) (name : String) (generics : List String) :
    Entry :=
  ⟨ruleText source operator (TypeRef.bracketed name generics), []⟩

theorem toList_ruleText (source : String) (operator : Operator) (target : String) :
    (ruleText source operator target).toList =
      source.toList ++ ' ' :: (operator.sign ++ ' ' :: target.toList) := by
  simp [ruleText]

/-- If an entry with arguments given apart is converted, it becomes the same rule with these in
brackets behind the name, without markers of arrays.  With markers, the first one is refused. -/
theorem convert_bracketed (hconvert : convert ∈ converters) {operator : Operator}
    (hoperator : operator ≠ .annotate) {source name : String} (hname : TypeName name.toList)
    (hprimitive : name ∉ primitiveNames) {generics : List String} (hne : generics ≠ [])
    (h : convert (apart source operator name generics) = .ok rule) :
    convert (bracketed source operator name (generics.map unmarked)) = .ok rule ∧
      ((∀ text ∈ generics, isMarked text = false) →
        convert (bracketed source operator name generics) = .ok rule) ∧
      ∀ text, generics.find? isMarked = some text →
        convert (bracketed source operator name generics) =
          .error (.unreadable (bracketed source operator name generics).rule
            (.invalidTypeName (trimString text))) := by
  obtain ⟨phrase, hphrase, hsource, hmoved⟩ := exists_converted hconvert h
  obtain ⟨htype, hread⟩ := Phrase.readText_bracketed hoperator hname hprimitive
    (toList_ruleText source operator name) hphrase hsource
  obtain ⟨full, hfull, hmoved⟩ := hmoved _ htype
  obtain ⟨args, hargs, rfl⟩ : ∃ args, generics.mapM readGeneric = .ok args ∧ full = .mk name args :=
    TypeRef.exists_of_applyTo_ofName hfull
  have hunmarked : convert (bracketed source operator name (generics.map unmarked)) = .ok rule := by
    have hread := hread (generics.map unmarked) _ (by simpa using hne) (fun text htext => ?_)
      (toList_ruleText source operator _)
    · rw [mapM_read_unmarked hargs] at hread
      exact hmoved _ hread
    · obtain ⟨t, ht⟩ := exists_ok_of_mapM (mapM_read_unmarked hargs) htext
      exact whole_of_read ht
  refine ⟨hunmarked, fun hmarked => ?_, fun text hfind => ?_⟩
  · have hself : generics.map unmarked = generics :=
      (List.map_congr_left fun text htext => unmarked_of_not_isMarked (hmarked text htext)).trans
        (List.map_id' _)
    rwa [hself] at hunmarked
  · have hread := hread generics _ hne (fun text htext => ?_) (toList_ruleText source operator _)
    · rw [mapM_read_of_find? hargs hfind] at hread
      exact convert_of_readText_error hconvert hread
    · obtain ⟨t, ht⟩ := exists_ok_of_mapM hargs htext
      exact whole_of_readGeneric ht

/-- Type arguments with arguments themselves, the wildcard and the placeholder. -/
def nestedGenerics : List String := ["?", " java.util.List< \x7bpackage-name\x7d.Bar >"]

theorem convert_bracketed_nestedGenerics :
    ∃ rule, typeRule (apart "Foo" .map "java.util.Map" nestedGenerics) = .ok rule ∧
      typeRule (bracketed "Foo" .map "java.util.Map" nestedGenerics) = .ok rule := by
  have haccepted : refusal? (typeRule (apart "Foo" .map "java.util.Map" nestedGenerics)) = none := by
    decide +kernel
  obtain ⟨rule, hrule⟩ := refusal?_eq_none_iff.1 haccepted
  exact ⟨rule, hrule, (convert_bracketed (by simp [converters]) (by decide)
    (isTypeName_iff.1 (by decide +kernel)) (by decide) (by decide) hrule).2.1 (by decide +kernel)⟩

/-- An array among the arguments is taken for its elements if it is given apart, and refused in
brackets. -/
theorem convert_bracketed_array :
    typeRule (apart "Foo" .map "java.util.List" ["byte[]"]) =
        .ok (.type ⟨some "Foo", none, .mk "java.util.List" [.ofName "byte"], false, false⟩) ∧
      typeRule (bracketed "Foo" .map "java.util.List" ["byte[]"]) =
        .error (.unreadable "Foo => java.util.List<byte[]>" (.invalidTypeName "byte[]")) := by
  decide +kernel

end Entry

end TypeRules
