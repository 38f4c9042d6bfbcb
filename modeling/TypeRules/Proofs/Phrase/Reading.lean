import TypeRules.Proofs.Phrase.Target
import TypeRules.Proofs.Text.Trim

/-! # What rule texts are read as

* `Phrase.Reads` takes a rule text apart that is read as a phrase: each kind of phrase comes from
  texts of one shape, with the readings of their parts.
* `Phrase.reads_of_readText` — there is no other way to be read.
* `Target.consistent_of_read`, `Annotation.typeName_of_read`, `Source.clean_readRule` — what the
  parts are like: names of types match their pattern, flags fit the target, and sources have no
  blanks around them.
-/

namespace TypeRules

open Text

/-! ## Parts of phrases -/

theorem TypeRef.wellNamed_of_read {cs : List Char} {t : TypeRef} (h : read cs = .ok t) :
    t.WellNamed := (derives_of_read h).wellNamed

theorem TypeRef.typeName_of_readName {cs : List Char} {name : String}
    (h : readName cs = .ok name) : TypeName name.toList := by
  obtain ⟨hname, rfl⟩ := readName_eq_ok_iff.1 h
  rwa [String.toList_ofList]

theorem Target.read_trim (cs : List Char) : read (trim cs) = read cs := by
  simp only [read, trim_trim]

theorem Target.type_of_read {cs : List Char} {t : Target} (h : read cs = .ok t) :
    TypeRef.read ((withoutSuffix? arrayMarker (trim cs)).getD (trim cs)) = .ok t.type ∧
      t.array = (withoutSuffix? arrayMarker (trim cs)).isSome := by
  obtain ⟨type, htype, h⟩ := bind_eq_ok_iff.1 h
  dsimp only at h
  split at h
  · cases h
  · cases h
    exact ⟨htype, rfl⟩

theorem Target.consistent_of_read {cs : List Char} {t : Target} (h : read cs = .ok t) :
    t.Consistent := by
  obtain ⟨type, htype, h⟩ := bind_eq_ok_iff.1 h
  have hprimitive : (type.args.isEmpty && primitiveNames.contains type.name) = true ↔
      type.args = [] ∧ type.name ∈ primitiveNames := by
    rw [Bool.and_eq_true, List.isEmpty_iff, List.contains_iff_mem]
  dsimp only at h
  split at h
  · cases h
  · next hguard =>
    cases h
    exact {
      type := TypeRef.wellNamed_of_read htype
      primitive := hprimitive
      array := by simpa using hguard }

namespace Annotation

theorem read_trim (cs : List Char) : read (trim cs) = read cs := by
  simp only [read, TypeRef.readName, trim_trim]

theorem not_blanks_of_read {cs : List Char} {a : Annotation} (h : read cs = .ok a) :
    ¬ Blanks cs := by
  intro hblanks
  rw [read, trim_eq_nil_iff.2 hblanks] at h
  obtain ⟨name, hname, -⟩ := map_eq_ok_iff.1 h
  have hpattern := (TypeRef.readName_eq_ok_iff.1 hname).1
  rw [trim_eq_nil_iff.2 hblanks] at hpattern
  exact hpattern.ne_nil rfl

theorem typeName_of_readParameters {a b : Annotation} {pieces : List (List Char)}
    (h : readParameters a pieces = .ok b) : b.typeName = a.typeName := by
  induction pieces generalizing a with
  | nil =>
    cases h
    rfl
  | cons piece pieces ih =>
    obtain ⟨⟨key, value⟩, -, h⟩ := bind_eq_ok_iff.1 h
    have hset : b.typeName = (a.set key value).typeName := ih h
    exact hset

theorem typeName_of_read {cs : List Char} {a : Annotation} (h : read cs = .ok a) :
    TypeName a.typeName.toList := by
  rw [read] at h
  split at h
  · obtain ⟨name, hname, rfl⟩ := map_eq_ok_iff.1 h
    exact TypeRef.typeName_of_readName hname
  · split at h
    · cases h
    · obtain ⟨name, hname, h⟩ := bind_eq_ok_iff.1 h
      split at h
      · cases h
        exact TypeRef.typeName_of_readName hname
      · rw [typeName_of_readParameters h]
        exact TypeRef.typeName_of_readName hname

end Annotation

/-- Name and format have no blanks around them, and an empty format is no format. -/
structure Source.Clean (s : Source) : Prop where
  name : Trimmed s.name.toList
  format : ∀ format ∈ s.format, Trimmed format.toList ∧ format ≠ ""

theorem trimmed_ofList_trim (cs : List Char) : Trimmed (String.ofList (trim cs)).toList := by
  rw [String.toList_ofList]
  exact trimmed_trim cs

theorem Source.clean_read (cs : List Char) : (read cs).Clean := by
  rw [read]
  split
  · next name format _ =>
    refine ⟨trimmed_ofList_trim name, fun f hf => ?_⟩
    simp only [formatOf] at hf
    split at hf
    · cases hf
    · next hne =>
      cases hf
      refine ⟨trimmed_ofList_trim format, ?_⟩
      simpa using hne
  · exact ⟨trimmed_ofList_trim cs, nofun⟩

theorem Source.clean_readRule (cs : List Char) : (readRule cs).Clean := by
  rw [readRule]
  split
  · exact ⟨trimmed_ofList_trim cs, nofun⟩
  · exact clean_read cs

/-! ## Phrases -/

namespace Phrase

/-- A text with an operator between two sides, none of which is blank. -/
structure Sides (text : String) (left : List Char) (operator : Operator) (right : List Char) :
    Prop where
  cut : ∃ l r, Operator.cut? (trim text.toList) = some (l, operator, r) ∧
    trim l = left ∧ trim r = right
  left_ne_nil : left ≠ []
  right_ne_nil : right ≠ []

theorem isInfix_of_cut? {cs left right : List Char} {operator : Operator}
    (h : Operator.cut? cs = some (left, operator, right)) : right <:+: cs := by
  obtain ⟨⟨front, rest⟩, hcut, h⟩ := Option.bind_eq_some_iff.1 h
  obtain ⟨⟨_, back⟩, hstart, h⟩ := Option.bind_eq_some_iff.1 h
  cases h
  obtain ⟨rfl, -⟩ := append_of_cutTopFrom? hcut
  have hback : right <:+ rest := by
    rw [Operator.atStart?.eq_def] at hstart
    split at hstart
    · cases hstart
      exact List.suffix_append ['=', '>'] right
    · cases hstart
      exact List.suffix_append ['=', '+'] right
    · cases hstart
      exact List.suffix_append ['@'] right
    · obtain ⟨behind, hword, heq⟩ := Option.map_eq_some_iff.1 hstart
      cases heq
      rw [eq_of_withoutPrefix? hword]
      exact List.suffix_append _ _
  exact (hback.trans (List.suffix_append _ rest)).isInfix

theorem Sides.right_isInfix {text : String} {left right : List Char} {operator : Operator}
    (h : Sides text left operator right) : right <:+: text.toList := by
  obtain ⟨l, r, hcut, -, rfl⟩ := h.cut
  exact (trim_isInfix r).trans ((isInfix_of_cut? hcut).trans (trim_isInfix text.toList))

theorem front_isInfix {cs front back : List Char}
    (h : cutAnnotation cs = (some front, back)) : front <:+: cs := by
  unfold cutAnnotation at h
  split at h
  · next l r hcut =>
    cases h
    obtain ⟨rfl, -⟩ := append_of_cutTopFrom? hcut
    exact (trim_isInfix l).trans (List.prefix_append l r).isInfix
  · cases h

/-- A text that is read as a phrase, with its parts. -/
inductive Reads (text : String) : Phrase → Prop where
  | name (hcut : Operator.cut? (trim text.toList) = none)
      (htype : looksLikeType (trim text.toList) = false) (hne : trim text.toList ≠ []) :
      Reads text (.name (trimString text))
  | target {t : Target} (hcut : Operator.cut? (trim text.toList) = none)
      (htype : looksLikeType (trim text.toList) = true)
      (ht : Target.read (trim text.toList) = .ok t) : Reads text (.target t)
  | map {left right back : List Char} {front : Option (List Char)}
      {mark : Option Annotation} {t : Target} (hsides : Sides text left .map right)
      (hcut : cutAnnotation right = (front, back))
      (hmark : Option.Rel (fun cs a => Annotation.read cs = .ok a) front mark)
      (ht : Target.read back = .ok t) : Reads text (.map (Source.readRule left) mark t)
  | annotate {left right : List Char} {a : Annotation} (hsides : Sides text left .annotate right)
      (ha : Annotation.read right = .ok a) : Reads text (.annotate (Source.readRule left) a)
  | implement {left right : List Char} {t : TypeRef} (hsides : Sides text left .implement right)
      (ht : TypeRef.read right = .ok t) : Reads text (.implement (Source.readRule left) t)

theorem reads_of_readBare {text : String} {phrase : Phrase}
    (hcut : Operator.cut? (trim text.toList) = none) (hne : trim text.toList ≠ [])
    (h : readBare (trim text.toList) = .ok phrase) : Reads text phrase := by
  rw [readBare] at h
  split at h
  · next htype =>
    obtain ⟨t, ht, rfl⟩ := map_eq_ok_iff.1 h
    exact .target hcut htype ht
  · next htype =>
    cases h
    exact .name hcut (Bool.eq_false_iff.2 htype) hne

theorem reads_of_readSides {text : String} {left right : List Char} {operator : Operator}
    {phrase : Phrase} (hsides : Sides text left operator right)
    (h : readSides (Source.readRule left) operator right = .ok phrase) : Reads text phrase := by
  cases operator with
  | map =>
    obtain ⟨mark, hmark, h⟩ := bind_eq_ok_iff.1 h
    obtain ⟨t, ht, h⟩ := bind_eq_ok_iff.1 h
    cases h
    exact .map hsides rfl (optionMapM_eq_ok_iff.1 hmark) ht
  | annotate =>
    obtain ⟨a, ha, h⟩ := bind_eq_ok_iff.1 h
    cases h
    exact .annotate hsides ha
  | implement =>
    obtain ⟨t, ht, h⟩ := bind_eq_ok_iff.1 h
    cases h
    exact .implement hsides ht

theorem reads_of_readText {text : String} {phrase : Phrase} (h : readText text = .ok phrase) :
    Reads text phrase := by
  rw [readText] at h
  split at h
  · cases h
  · next hne =>
    split at h
    · next hcut => exact reads_of_readBare hcut (by simpa using hne) (mapError_eq_ok_iff.1 h)
    · next left operator right hcut =>
      split at h
      · cases h
      · next hleft =>
        split at h
        · cases h
        · next hright =>
          have hsides : Sides text (trim left) operator (trim right) :=
            ⟨⟨left, right, hcut, rfl, rfl⟩, by simpa using hleft, by simpa using hright⟩
          exact reads_of_readSides hsides (mapError_eq_ok_iff.1 h)

/-! ## What phrases consist of -/

/-- The parts of a phrase are of the kinds that rules are made of. -/
inductive Sound : Phrase → Prop where
  | name {text : String} (htext : Trimmed text.toList) : Sound (.name text)
  | target {t : Target} (ht : t.Consistent) : Sound (.target t)
  | map {source : Source} {mark : Option Annotation} {t : Target} (hsource : source.Clean)
      (hmark : ∀ a ∈ mark, TypeName a.typeName.toList) (ht : t.Consistent) :
      Sound (.map source mark t)
  | annotate {source : Source} {a : Annotation} (hsource : source.Clean)
      (ha : TypeName a.typeName.toList) : Sound (.annotate source a)
  | implement {source : Source} {t : TypeRef} (hsource : source.Clean) (ht : t.WellNamed) :
      Sound (.implement source t)

theorem sound_of_readText {text : String} {phrase : Phrase} (h : readText text = .ok phrase) :
    phrase.Sound := by
  cases reads_of_readText h with
  | name _ _ _ => exact .name (trimmed_ofList_trim text.toList)
  | target _ _ ht => exact .target (Target.consistent_of_read ht)
  | map _ _ hmark ht =>
    refine .map (Source.clean_readRule _) (fun a ha => ?_) (Target.consistent_of_read ht)
    cases hmark with
    | none => cases ha
    | some hread =>
      cases ha
      exact Annotation.typeName_of_read hread
  | annotate _ ha =>
    have htype := Annotation.typeName_of_read ha
    exact .annotate (Source.clean_readRule _) htype
  | implement _ ht => exact .implement (Source.clean_readRule _) (TypeRef.wellNamed_of_read ht)

end Phrase

end TypeRules
