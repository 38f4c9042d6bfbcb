import TypeRules.Proofs.TypeRef.Grammar

/-! # References read back from their texts

A reference is written with one comma and one blank between arguments.

* `TypeRef.WellNamed` — every name in the tree matches the pattern of type names.
* `read_text` — such a tree, at any depth and with any number of arguments, is read back from
  its text.
* `balanced_text`, `isNameChar_of_mem_exposed_text` — what a scan sees of the text: it is
  balanced, and only the outermost name is in the open.
-/

namespace TypeRules

open Text

namespace TypeRef

/-! ## Trees of names -/

/-- Induction on a tree: a fact that passes from all arguments to the whole holds everywhere. -/
@[elab_as_elim]
theorem induct {motive : TypeRef → Prop}
    (mk : ∀ name args, (∀ arg ∈ args, motive arg) → motive (.mk name args)) (t : TypeRef) :
    motive t :=
  match t with
  | .mk name args => mk name args fun arg _ => induct mk arg

/-- Every name in the tree matches the pattern. -/
inductive WellNamed : TypeRef → Prop where
  | mk {name : String} {args : List TypeRef} (hname : TypeName name.toList)
      (hargs : ∀ arg ∈ args, WellNamed arg) : WellNamed (.mk name args)

theorem Derives.wellNamed {cs : List Char} {t : TypeRef} (h : Derives cs t) : t.WellNamed := by
  induction h with
  | name _ hname _ => exact .mk (by rwa [String.toList_ofList]) nofun
  | generic _ hname _ _ _ _ ih =>
    refine .mk (by rwa [String.toList_ofList]) fun arg harg => ?_
    obtain ⟨pair, hpair, rfl⟩ := List.mem_map.1 harg
    exact ih pair hpair

mutual

def namesMatch : TypeRef → Bool
  | .mk name args => isTypeName name.toList && argNamesMatch args

def argNamesMatch : List TypeRef → Bool
  | [] => true
  | arg :: args => namesMatch arg && argNamesMatch args

end

@[simp] theorem argNamesMatch_eq_all (args : List TypeRef) :
    argNamesMatch args = args.all namesMatch := by
  induction args with
  | nil => rfl
  | cons arg args ih => rw [argNamesMatch, ih, List.all_cons]

theorem namesMatch_iff {t : TypeRef} : t.namesMatch = true ↔ t.WellNamed := by
  induction t using induct with
  | mk name args ih =>
    rw [namesMatch, argNamesMatch_eq_all, Bool.and_eq_true, isTypeName_iff, List.all_eq_true]
    constructor
    · rintro ⟨hname, hargs⟩
      exact .mk hname fun arg harg => (ih arg harg).1 (hargs arg harg)
    · rintro ⟨hname, hargs⟩
      exact ⟨hname, fun arg harg => (ih arg harg).2 (hargs arg harg)⟩

instance (t : TypeRef) : Decidable t.WellNamed := decidable_of_iff _ namesMatch_iff

/-! ## Texts -/

theorem toList_text_ofName (name : String) : (mk name []).text.toList = name.toList := rfl

theorem toList_text_mk {name : String} {args : List TypeRef} (h : args ≠ []) :
    (mk name args).text.toList = name.toList ++
      '<' :: (joinWith ", ".toList (args.map fun arg => arg.text.toList) ++ ['>']) := by
  cases args with
  | nil => exact absurd rfl h
  | cons arg args =>
    rw [text, String.toList_append, String.toList_append, String.toList_append,
      String.toList_intercalate, argTexts_eq_map, List.map_map, joinWith_eq_intercalate]
    simp only [List.append_assoc]
    rfl

theorem Derives.blanks_append {cs b : List Char} {t : TypeRef} (h : Derives cs t)
    (hb : Blanks b) : Derives (b ++ cs) t := by
  cases h with
  | name hl hname hr =>
    have hderives := Derives.name (hb.append hl) hname hr
    simpa only [List.append_assoc] using hderives
  | generic hl hname hm hne hargs hr =>
    have hderives := Derives.generic (hb.append hl) hname hm hne hargs hr
    simpa only [List.append_assoc] using hderives

theorem Derives.append_blanks {cs b : List Char} {t : TypeRef} (h : Derives cs t)
    (hb : Blanks b) : Derives (cs ++ b) t := by
  cases h with
  | name hl hname hr =>
    have hderives := Derives.name hl hname (hr.append hb)
    simpa only [List.append_assoc] using hderives
  | generic hl hname hm hne hargs hr =>
    have hderives := Derives.generic hl hname hm hne hargs (hr.append hb)
    simpa only [List.append_assoc, List.cons_append] using hderives

theorem derives_text {t : TypeRef} (h : t.WellNamed) : Derives t.text.toList t := by
  induction t using induct with
  | mk name args ih =>
    obtain ⟨hname, hargs⟩ := h
    cases args with
    | nil =>
      have hderives := Derives.name blanks_nil hname blanks_nil
      simpa [toList_text_ofName, ofName] using hderives
    | cons first rest =>
      let pairs : List (List Char × TypeRef) :=
        (first.text.toList, first) :: rest.map fun arg => (' ' :: arg.text.toList, arg)
      have hpairs : ∀ pair ∈ pairs, Derives pair.1 pair.2 := by
        intro pair hpair
        rcases List.mem_cons.1 hpair with rfl | hpair
        · exact ih first List.mem_cons_self (hargs first List.mem_cons_self)
        · obtain ⟨arg, harg, rfl⟩ := List.mem_map.1 hpair
          have hmem := List.mem_cons_of_mem first harg
          exact (ih arg hmem (hargs arg hmem)).blanks_append blanks_space
      have hderives := Derives.generic blanks_nil hname blanks_nil (List.cons_ne_nil _ _) hpairs
        blanks_nil
      have hinner : joinWith ", ".toList ((first :: rest).map fun arg => arg.text.toList) =
          joinWith [','] (pairs.map Prod.fst) := by
        have hseparator : ", ".toList = ',' :: [' '] := rfl
        rw [hseparator, List.map_cons, joinWith_cons_separator]
        simp [pairs, Function.comp_def]
      have hsnd : pairs.map Prod.snd = first :: rest := by
        simp [pairs, Function.comp_def]
      rw [toList_text_mk (List.cons_ne_nil _ _), hinner]
      rw [hsnd, String.ofList_toList] at hderives
      simpa only [List.nil_append, List.append_nil] using hderives

theorem read_text {t : TypeRef} (h : t.WellNamed) : read t.text.toList = .ok t :=
  read_of_derives (derives_text h)

/-! ## Texts under a scan -/

theorem balanced_text {t : TypeRef} (h : t.WellNamed) : Balanced t.text.toList :=
  (derives_text h).balanced.1

/-- Only the outermost name of a tree is in the open. -/
theorem isNameChar_of_mem_exposed_text {t : TypeRef} (h : t.WellNamed) :
    ∀ c ∈ Nesting.top.exposed t.text.toList, isNameChar c = true := by
  obtain ⟨hname, hargs⟩ := h
  rename_i name args
  have hchars := hname.isNameChar
  by_cases hne : args = []
  · subst hne
    intro c hc
    exact hchars c (Nesting.mem_of_mem_exposed hc)
  · have hfront : Balanced name.toList :=
      balanced_of_isQuiet fun c hc => isQuiet_of_isNameChar (hchars c hc)
    have hseparator : Balanced ", ".toList := balanced_of_isQuiet (List.all_eq_true.1 rfl)
    have hpieces : ∀ piece ∈ args.map fun arg => arg.text.toList, Balanced piece := by
      intro piece hpiece
      obtain ⟨arg, harg, rfl⟩ := List.mem_map.1 hpiece
      exact balanced_text (hargs arg harg)
    have hinner := hseparator.joinWith hpieces
    rw [toList_text_mk hne, hfront.exposed_append, Nesting.top, exposed_angles hinner 0,
      List.append_nil]
    intro c hc
    exact hchars c (Nesting.mem_of_mem_exposed hc)

theorem getLast?_text {t : TypeRef} (h : t.WellNamed) :
    ∀ c ∈ t.text.toList.getLast?, isNameChar c = true ∨ c = '>' := by
  obtain ⟨hname, hargs⟩ := h
  rename_i name args
  intro c hc
  by_cases hne : args = []
  · subst hne
    exact .inl (hname.isNameChar c (List.mem_of_mem_getLast? hc))
  · rw [toList_text_mk hne, ← List.cons_append, ← List.append_assoc, List.getLast?_concat] at hc
    cases hc
    exact .inr rfl

theorem head?_text {t : TypeRef} (h : t.WellNamed) :
    ∃ c cs, t.text.toList = c :: cs ∧ isNameChar c = true := by
  obtain ⟨hname, hargs⟩ := h
  rename_i name args
  obtain ⟨c, cs, hcons⟩ := List.exists_cons_of_ne_nil hname.ne_nil
  have hc := hname.isNameChar c (hcons ▸ List.mem_cons_self)
  by_cases hne : args = []
  · subst hne
    exact ⟨c, cs, hcons, hc⟩
  · exact ⟨c, _, by rw [toList_text_mk hne, hcons]; rfl, hc⟩

end TypeRef

end TypeRules
