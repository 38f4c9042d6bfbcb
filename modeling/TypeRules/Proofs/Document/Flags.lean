import TypeRules.Proofs.Document.WellFormed

/-! # Flags of primitive types

A mapping is marked as primitive when its text is read.  Type arguments that an entry gives apart
come to its target later, and they do not take the mark away.

* `Repository.mappings` lists the mappings of a repository: those in lists, alone or as a part of
  another rule, and those that are settings.
* `TypeRule.MadeOfPrimitive` — mappings whose target was primitive before it got arguments.
* `primitive_iff_of_mem_mappings` — the flags of all other mappings are true, and theirs are not.
-/

namespace TypeRules

/-! ## Mappings -/

def TypeRef.IsPrimitive (t : TypeRef) : Prop := t.args = [] ∧ t.name ∈ primitiveNames

def Rule.mapping? : Rule → Option TypeRule
  | type rule => some rule
  | name rule => some rule.mapping
  | content rule => some rule.mapping
  | add rule => some rule.mapping
  | _ => none

def Level.mappings (l : Level) : List TypeRule :=
  l.single.toList ++ l.multi.toList ++
    (l.types ++ l.schemas ++ l.parameters ++ l.responses).filterMap Rule.mapping?

def Repository.mappings (r : Repository) : List TypeRule := r.levels.flatMap Level.mappings

/-- The mapping is made of a primitive target and of type arguments that are given apart. -/
inductive TypeRule.MadeOfPrimitive (text : String) (generics : List String) (m : TypeRule) :
    Prop where
  | intro {source : Source} {mark : Option Annotation} {t : Target} {own : Option Source}
      (hphrase : Phrase.readText text = .ok (.map source mark t)) (ht : t.type.IsPrimitive)
      (hne : generics ≠ []) (hm : t.rule own generics = .ok m)

/-! ## One mapping -/

theorem TypeRef.args_eq_nil_iff_of_applyTo {t u : TypeRef} {generics : List String}
    (ht : t.args = []) (h : t.applyTo generics = .ok u) : u.args = [] ↔ generics = [] := by
  rw [applyTo, ht, List.isEmpty_nil, if_pos rfl] at h
  obtain ⟨args, hargs, rfl⟩ := map_eq_ok_iff.1 h
  have hlength := (mapM_eq_ok_iff_forall₂.1 hargs).length_eq
  rw [args_mk, ← List.length_eq_zero_iff, ← List.length_eq_zero_iff, hlength]

theorem TypeRef.isPrimitive_iff_of_applyTo {t u : TypeRef} {generics : List String}
    (h : t.applyTo generics = .ok u) : u.IsPrimitive ↔ t.IsPrimitive ∧ generics = [] := by
  by_cases ht : t.args = []
  · have hargs := args_eq_nil_iff_of_applyTo ht h
    have hname : u.name = t.name := by
      rw [applyTo, ht, List.isEmpty_nil, if_pos rfl] at h
      obtain ⟨args, -, rfl⟩ := map_eq_ok_iff.1 h
      rfl
    rw [IsPrimitive, IsPrimitive, hargs, hname]
    simp [ht, and_comm]
  · rw [applyTo, if_neg (by simpa using ht)] at h
    cases h
    simp [IsPrimitive, ht]

theorem Target.flags_of_rule {t : Target} (ht : t.Consistent) {own : Option Source}
    {generics : List String} {m : TypeRule} (h : t.rule own generics = .ok m) :
    (m.primitiveArray = true → m.primitive = true) ∧ (m.primitive = true ↔ t.type.IsPrimitive) ∧
      (m.target.IsPrimitive ↔ t.type.IsPrimitive ∧ generics = []) := by
  obtain ⟨u, hu, h⟩ := bind_eq_ok_iff.1 h
  cases h
  exact ⟨ht.array, ht.primitive, TypeRef.isPrimitive_iff_of_applyTo hu⟩

theorem TypeRule.MadeOfPrimitive.flags {text : String} {generics : List String} {m : TypeRule}
    (h : m.MadeOfPrimitive text generics) : m.primitive = true ∧ ¬ m.target.IsPrimitive := by
  obtain ⟨hphrase, ht, hne, hm⟩ := h
  cases Phrase.sound_of_readText hphrase with
  | map _ _ hconsistent =>
    obtain ⟨-, hprimitive, htarget⟩ := Target.flags_of_rule hconsistent hm
    exact ⟨hprimitive.2 ht, fun hcontra => hne (htarget.1 hcontra).2⟩

/-- A rule that is made of a text has a mapping with true flags, or one that is made of a primitive
target and arguments. -/
theorem Rule.MadeOf.flags {text : String} {generics : List String} {rule : Rule} {m : TypeRule}
    (h : rule.MadeOf text generics) (hm : rule.mapping? = some m) :
    (m.primitiveArray = true → m.primitive = true) ∧
      ((m.primitive = true ↔ m.target.IsPrimitive) ∨ m.MadeOfPrimitive text generics) := by
  obtain ⟨source, mark, t, own, hphrase, hrule⟩ : ∃ source mark t own,
      Phrase.readText text = .ok (.map source mark t) ∧ t.rule own generics = .ok m := by
    cases h with
    | type hphrase hr => cases hm; exact ⟨_, _, _, _, hphrase, hr⟩
    | name hphrase hr => cases hm; exact ⟨_, _, _, _, hphrase, hr⟩
    | content hphrase hr => cases hm; exact ⟨_, _, _, _, hphrase, hr⟩
    | add hphrase hr => cases hm; exact ⟨_, _, _, _, hphrase, hr⟩
    | annotate => cases hm
    | annotateName => cases hm
    | interface => cases hm
    | drop => cases hm
  cases Phrase.sound_of_readText hphrase with
  | map _ _ hconsistent =>
    obtain ⟨harray, hprimitive, htarget⟩ := Target.flags_of_rule hconsistent hrule
    refine ⟨harray, ?_⟩
    by_cases hapart : t.type.IsPrimitive ∧ generics ≠ []
    · exact .inr ⟨hphrase, hapart.1, hapart.2, hrule⟩
    · refine .inl (hprimitive.trans ⟨fun ht => htarget.2 ⟨ht, ?_⟩, fun h => (htarget.1 h).1⟩)
      by_contra hne
      exact hapart ⟨ht, hne⟩

/-! ## All mappings -/

theorem TypeRule.Wraps.flags {m : TypeRule} (h : m.Wraps) :
    (m.primitiveArray = true → m.primitive = true) ∧
      (m.primitive = true ↔ m.target.IsPrimitive) := by
  have htarget : ¬ m.target.IsPrimitive := h.target
  simp [h.primitive, h.primitiveArray, htarget]

theorem Level.mem_mappings {l : Level} {m : TypeRule} (h : m ∈ l.mappings) :
    l.single = some m ∨ l.multi = some m ∨
      ∃ b, ∃ rule ∈ l.bucket b, rule.mapping? = some m := by
  rcases List.mem_append.1 h with h | h
  · rcases List.mem_append.1 h with h | h
    · exact .inl (Option.mem_toList.1 h)
    · exact .inr (.inl (Option.mem_toList.1 h))
  · obtain ⟨rule, hrule, hm⟩ := List.mem_filterMap.1 h
    simp only [List.mem_append, or_assoc] at hrule
    refine .inr (.inr ?_)
    rcases hrule with hrule | hrule | hrule | hrule
    · exact ⟨.types, rule, hrule, hm⟩
    · exact ⟨.schemas, rule, hrule, hm⟩
    · exact ⟨.parameters, rule, hrule, hm⟩
    · exact ⟨.responses, rule, hrule, hm⟩

/-- Wherever a mapping is in the repository of a document, only primitive types are marked as
arrays.  The mark of primitive types is true exactly if no entry of the document makes this mapping
of a primitive target and arguments that are given apart. -/
theorem primitive_iff_of_mem_mappings {d : Document} {r : Repository}
    (h : d.map.repository = .ok r) {m : TypeRule} (hm : m ∈ r.mappings) :
    (m.primitiveArray = true → m.primitive = true) ∧
      ((m.primitive = true ↔ m.target.IsPrimitive) ↔
        ¬ ∃ item ∈ d.map.items, m.MadeOfPrimitive item.text item.generics) := by
  have hconverts := Block.repository_eq_ok_iff.1 h
  obtain ⟨l, hl, hm⟩ := List.mem_flatMap.1 hm
  obtain ⟨clauses, hclauses, -⟩ := hconverts.exists_clauses hl
  have hflags : (m.primitiveArray = true → m.primitive = true) ∧
      ((m.primitive = true ↔ m.target.IsPrimitive) ∨
        ∃ item ∈ d.map.items, m.MadeOfPrimitive item.text item.generics) := by
    rcases Level.mem_mappings hm with hsingle | hmulti | ⟨b, rule, hrule, hmapping⟩
    · obtain ⟨harray, htrue⟩ := (hclauses.wellFormed.single m hsingle).flags
      exact ⟨harray, .inl htrue⟩
    · obtain ⟨harray, htrue⟩ := (hclauses.wellFormed.multi m hmulti).flags
      exact ⟨harray, .inl htrue⟩
    · obtain ⟨item, hitem, -, hmade⟩ := hconverts.exists_item hl hrule
      obtain ⟨harray, htrue | hprimitive⟩ := hmade.flags hmapping
      · exact ⟨harray, .inl htrue⟩
      · exact ⟨harray, .inr ⟨item, hitem, hprimitive⟩⟩
  refine ⟨hflags.1, fun htrue => ?_, fun hnone => hflags.2.resolve_right hnone⟩
  rintro ⟨item, -, hmade⟩
  obtain ⟨hprimitive, htarget⟩ := hmade.flags
  exact htarget (htrue.1 hprimitive)

/-- One mapping with arguments in its target, and one without. -/
def intOfString : Document :=
  { Document.empty with
    map := .mk { Clauses.empty with
      types := [⟨"Foo => int", ["java.lang.String"]⟩]
      parameters := [.name ⟨"id => long[]", []⟩] } [] [] [] }

def intOfStringRule : TypeRule :=
  ⟨some "Foo", none, .mk "int" [.ofName "java.lang.String"], true, false⟩

def longArrayRule : TypeRule := ⟨some "id", none, .ofName "long", true, true⟩

def intOfStringRepository : Repository :=
  { Repository.empty with
    global := { Level.empty with
      types := [.type intOfStringRule]
      parameters := [.name ⟨"id", longArrayRule⟩] } }

theorem primitive_longArray :
    intOfString.map.repository = .ok intOfStringRepository ∧
      longArrayRule ∈ intOfStringRepository.mappings ∧
      (longArrayRule.primitiveArray = true → longArrayRule.primitive = true) ∧
      ((longArrayRule.primitive = true ↔ longArrayRule.target.IsPrimitive) ↔
        ¬ ∃ item ∈ intOfString.map.items,
          longArrayRule.MadeOfPrimitive item.text item.generics) := by
  have hrepository : intOfString.map.repository = .ok intOfStringRepository := by
    decide +kernel
  have hm : longArrayRule ∈ intOfStringRepository.mappings := by decide
  exact ⟨hrepository, hm, primitive_iff_of_mem_mappings hrepository hm⟩

/-- The mapping to `int<java.lang.String>` is marked as primitive. -/
theorem primitive_intOfString :
    intOfString.map.repository = .ok intOfStringRepository ∧
      intOfStringRule ∈ intOfStringRepository.mappings ∧
      intOfStringRule.primitive = true ∧ ¬ intOfStringRule.target.IsPrimitive := by
  refine ⟨by decide +kernel, by decide, rfl, fun h => ?_⟩
  exact absurd h.1 (by decide)

end TypeRules
