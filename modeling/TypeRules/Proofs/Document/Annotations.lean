import TypeRules.Proofs.Annotation.Parameters

/-! # Annotations that are read and stored

An annotation can be a part of every rule text, but only some places of a document have a use for
it.  The others refuse it, with one exception: an envelope in place of plain responses.

* `OnlyBadMappings` — a reading refuses for no other reason than a bad mapping, as
  `Item.onlyBadMappings_carried` says of all places.
* `Item.ruleText?` is the part of an item that is read as a rule, `Item.verbatim?` the part that is
  stored as it is written.
* `Item.carried` is the annotation of what an item is stored as, `Item.kept` the text of it.
* `Item.Takes` and `Item.Lapses` say of an annotated phrase whether it is stored with its annotation
  or without.
* `annotation_carried` is the statement about all places.
-/

namespace TypeRules

open Text

/-! ## Bad mappings -/

/-- Errors about a single rule text. -/
def Error.IsBadMapping : Error → Prop
  | unreadable _ _ => True
  | misplaced _ _ => True
  | _ => False

def OnlyBadMappings {α : Type} (x : Except Error α) : Prop := ∀ e, x = .error e → e.IsBadMapping

namespace OnlyBadMappings

variable {α β : Type}

theorem ok (a : α) : OnlyBadMappings (.ok a) := nofun

theorem error {e : Error} (h : e.IsBadMapping) : OnlyBadMappings (.error e : Except Error α) := by
  intro e' he
  cases he
  exact h

theorem bind {x : Except Error α} {f : α → Except Error β} (hx : OnlyBadMappings x)
    (hf : ∀ a, OnlyBadMappings (f a)) : OnlyBadMappings (x >>= f) := by
  intro e he
  rcases bind_eq_error_iff.1 he with he | ⟨a, -, he⟩
  · exact hx e he
  · exact hf a e he

theorem map {x : Except Error α} (hx : OnlyBadMappings x) (f : α → β) :
    OnlyBadMappings (x.map f) := by
  cases x with
  | ok a => exact ok (f a)
  | error e => exact error (hx e rfl)

theorem mapM {f : α → Except Error β} (hf : ∀ a, OnlyBadMappings (f a)) (xs : List α) :
    OnlyBadMappings (xs.mapM f) := by
  intro e he
  obtain ⟨x, -, hx⟩ := mapM_eq_error he
  exact hf x e hx

theorem mapError {ε : Type} {f : ε → Error} (hf : ∀ e, (f e).IsBadMapping) (x : Except ε α) :
    OnlyBadMappings (x.mapError f) := by
  cases x with
  | ok a => exact ok a
  | error e => exact error (hf e)

end OnlyBadMappings

theorem Phrase.onlyBadMappings_readText (text : String) : OnlyBadMappings (readText text) := by
  simp only [readText]
  split
  · exact .error trivial
  · split
    · refine .mapError (fun _ => ?_) _
      trivial
    · split
      · exact .error trivial
      · split
        · exact .error trivial
        · refine .mapError (fun _ => ?_) _
          trivial

theorem onlyBadMappings_readGeneric (text : String) : OnlyBadMappings (readGeneric text) := by
  refine .bind (Phrase.onlyBadMappings_readText text) fun phrase => ?_
  split
  · exact .ok _
  · split
    · exact .ok _
    · exact .error trivial
  · exact .error trivial

theorem TypeRef.onlyBadMappings_applyTo (t : TypeRef) (generics : List String) :
    OnlyBadMappings (t.applyTo generics) := by
  rw [applyTo]
  split
  · exact (OnlyBadMappings.mapM onlyBadMappings_readGeneric generics).map _
  · exact .ok t

theorem Target.onlyBadMappings_rule (t : Target) (source : Option Source)
    (generics : List String) : OnlyBadMappings (t.rule source generics) :=
  .bind (t.type.onlyBadMappings_applyTo generics) fun _ => .ok _

/-! ## Places -/

theorem ResultRule.onlyBadMappings_read (text : String) : OnlyBadMappings (read text) := by
  refine .bind (Phrase.onlyBadMappings_readText text) fun phrase => ?_
  split
  · exact .ok _
  · split
    · exact .ok _
    · exact .error trivial
  · exact .error trivial

theorem TypeRule.onlyBadMappings_readWrapper (position : Position) (text : String) :
    OnlyBadMappings (readWrapper position text) := by
  refine .bind (Phrase.onlyBadMappings_readText text) fun phrase => ?_
  split
  · split
    · exact .error trivial
    · exact .ok _
  · exact .error trivial

namespace NullRule

/-- What stands in front of the initialiser, and the initialiser. -/
def parts (text : String) : String × Option String :=
  match cutAtPhrase? initialSeparator text.toList with
  | some (front, back) => (String.ofList front, some (String.ofList (trim back)))
  | none => (text, none)

theorem read_eq (text : String) :
    read text = (do
      match ← Phrase.readText (parts text).1 with
      | .target target => return ⟨target.type, (parts text).2⟩
      | _ => throw (.misplaced text .nullable)) := rfl

theorem onlyBadMappings_read (text : String) : OnlyBadMappings (read text) := by
  rw [read_eq]
  refine .bind (Phrase.onlyBadMappings_readText _) fun phrase => ?_
  split
  · exact .ok _
  · exact .error trivial

theorem initial_of_read {text : String} {r : NullRule} (h : read text = .ok r) :
    r.initial = (parts text).2 := by
  rw [read_eq] at h
  obtain ⟨phrase, -, h⟩ := bind_eq_ok_iff.1 h
  split at h
  · cases h
    rfl
  · cases h

end NullRule

namespace Entry

theorem onlyBadMappings_typeRule (e : Entry) : OnlyBadMappings e.typeRule := by
  refine .bind (Phrase.onlyBadMappings_readText e.rule) fun phrase => ?_
  split
  · exact .bind (Target.onlyBadMappings_rule _ _ _) fun _ => .ok _
  · exact .ok _
  · exact .bind (TypeRef.onlyBadMappings_applyTo _ _) fun _ => .ok _
  · exact .error trivial

theorem onlyBadMappings_nameRule (e : Entry) : OnlyBadMappings e.nameRule := by
  refine .bind (Phrase.onlyBadMappings_readText e.rule) fun phrase => ?_
  split
  · exact .bind (Target.onlyBadMappings_rule _ _ _) fun _ => .ok _
  · exact .ok _
  · exact .error trivial

theorem onlyBadMappings_addRule (e : Entry) : OnlyBadMappings e.addRule := by
  refine .bind (Phrase.onlyBadMappings_readText e.rule) fun phrase => ?_
  split
  · exact .bind (Target.onlyBadMappings_rule _ _ _) fun _ => .ok _
  · exact .error trivial

theorem onlyBadMappings_contentRule (e : Entry) : OnlyBadMappings e.contentRule := by
  refine .bind (Phrase.onlyBadMappings_readText e.rule) fun phrase => ?_
  split
  · exact .bind (Target.onlyBadMappings_rule _ _ _) fun _ => .ok _
  · exact .error trivial

end Entry

namespace DropRule

theorem onlyBadMappings_read (text : String) : OnlyBadMappings (read text) := by
  rw [read]
  split
  · exact .error trivial
  · exact .ok _

theorem parameter_of_read {text : String} {r : DropRule} (h : read text = .ok r) :
    r.parameter = trimString text := by
  rw [read] at h
  split at h
  · cases h
  · cases h
    rfl

end DropRule

theorem ParameterEntry.onlyBadMappings_rule (e : ParameterEntry) : OnlyBadMappings e.rule := by
  cases e with
  | name entry => exact entry.onlyBadMappings_nameRule
  | add entry => exact entry.onlyBadMappings_addRule
  | drop name =>
    rw [rule]
    exact (DropRule.onlyBadMappings_read name).map _
  | type entry => exact entry.onlyBadMappings_typeRule

theorem NameAnnotationRule.onlyBadMappings_read (text : String) : OnlyBadMappings (read text) := by
  refine .bind (Phrase.onlyBadMappings_readText text) fun phrase => ?_
  split
  · exact .ok _
  · exact .error trivial

/-! ## What items are stored as -/

namespace Item

/-- The part of the text that is read as a rule. -/
def ruleText? : Item → Option String
  | nullable text => some (NullRule.parts text).1
  | parameter (.drop _) => none
  | item => some item.text

/-- The part of the text that is not read but stored: the initialiser of a null wrapper, or the name
of a parameter to do without. -/
def verbatim? : Item → Option String
  | nullable text => (NullRule.parts text).2
  | parameter (.drop name) => some (trimString name)
  | _ => none

/-- The name of the place in the reason of a refusal. -/
def position : Item → Position
  | result _ => .result
  | single _ => .single
  | multi _ => .multi
  | nullable _ => .nullable
  | type _ => .type
  | parameter (.name _) => .parameterName
  | parameter (.add _) => .addParameter
  | parameter (.drop _) => .dropParameter
  | parameter (.type _) => .type
  | response _ => .response
  | extension _ => .extension

/-- The annotation that the item is stored with. -/
def carried : Item → Except Error (Option Annotation)
  | result text => (ResultRule.read text).map fun _ => none
  | single text => (TypeRule.readWrapper .single text).map fun _ => none
  | multi text => (TypeRule.readWrapper .multi text).map fun _ => none
  | nullable text => (NullRule.read text).map fun _ => none
  | type entry => entry.typeRule.map Rule.annotation?
  | parameter entry => entry.rule.map Rule.annotation?
  | response entry => entry.contentRule.map Rule.annotation?
  | extension text => (NameAnnotationRule.read text).map fun rule => some rule.annotation

/-- The text that the item is stored with. -/
def kept : Item → Except Error (Option String)
  | nullable text => (NullRule.read text).map NullRule.initial
  | parameter (.drop name) => (DropRule.read name).map fun rule => some rule.parameter
  | _ => .ok none

/-- The place has a use for the annotation of the phrase. -/
inductive Takes : Item → Phrase → Prop where
  | type {entry : Entry} {source : Source} {a : Annotation} :
      Takes (.type entry) (.annotate source a)
  | parameterName {entry : Entry} {source : Source} {a : Annotation} :
      Takes (.parameter (.name entry)) (.annotate source a)
  | parameterType {entry : Entry} {source : Source} {a : Annotation} :
      Takes (.parameter (.type entry)) (.annotate source a)
  | extension {text : String} {source : Source} {a : Annotation} :
      Takes (.extension text) (.annotate source a)
  | add {entry : Entry} {source : Source} {a : Annotation} {t : Target} :
      Takes (.parameter (.add entry)) (.map source (some a) t)

/-- The place accepts the phrase without having a use for its annotation. -/
inductive Lapses : Item → Phrase → Prop where
  | result {text : String} {source : Source} {a : Annotation} {t : Target}
      (hsource : source.name = plainName) : Lapses (.result text) (.map source (some a) t)

theorem onlyBadMappings_carried (item : Item) : OnlyBadMappings item.carried := by
  cases item with
  | result text =>
    rw [carried]
    exact (ResultRule.onlyBadMappings_read text).map _
  | single text =>
    rw [carried]
    exact (TypeRule.onlyBadMappings_readWrapper .single text).map _
  | multi text =>
    rw [carried]
    exact (TypeRule.onlyBadMappings_readWrapper .multi text).map _
  | nullable text =>
    rw [carried]
    exact (NullRule.onlyBadMappings_read text).map _
  | type entry =>
    rw [carried]
    exact entry.onlyBadMappings_typeRule.map _
  | parameter entry =>
    rw [carried]
    exact entry.onlyBadMappings_rule.map _
  | response entry =>
    rw [carried]
    exact entry.onlyBadMappings_contentRule.map _
  | extension text =>
    rw [carried]
    exact (NameAnnotationRule.onlyBadMappings_read text).map _

end Item

theorem Phrase.annotation?_eq_some_iff {phrase : Phrase} {a : Annotation} :
    phrase.annotation? = some a ↔
      (∃ source t, phrase = .map source (some a) t) ∨ ∃ source, phrase = .annotate source a := by
  cases phrase <;> simp [annotation?]

/-- Mappings are refused for the arguments that are given apart only. -/
theorem Target.exists_of_rule_error {t : Target} {source : Option Source} {generics : List String}
    {e : Error} (h : t.rule source generics = .error e) :
    ∃ text ∈ generics, readGeneric text = .error e := by
  rcases bind_eq_error_iff.1 h with h | ⟨type, -, h⟩
  · rw [TypeRef.applyTo] at h
    split at h
    · cases hargs : generics.mapM readGeneric with
      | ok args =>
        rw [hargs] at h
        cases h
      | error e =>
        rw [hargs] at h
        cases h
        exact mapM_eq_error hargs
    · cases h
  · cases h

/-- A reading goes on with what it has read. -/
theorem map_bind_of_ok {α β γ : Type} {x : Except Error α} {a : α} {f : α → Except Error β}
    {g : β → γ} (h : x = .ok a) : (x >>= f).map g = (f a).map g := by
  rw [h]
  rfl

theorem ResultRule.read_of_map {text : String} {source : Source} {mark : Option Annotation}
    {t : Target} (h : Phrase.readText text = .ok (.map source mark t)) :
    read text =
      if source.name = plainName then .ok ⟨some plainName, t.type⟩
      else .error (.misplaced text .result) := by
  rw [read, h]
  rfl

namespace Item

variable {item : Item} {rule : String} {phrase : Phrase} {a : Annotation}

theorem carried_of_takes (hrule : item.ruleText? = some rule)
    (hread : Phrase.readText rule = .ok phrase) (ha : phrase.annotation? = some a)
    (htakes : item.Takes phrase) :
    item.carried = .ok (some a) ∨
      ∃ text ∈ item.generics, ∃ e, readGeneric text = .error e ∧ item.carried = .error e := by
  cases htakes with
  | type | parameterName | parameterType | extension =>
    cases hrule
    cases ha
    exact .inl (map_bind_of_ok hread)
  | @add entry source _ t =>
    cases hrule
    cases ha
    cases hr : t.rule none entry.generics with
    | ok r => exact .inl ((map_bind_of_ok hread).trans (map_bind_of_ok hr))
    | error e =>
      obtain ⟨text, htext, he⟩ := Target.exists_of_rule_error hr
      have hadd : entry.addRule = .error e :=
        bind_eq_error_iff.2 (.inr ⟨_, hread, bind_eq_error_iff.2 (.inl hr)⟩)
      refine .inr ⟨text, htext, e, he, ?_⟩
      rw [carried, ParameterEntry.rule, hadd]
      rfl

theorem carried_of_lapses (hrule : item.ruleText? = some rule)
    (hread : Phrase.readText rule = .ok phrase) (h : item.Lapses phrase) :
    item.carried = .ok none := by
  cases h with
  | @result text source a t hsource =>
    cases hrule
    have hresult : ResultRule.read text = _ := ResultRule.read_of_map hread
    rw [carried, hresult, if_pos hsource]
    rfl

theorem carried_of_not_takes (hrule : item.ruleText? = some rule)
    (hread : Phrase.readText rule = .ok phrase) (ha : phrase.annotation? = some a)
    (htakes : ¬ item.Takes phrase) (hlapses : ¬ item.Lapses phrase) :
    item.carried = .error (.misplaced item.text item.position) := by
  rcases Phrase.annotation?_eq_some_iff.1 ha with ⟨source, t, rfl⟩ | ⟨source, rfl⟩
  · cases item with
    -- Only envelopes look at the source of a mapping with an annotation.
    | result text =>
      cases hrule
      have hsource : source.name ≠ plainName := fun hsource => hlapses (.result hsource)
      have hresult : ResultRule.read text = _ := ResultRule.read_of_map hread
      rw [carried, hresult, if_neg hsource]
      rfl
    | nullable text =>
      cases hrule
      rw [carried, NullRule.read_eq]
      exact map_bind_of_ok hread
    | parameter entry =>
      cases entry with
      | name entry | type entry =>
        cases hrule
        exact map_bind_of_ok hread
      | add entry => exact absurd .add htakes
      | drop name => cases hrule
    | _ =>
      cases hrule
      exact map_bind_of_ok hread
  · cases item with
    | nullable text =>
      cases hrule
      rw [carried, NullRule.read_eq]
      exact map_bind_of_ok hread
    | type entry => exact absurd .type htakes
    | parameter entry =>
      cases entry with
      | name entry => exact absurd .parameterName htakes
      | add entry =>
        cases hrule
        exact map_bind_of_ok hread
      | drop name => cases hrule
      | type entry => exact absurd .parameterType htakes
    | extension text => exact absurd .extension htakes
    | _ =>
      cases hrule
      exact map_bind_of_ok hread

theorem kept_of_verbatim? {text : String} (h : item.verbatim? = some text) :
    item.kept = .ok (some text) ∨ ∃ e, item.carried = .error e := by
  cases item with
  | nullable whole =>
    cases hread : NullRule.read whole with
    | error e =>
      refine .inr ⟨e, ?_⟩
      rw [carried, hread]
      rfl
    | ok r =>
      refine .inl ?_
      rw [kept, hread, Except.map, NullRule.initial_of_read hread, ← h, verbatim?]
  | parameter entry =>
    cases entry with
    | drop name =>
      cases h
      cases hread : DropRule.read name with
      | error e =>
        refine .inr ⟨e, ?_⟩
        rw [carried, ParameterEntry.rule, hread]
        rfl
      | ok r =>
        refine .inl ?_
        rw [kept, hread, Except.map, DropRule.parameter_of_read hread]
    | _ => cases h
  | _ => cases h

end Item

/-! ## Main result -/

/-- An annotation that is read at a place is stored there with the rule, or the text is refused as a
bad mapping; only an envelope in place of plain responses is stored without it.  What is not read
as a rule is stored as it is written, so no annotation is lost with it. -/
theorem annotation_carried (item : Item) :
    (∀ rule phrase a, item.ruleText? = some rule → Phrase.readText rule = .ok phrase →
      phrase.annotation? = some a →
        (¬ item.Lapses phrase → item.carried = .ok (some a) ∨
          ∃ e, item.carried = .error e ∧ e.IsBadMapping) ∧
        (item.Takes phrase → item.carried = .ok (some a) ∨
          ∃ text ∈ item.generics, ∃ e, readGeneric text = .error e ∧ item.carried = .error e) ∧
        (¬ item.Takes phrase → ¬ item.Lapses phrase →
          item.carried = .error (.misplaced item.text item.position)) ∧
        (item.Lapses phrase → item.carried = .ok none)) ∧
      ∀ text, item.verbatim? = some text → item.kept = .ok (some text) ∨
        ∃ e, item.carried = .error e ∧ e.IsBadMapping := by
  refine ⟨fun rule phrase a hrule hread ha => ⟨fun hlapses => ?_, ?_, ?_, ?_⟩,
    fun text htext => ?_⟩
  · by_cases htakes : item.Takes phrase
    · rcases Item.carried_of_takes hrule hread ha htakes with h | ⟨text, -, e, -, he⟩
      · exact .inl h
      · exact .inr ⟨e, he, item.onlyBadMappings_carried e he⟩
    · exact .inr ⟨_, Item.carried_of_not_takes hrule hread ha htakes hlapses, trivial⟩
  · exact Item.carried_of_takes hrule hread ha
  · exact Item.carried_of_not_takes hrule hread ha
  · exact Item.carried_of_lapses hrule hread
  · rcases Item.kept_of_verbatim? htext with h | ⟨e, he⟩
    · exact .inl h
    · exact .inr ⟨e, he, item.onlyBadMappings_carried e he⟩

/-- An additional parameter is stored with its annotation. -/
theorem annotation_carried_add :
    let item : Item := .parameter (.add ⟨"request => io.A(1) io.B", []⟩)
    let a : Annotation := ⟨"io.A", [("", .simple "1")]⟩
    let t : Target := ⟨.ofName "io.B", false, false⟩
    Phrase.readText item.text = .ok (.map ⟨"request", none⟩ (some a) t) ∧
      item.carried = .ok (some a) := by
  intro item a t
  have hread : Phrase.readText item.text = .ok (.map ⟨"request", none⟩ (some a) t) := by
    decide +kernel
  obtain ⟨hrule, -⟩ := annotation_carried item
  obtain ⟨-, htakes, -, -⟩ := hrule _ _ _ rfl hread rfl
  refine ⟨hread, ?_⟩
  rcases htakes .add with h | ⟨text, htext, -⟩
  · exact h
  · cases htext

/-- The annotation of an envelope in place of plain responses is read and not stored. -/
theorem annotation_lost_plain :
    let item : Item := .result "plain => io.oap.A io.oap.B"
    Phrase.readText item.text =
        .ok (.map ⟨"plain", none⟩ (some ⟨"io.oap.A", []⟩) ⟨.ofName "io.oap.B", false, false⟩) ∧
      ResultRule.read item.text = .ok ⟨some "plain", .ofName "io.oap.B"⟩ ∧
      item.carried = .ok none := by
  decide +kernel

end TypeRules
