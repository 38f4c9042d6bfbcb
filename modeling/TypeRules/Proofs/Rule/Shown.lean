import TypeRules.Proofs.Annotation.Parameters
import TypeRules.Proofs.Document.Flags
import TypeRules.Proofs.Phrase.Annotation
import TypeRules.Proofs.Rule.Format
import TypeRules.Proofs.TypeRef.Dotted

/-! # What the text of a rule shows

The rules of names, of content types and of additional parameters are shown as a key with a target
behind it.  The text leaves out the flags of the mapping: whether it is primitive, which is seen
from its type unless arguments were given apart, and whether it is an array.

* `KeyedPlace` — the three places, `KeyedPlace.convert` is what an entry becomes there.
* `Rule.shown` — the rule with the flags that its text suggests.
* `KeyedPlace.Readable` — the rules of a place that can be read back, up to their flags.
* `convert_text_shown` — the text of a rule determines `Rule.shown`, and nothing more.
-/

namespace TypeRules

open Text

/-! ## Keys -/

/-- A character of a key: no blank, and nothing that means something in front of an operator. -/
def isKeyChar (c : Char) : Bool :=
  !isBlank c && !([':', '"', '(', ')', '<', '>', '=', '@'].contains c)

/-- A name or a content type that can be written in front of a mapping. -/
structure KeyText (s : String) : Prop where
  ne_empty : s ≠ ""
  isKeyChar : ∀ c ∈ s.toList, isKeyChar c = true

instance (s : String) : Decidable (KeyText s) :=
  decidable_of_iff (s ≠ "" ∧ s.toList.all TypeRules.isKeyChar = true)
    ⟨fun ⟨hne, hchars⟩ => ⟨hne, List.all_eq_true.1 hchars⟩,
      fun h => ⟨h.ne_empty, List.all_eq_true.2 h.isKeyChar⟩⟩

namespace KeyText

variable {s : String}

theorem trimmed (h : KeyText s) : Trimmed s.toList :=
  trimmed_of_isBlank fun c hc => by simpa using (Bool.and_eq_true_iff.1 (h.isKeyChar c hc)).1

theorem colon_not_mem (h : KeyText s) : ':' ∉ s.toList := fun hmem =>
  absurd (h.isKeyChar ':' hmem) (by decide)

theorem blank_not_mem (h : KeyText s) : ∀ c ∈ s.toList, (c == ' ') = false := fun c hc =>
  beq_eq_false_iff_ne.2 (ne_of_class (h.isKeyChar c hc) (by decide))

/-- A key is kept as it is, with a slash in it as well as without one. -/
theorem readRule (h : KeyText s) : Source.readRule s.toList = ⟨s, none⟩ := by
  rw [Source.readRule_of_kept (.inr h.colon_not_mem), trim_eq_self h.trimmed, String.ofList_toList]

theorem readText (h : KeyText s) {right : List Char} (hright : Trimmed right)
    (hne : right ≠ []) {text : String}
    (htext : text.toList = s.toList ++ ' ' :: (Operator.map.sign ++ ' ' :: right)) :
    Phrase.readText text =
      (Phrase.readSides ⟨s, none⟩ .map right).mapError (.unreadable text) := by
  have hquiet : ∀ c ∈ s.toList, isQuiet c = true := fun c hc =>
    isQuiet_of_class (by decide) (h.isKeyChar c hc)
  have hopener : ∀ c ∈ s.toList, Operator.isOpener c = false := fun c hc =>
    Operator.isOpener_of_class (by decide) (by decide) (by decide) (h.isKeyChar c hc)
  have hs : s.toList ≠ [] := fun hnil => h.ne_empty (String.toList_eq_nil_iff.1 hnil)
  rw [Phrase.readText_sign h.trimmed hs hright hne (balanced_of_isQuiet hquiet).after_top
    (fun c hc => hopener c (Nesting.mem_of_mem_exposed hc)) htext, h.readRule]

end KeyText

/-! ## Flags that are not shown -/

/-- The target that is read where a type is written without a marker. -/
def TypeRef.bare (type : TypeRef) : Target :=
  ⟨type, type.args.isEmpty && primitiveNames.contains type.name, false⟩

theorem TypeRef.bare_primitive_iff (type : TypeRef) :
    type.bare.primitive = true ↔ type.IsPrimitive := by
  rw [bare, Bool.and_eq_true, List.isEmpty_iff, List.contains_iff_mem]
  rfl

theorem TypeRef.WellNamed.consistent_bare {type : TypeRef} (h : type.WellNamed) :
    type.bare.Consistent where
  type := h
  primitive := type.bare_primitive_iff
  array := nofun

theorem TypeRef.chars_bare (type : TypeRef) : type.bare.chars = type.text.toList :=
  List.append_nil _

theorem Target.fields_of_rule {t : Target} {own : Option Source} {generics : List String}
    {r : TypeRule} (h : t.rule own generics = .ok r) :
    ∃ u, r = ⟨own.map Source.name, own.bind Source.format, u, t.primitive, t.array⟩ := by
  obtain ⟨u, -, h⟩ := bind_eq_ok_iff.1 h
  cases h
  exact ⟨u, rfl⟩

namespace TypeRule

def shown (m : TypeRule) : TypeRule :=
  { m with primitive := m.target.bare.primitive, primitiveArray := false }

theorem shown_eq_iff (m : TypeRule) :
    m.shown = m ↔ m.primitiveArray = false ∧ (m.primitive = true ↔ m.target.IsPrimitive) := by
  rw [← TypeRef.bare_primitive_iff, ← Bool.eq_iff_iff]
  obtain ⟨name, format, target, primitive, array⟩ := m
  simp only [shown, mk.injEq, true_and]
  exact ⟨fun ⟨hprimitive, harray⟩ => ⟨harray.symm, hprimitive.symm⟩,
    fun ⟨harray, hprimitive⟩ => ⟨hprimitive.symm, harray.symm⟩⟩

end TypeRule

namespace Rule

/-- The name or the content type in front of a mapping. -/
def key? : Rule → Option String
  | name rule => some rule.parameter
  | content rule => some rule.contentType
  | add rule => some rule.parameter
  | _ => none

/-- The rule with the flags that its text suggests. -/
def shown : Rule → Rule
  | name rule => name { rule with mapping := rule.mapping.shown }
  | content rule => content { rule with mapping := rule.mapping.shown }
  | add rule => add { rule with mapping := rule.mapping.shown }
  | rule => rule

theorem text_shown (rule : Rule) : rule.shown.text = rule.text := by
  cases rule <;> rfl

/-- The rule has a key that can be written, and its annotation is a name alone. -/
structure Keyed (rule : Rule) : Prop where
  key : ∃ key ∈ rule.key?, KeyText key
  mark : ∀ a ∈ rule.annotation?, a.parameters = []

end Rule

/-! ## Places -/

/-- Where rules have a key: in entries about the parameter of a name, about an additional
parameter, or about a response. -/
inductive KeyedPlace where
  | name
  | add
  | response
  deriving DecidableEq

namespace KeyedPlace

def convert : KeyedPlace → Entry → Except Error Rule
  | name => Entry.nameRule
  | add => Entry.addRule
  | response => Entry.contentRule

def bucket : KeyedPlace → Bucket
  | name => .parameters
  | add => .parameters
  | response => .responses

/-- What is put in front of a rule of this place where it is shown. -/
def label : KeyedPlace → String
  | add => "add: "
  | _ => ""

/-- The rule of a key and a target.  Only additional parameters have an annotation. -/
def make (p : KeyedPlace) (key : String) (mark : Option Annotation) (t : Target) : Rule :=
  match p with
  | name => .name ⟨key, some key, none, t.type, t.primitive, t.array⟩
  | add => .add ⟨key, ⟨none, none, t.type, t.primitive, t.array⟩, mark⟩
  | response => .content ⟨key, none, none, t.type, t.primitive, t.array⟩

variable {p : KeyedPlace} {key : String} {mark : Option Annotation}

def markText : Option Annotation → String
  | some a => a.text ++ " "
  | none => ""

/-- The text of a rule without its label. -/
def body (key : String) (mark : Option Annotation) (type : TypeRef) : String :=
  key ++ " => " ++ markText mark ++ type.text

/-- What may stand in front of a target: for additional parameters the name of an annotation, for
others nothing. -/
def Marked (p : KeyedPlace) (mark : Option Annotation) : Prop :=
  ∀ a ∈ mark, p = add ∧ TypeName a.typeName.toList ∧ a.parameters = []

theorem marked_none : p.Marked none := fun _ ha => by cases ha

theorem Marked.eq_none (h : p.Marked mark) (hp : p ≠ add) : mark = none :=
  Option.eq_none_iff_forall_not_mem.2 fun a ha => hp (h a ha).1

theorem shown_make (t : Target) : (p.make key mark t).shown = p.make key mark t.type.bare := by
  cases p <;> rfl

theorem text_make (hmark : p.Marked mark) (t : Target) :
    (p.make key mark t).text = p.label ++ body key mark t.type := by
  cases mark with
  | none =>
    cases p <;> simp [make, Rule.text, NameRule.text, AddRule.text, ContentRule.text, label, body,
      markText, String.append_assoc]
  | some a =>
    obtain ⟨rfl, -⟩ := hmark a rfl
    simp [make, Rule.text, AddRule.text, label, body, markText, String.append_assoc]

/-- An annotation without parameters is written as its name. -/
theorem exists_written {a : Annotation} (hname : TypeName a.typeName.toList)
    (hparameters : a.parameters = []) :
    ∃ w : WrittenAnnotation, w.WellFormed ∧ w.text = a.text ∧ w.meaning = a := by
  obtain ⟨name, parameters⟩ := a
  cases hparameters
  exact ⟨⟨name, none⟩, ⟨hname, nofun, .inr ⟨nofun, .nil⟩⟩, rfl, rfl⟩

theorem readText_body (hkey : KeyText key) (hmark : p.Marked mark) {type : TypeRef}
    (htype : type.WellNamed) :
    Phrase.readText (body key mark type) = .ok (.map ⟨key, none⟩ mark type.bare) := by
  have ht := htype.consistent_bare
  cases mark with
  | none =>
    have htext : (body key none type).toList =
        key.toList ++ ' ' :: (Operator.map.sign ++ ' ' :: type.bare.chars) := by
      simp [body, markText, Operator.sign, TypeRef.chars_bare]
    rw [hkey.readText (Target.trimmed_chars ht) (Target.chars_ne_nil ht) htext,
      Phrase.readSides_map_chars ht]
    rfl
  | some a =>
    obtain ⟨-, hname, hparameters⟩ := hmark a rfl
    obtain ⟨w, hw, hwtext, rfl⟩ := exists_written hname hparameters
    have htext : (body key (some w.meaning) type).toList = key.toList ++
        ' ' :: (Operator.map.sign ++ ' ' :: (w.text.toList ++ ' ' :: type.bare.chars)) := by
      simp [body, markText, Operator.sign, TypeRef.chars_bare, hwtext]
    have htrimmed := trimmed_append hw.trimmed_text hw.text_ne_nil (Target.trimmed_chars ht)
      (Target.chars_ne_nil ht) [' ']
    rw [hkey.readText (by simpa using htrimmed) (List.append_ne_nil_of_left_ne_nil hw.text_ne_nil _)
      htext, Phrase.readSides_map_annotated hw ht]
    rfl

theorem convert_body (hkey : KeyText key) (hmark : p.Marked mark) {type : TypeRef}
    (htype : type.WellNamed) :
    p.convert ⟨body key mark type, []⟩ = .ok (p.make key mark type.bare) := by
  have hread := readText_body hkey hmark htype
  have hrule (own : Option Source) : type.bare.rule own [] =
      .ok ⟨own.map Source.name, own.bind Source.format, type, type.bare.primitive, false⟩ :=
    bind_eq_ok_iff.2 ⟨_, type.applyTo_nil, rfl⟩
  cases p with
  | name =>
    obtain rfl := hmark.eq_none (by decide)
    exact bind_eq_ok_iff.2 ⟨_, hread, bind_eq_ok_iff.2 ⟨_, hrule _, rfl⟩⟩
  | add => exact bind_eq_ok_iff.2 ⟨_, hread, bind_eq_ok_iff.2 ⟨_, hrule _, rfl⟩⟩
  | response =>
    obtain rfl := hmark.eq_none (by decide)
    exact bind_eq_ok_iff.2 ⟨_, hread, bind_eq_ok_iff.2 ⟨_, hrule _, rfl⟩⟩

/-! ## Rules that can be read back -/

/-- A rule of a place that can be read back, up to its flags. -/
inductive Readable (p : KeyedPlace) : Rule → Prop where
  | make {key : String} {mark : Option Annotation} (hkey : KeyText key) (hmark : p.Marked mark)
      (t : Target) (ht : t.type.WellNamed) : Readable p (p.make key mark t)

theorem madeOf_of_convert {e : Entry} {rule : Rule} (h : p.convert e = .ok rule) :
    rule.MadeOf e.rule e.generics := by
  cases p with
  | name => exact (e.madeFor_of_nameRule h).madeOf
  | add => exact (e.madeFor_of_addRule h).madeOf
  | response => exact (e.madeFor_of_contentRule h).madeOf

theorem make_of_convert {e : Entry} {rule : Rule} (h : p.convert e = .ok rule) {key : String}
    (hkey : rule.key? = some key) :
    ∃ mark t, rule = p.make key mark t ∧ (mark = none ∨ p = add) := by
  cases p with
  | name =>
    obtain ⟨phrase, -, h⟩ := bind_eq_ok_iff.1 h
    split at h
    · obtain ⟨r, hr, h⟩ := bind_eq_ok_iff.1 h
      obtain ⟨u, rfl⟩ := Target.fields_of_rule hr
      cases h
      cases hkey
      exact ⟨none, ⟨u, _, _⟩, rfl, .inl rfl⟩
    · cases h
      cases hkey
    · cases h
  | add =>
    obtain ⟨phrase, -, h⟩ := bind_eq_ok_iff.1 h
    split at h
    · obtain ⟨r, hr, h⟩ := bind_eq_ok_iff.1 h
      obtain ⟨u, rfl⟩ := Target.fields_of_rule hr
      cases h
      cases hkey
      exact ⟨_, ⟨u, _, _⟩, rfl, .inr rfl⟩
    · cases h
  | response =>
    obtain ⟨phrase, -, h⟩ := bind_eq_ok_iff.1 h
    split at h
    · obtain ⟨r, hr, h⟩ := bind_eq_ok_iff.1 h
      obtain ⟨u, rfl⟩ := Target.fields_of_rule hr
      cases h
      cases hkey
      exact ⟨none, ⟨u, _, _⟩, rfl, .inl rfl⟩
    · cases h

theorem readable_of_convert {e : Entry} {rule : Rule} (h : p.convert e = .ok rule)
    (hkeyed : rule.Keyed) : p.Readable rule := by
  obtain ⟨key, hkey, htext⟩ := hkeyed.key
  obtain ⟨mark, t, rfl, hmark⟩ := make_of_convert h hkey
  have hwell := (madeOf_of_convert h).wellFormed
  have hbare := hkeyed.mark
  cases p with
  | name =>
    obtain rfl := hmark.resolve_right (by decide)
    cases hwell with
    | name _ hmapping => exact .make htext marked_none t hmapping.target
  | add =>
    cases hwell with
    | add _ _ hmapping hname =>
      exact .make htext (fun a ha => ⟨rfl, hname a ha, hbare a ha⟩) t hmapping.target
  | response =>
    obtain rfl := hmark.resolve_right (by decide)
    cases hwell with
    | content _ _ hmapping => exact .make htext marked_none t hmapping.target

namespace Readable

variable {rule : Rule}

theorem convert_text (h : p.Readable rule) :
    ∃ text, rule.text = p.label ++ text ∧ p.convert ⟨text, []⟩ = .ok rule.shown := by
  obtain ⟨hkey, hmark, t, ht⟩ := h
  exact ⟨_, text_make hmark t, by rw [shown_make]; exact convert_body hkey hmark ht⟩

theorem shown_eq_iff (h : p.Readable rule) :
    rule.shown = rule ↔ ∀ m ∈ rule.mapping?, m.shown = m := by
  obtain ⟨-, -, t, -⟩ := h
  cases p <;> simp [KeyedPlace.make, Rule.shown, Rule.mapping?]

/-- The base package only takes the place of names. -/
theorem settle (h : p.Readable rule) {base : String} (hbase : Dotted base.toList) :
    p.Readable (rule.settle base) := by
  obtain @⟨key, mark, hkey, hmark, t, ht⟩ := h
  have hmark' : p.Marked (mark.map fun a => a.settle base) := by
    intro b hb
    obtain ⟨a, ha, rfl⟩ := Option.map_eq_some_iff.1 hb
    obtain ⟨hp, hname, hparameters⟩ := hmark a ha
    exact ⟨hp, TypeRef.typeName_settleName hbase hname, hparameters⟩
  have hsettle : (p.make key mark t).settle base =
      p.make key (mark.map fun a => a.settle base) { t with type := t.type.settle base } := by
    cases p <;> rfl
  rw [hsettle]
  exact .make hkey hmark' _ (TypeRef.wellNamed_settle hbase ht)

/-- The colon of a label shows that the rule is not about the parameter of a name. -/
theorem text_ne_of_add {other : Rule} (h : Readable .name rule) (hother : Readable .add other) :
    rule.text ≠ other.text := by
  obtain @⟨key, mark, hkey, hmark, t, -⟩ := h
  obtain @⟨key', mark', -, hmark', t', -⟩ := hother
  intro heq
  have hkeycut : cutAt? (· == ' ') (name.make key mark t).text.toList =
      some (key.toList, ("=> " ++ markText mark ++ t.type.text).toList) := by
    have htext : (name.make key mark t).text.toList =
        key.toList ++ ' ' :: ("=> " ++ markText mark ++ t.type.text).toList := by
      rw [text_make hmark]
      simp [label, body]
    rw [htext]
    exact cutAt?_append_cons hkey.blank_not_mem rfl _
  have hlabelcut : cutAt? (· == ' ') (add.make key' mark' t').text.toList =
      some ("add:".toList, (body key' mark' t'.type).toList) := by
    have htext : (add.make key' mark' t').text.toList =
        "add:".toList ++ ' ' :: (body key' mark' t'.type).toList := by
      rw [text_make hmark']
      simp [label]
    rw [htext]
    rfl
  rw [heq, hlabelcut] at hkeycut
  have hlabel : "add:".toList = key.toList := (Prod.mk.inj (Option.some.inj hkeycut)).1
  exact hkey.colon_not_mem (hlabel ▸ by decide)

/-- In one list, the texts of two rules are the same if what they show is the same. -/
theorem text_eq_iff {p' : KeyedPlace} {other : Rule} (h : p.Readable rule)
    (hother : p'.Readable other) (hbucket : p.bucket = p'.bucket) :
    rule.text = other.text ↔ rule.shown = other.shown := by
  constructor
  · intro heq
    by_cases hp : p = p'
    · subst hp
      obtain ⟨text, htext, hread⟩ := h.convert_text
      obtain ⟨text', htext', hread'⟩ := hother.convert_text
      rw [htext, htext', String.append_right_inj] at heq
      subst heq
      exact Except.ok.inj (hread.symm.trans hread')
    · have hplaces : p = name ∧ p' = add ∨ p = add ∧ p' = name := by
        revert hp hbucket
        cases p <;> cases p' <;> decide
      rcases hplaces with ⟨rfl, rfl⟩ | ⟨rfl, rfl⟩
      · exact absurd heq (text_ne_of_add h hother)
      · exact absurd heq.symm (text_ne_of_add hother h)
  · intro heq
    rw [← rule.text_shown, heq, other.text_shown]

end Readable

end KeyedPlace

/-! ## Main result -/

/-- The text of a rule with a key can be read again at its place, and gives the rule back without
the marker of arrays, and without the mark of primitive types where arguments were given apart.  So
the texts of two rules of a list, as they are written or with a base package in them, are the same
exactly if the rules differ in these flags at most. -/
theorem convert_text_shown {p : KeyedPlace} {e : Entry} {rule : Rule}
    (h : p.convert e = .ok rule) (hrule : rule.Keyed) :
    (∃ text, rule.text = p.label ++ text ∧ p.convert ⟨text, []⟩ = .ok rule.shown) ∧
      (rule.shown = rule ↔ ∀ m ∈ rule.mapping?, m.primitiveArray = false ∧
        (m.primitive = true ↔ m.target.IsPrimitive)) ∧
      (e.generics = [] →
        (rule.shown = rule ↔ ∀ m ∈ rule.mapping?, m.primitiveArray = false)) ∧
      ∀ (p' : KeyedPlace) (e' : Entry) (other : Rule), p'.convert e' = .ok other → other.Keyed →
        p.bucket = p'.bucket →
          (rule.text = other.text ↔ rule.shown = other.shown) ∧
          ∀ base : String, Dotted base.toList →
            ((rule.settle base).text = (other.settle base).text ↔
              (rule.settle base).shown = (other.settle base).shown) := by
  have hreadable := KeyedPlace.readable_of_convert h hrule
  have hshown : rule.shown = rule ↔ ∀ m ∈ rule.mapping?, m.primitiveArray = false ∧
      (m.primitive = true ↔ m.target.IsPrimitive) := by
    rw [hreadable.shown_eq_iff]
    simp only [TypeRule.shown_eq_iff]
  refine ⟨hreadable.convert_text, hshown, fun hgenerics => ?_,
    fun p' e' other h' hother hbucket => ?_⟩
  · rw [hshown]
    refine forall₂_congr fun m hm => and_iff_left ?_
    -- Only arguments that are given apart make the mark of primitive types untrue.
    refine ((KeyedPlace.madeOf_of_convert h).flags hm).2.resolve_right ?_
    rintro ⟨-, -, hne, -⟩
    exact hne hgenerics
  · have hreadable' := KeyedPlace.readable_of_convert h' hother
    exact ⟨hreadable.text_eq_iff hreadable' hbucket, fun base hbase =>
      (hreadable.settle hbase).text_eq_iff (hreadable'.settle hbase) hbucket⟩

/-- An additional parameter with an annotation, and type arguments that are given apart. -/
theorem convert_text_shown_apart :
    let rule : Rule := .add ⟨"page/no", ⟨none, none,
      .mk "Map" [.mk "List" [.ofName "?"], .ofName "io.Foo"], false, false⟩, some (.ofName "io.B")⟩
    KeyedPlace.add.convert ⟨" page/no =>io.B  Map", ["List< ? >", "io.Foo"]⟩ = .ok rule ∧
      KeyedPlace.add.convert ⟨"page/no => io.B Map<List<?>, io.Foo>", []⟩ = .ok rule := by
  intro rule
  have hrule : KeyedPlace.add.convert ⟨" page/no =>io.B  Map", ["List< ? >", "io.Foo"]⟩ =
      .ok rule := by decide +kernel
  have hkeyed : rule.Keyed := ⟨⟨"page/no", rfl, by decide +kernel⟩, by decide⟩
  obtain ⟨⟨text, htext, hread⟩, hshown, -⟩ := convert_text_shown hrule hkeyed
  have hbody : rule.text = "add: " ++ "page/no => io.B Map<List<?>, io.Foo>" := by decide +kernel
  obtain rfl := (String.append_right_inj _).1 (htext.symm.trans hbody)
  have hflags : rule.shown = rule := hshown.2 fun m hm => by
    cases hm
    exact ⟨rfl, nofun, fun hprimitive => absurd hprimitive.1 (List.cons_ne_nil _ _)⟩
  rw [hflags] at hread
  exact ⟨hrule, hread⟩

/-- A parameter that is an array and one that is not look the same, and the text of the first is
read as the second. -/
theorem text_byteArray :
    let array : Rule := .name ⟨"foo", ⟨some "foo", none, .ofName "byte", true, true⟩⟩
    let single : Rule := .name ⟨"foo", ⟨some "foo", none, .ofName "byte", true, false⟩⟩
    KeyedPlace.name.convert ⟨"foo => byte[]", []⟩ = .ok array ∧ array.Keyed ∧
      KeyedPlace.name.convert ⟨"foo => byte", []⟩ = .ok single ∧ single.Keyed ∧
      array.text = single.text ∧ array ≠ single ∧
      KeyedPlace.name.convert ⟨array.text, []⟩ = .ok single := by
  intro array single
  have hfoo : KeyText "foo" := by decide +kernel
  exact ⟨by decide +kernel, ⟨⟨"foo", rfl, hfoo⟩, nofun⟩, by decide +kernel,
    ⟨⟨"foo", rfl, hfoo⟩, nofun⟩, by decide +kernel, by decide, by decide +kernel⟩

end TypeRules
