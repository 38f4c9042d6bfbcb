import TypeRules.Annotation.Reader
import TypeRules.Proofs.Except
import TypeRules.Proofs.TypeRef.Grammar

/-! # Annotations as they are written

A parameter of an annotation is written as a value alone, or as a key and a value.  A value is a
literal in quotes, where every separator may occur, or a token, where none does.

* `WrittenValue` and `WrittenParameter` say what is written for one parameter,
  `WrittenAnnotation` what is written for an annotation as a whole.
* `readParameter_blanks_append` — one parameter is read back, whatever blanks are in front.
* `read_text` — an annotation is read back parameter by parameter, in the order in which they are
  written.

One scan looks for the commas and for the equals signs.  The non-trivial ingredient is what it
meets in the open: nothing of a literal, and of a token only characters that separate nothing.
-/

namespace TypeRules

open Text

/-! ## Tokens -/

/-- A character that is no blank and separates nothing in a list of parameters. -/
def isTokenChar (c : Char) : Bool :=
  !isBlank c && !(['"', '(', ')', '<', '>', ',', '='].contains c)

/-- What can be written without quotes; identifiers and numbers are of this kind. -/
structure Token (cs : List Char) : Prop where
  ne_nil : cs ≠ []
  isTokenChar : ∀ c ∈ cs, isTokenChar c = true

theorem isBlank_of_isTokenChar {c : Char} (h : isTokenChar c = true) : isBlank c = false := by
  simpa using (Bool.and_eq_true_iff.1 h).1

theorem isQuiet_of_isTokenChar {c : Char} (h : isTokenChar c = true) : isQuiet c = true :=
  isQuiet_of_class (by decide) h

namespace Token

variable {cs : List Char}

theorem trimmed (h : Token cs) : Trimmed cs :=
  trimmed_of_isBlank fun c hc => isBlank_of_isTokenChar (h.isTokenChar c hc)

theorem balanced (h : Token cs) : Balanced cs :=
  balanced_of_isQuiet fun c hc => isQuiet_of_isTokenChar (h.isTokenChar c hc)

end Token

/-! ## Values -/

inductive WrittenValue : List Char → Prop where
  | literal {content : List Char} (h : '"' ∉ content) : WrittenValue ('"' :: (content ++ ['"']))
  | token {cs : List Char} (h : Token cs) : WrittenValue cs

namespace WrittenValue

variable {cs : List Char}

theorem ne_nil (h : WrittenValue cs) : cs ≠ [] := by
  cases h with
  | literal => exact List.cons_ne_nil _ _
  | token h => exact h.ne_nil

theorem trimmed (h : WrittenValue cs) : Trimmed cs := by
  cases h with
  | literal =>
    constructor
    · intro c hc
      cases hc
      rfl
    · intro c hc
      rw [← List.cons_append, List.getLast?_concat] at hc
      cases hc
      rfl
  | token h => exact h.trimmed

theorem balanced (h : WrittenValue cs) : Balanced cs := by
  cases h with
  | literal h => exact balanced_quotes h
  | token h => exact h.balanced

theorem isTokenChar_of_mem_exposed (h : WrittenValue cs) :
    ∀ c ∈ Nesting.top.exposed cs, isTokenChar c = true := by
  intro c hc
  cases h with
  | literal h =>
    rw [Nesting.top, exposed_quotes h] at hc
    cases hc
  | token h => exact h.isTokenChar c (Nesting.mem_of_mem_exposed hc)

end WrittenValue

/-! ## Parameters -/

/-- A key with a value, as they are written.  A value alone has the empty key. -/
structure WrittenParameter (p : String × String) : Prop where
  key : p.1 = "" ∨ Token p.1.toList
  value : WrittenValue p.2.toList

namespace WrittenParameter

def text : String × String → String
  | (key, value) => if key = "" then value else key ++ " = " ++ value

/-- What is read for a parameter: the key as it is, and what the value means. -/
def meaning : String × String → String × ParameterValue
  | (key, value) => (key, ParameterValue.read value.toList)

/-- The text in front of the value. -/
def front (key : String) : List Char := if key = "" then [] else key.toList ++ " = ".toList

theorem toList_text (p : String × String) : (text p).toList = front p.1 ++ p.2.toList := by
  rw [text, front]
  split <;> simp

theorem balanced_front {key : String} (h : key = "" ∨ Token key.toList) :
    Balanced (front key) := by
  rw [front]
  split
  · exact balanced_nil
  · next hne =>
    exact (h.resolve_left hne).balanced.append (balanced_of_isQuiet (List.all_eq_true.1 rfl))

theorem comma_not_mem_front {key : String} (h : key = "" ∨ Token key.toList) :
    ',' ∉ front key := by
  rw [front]
  split
  · exact List.not_mem_nil
  · next hne =>
    rw [List.mem_append, not_or]
    refine ⟨fun hmem => ?_, by decide⟩
    exact absurd ((h.resolve_left hne).isTokenChar _ hmem) (by decide)

variable {p : String × String}

theorem balanced (h : WrittenParameter p) : Balanced (text p).toList := by
  rw [toList_text]
  exact (balanced_front h.key).append h.value.balanced

theorem comma_not_mem_exposed (h : WrittenParameter p) :
    ',' ∉ Nesting.top.exposed (text p).toList := by
  rw [toList_text, (balanced_front h.key).exposed_append, List.mem_append, not_or]
  constructor
  · intro hmem
    exact comma_not_mem_front h.key (Nesting.mem_of_mem_exposed hmem)
  · intro hmem
    exact absurd (h.value.isTokenChar_of_mem_exposed _ hmem) (by decide)

theorem exists_isBlank_eq_false (h : WrittenParameter p) :
    ∃ c ∈ (text p).toList, isBlank c = false := by
  obtain ⟨c, cs, hcons⟩ := List.exists_cons_of_ne_nil h.value.ne_nil
  refine ⟨c, ?_, h.value.trimmed.1 c (by rw [hcons]; rfl)⟩
  rw [toList_text, hcons]
  exact List.mem_append_right _ List.mem_cons_self

end WrittenParameter

namespace Annotation

/-! ## One parameter -/

theorem cutTopAt?_equals_value {b value : List Char} (hb : Blanks b) (h : WrittenValue value) :
    cutTopAt? '=' (b ++ value) = none := by
  refine cutTopAt?_eq_none (hb.not_mem_exposed_append rfl fun hmem => ?_)
  exact absurd (h.isTokenChar_of_mem_exposed _ hmem) (by decide)

theorem cutTopAt?_equals_key {b key : List Char} (hb : Blanks b) (h : Token key)
    (cs : List Char) :
    cutTopAt? '=' (b ++ (key ++ ' ' :: '=' :: cs)) = some (b ++ (key ++ [' ']), cs) := by
  have hquiet : ∀ c ∈ b ++ (key ++ [' ']), isQuiet c = true ∧ c ≠ '=' := by
    intro c hc
    have hclass : isBlank c = true ∨ isTokenChar c = true := by
      rcases List.mem_append.1 hc with hc | hc
      · exact .inl (hb c hc)
      · rcases List.mem_append.1 hc with hc | hc
        · exact .inr (h.isTokenChar c hc)
        · exact .inl (blanks_space c hc)
    rcases hclass with hclass | hclass
    · exact ⟨isQuiet_of_isBlank hclass, ne_of_class hclass (by decide)⟩
    · exact ⟨isQuiet_of_isTokenChar hclass, ne_of_class hclass (by decide)⟩
  have hbalanced := balanced_of_isQuiet fun c hc => (hquiet c hc).1
  have hcut := cutTopAt?_append_cons (d := '=') rfl hbalanced.after_top
    (fun hmem => (hquiet _ (Nesting.mem_of_mem_exposed hmem)).2 rfl) cs
  simpa using hcut

theorem readParameter_blanks_append {p : String × String} (h : WrittenParameter p)
    {b : List Char} (hb : Blanks b) :
    readParameter (b ++ (WrittenParameter.text p).toList) =
      .ok (WrittenParameter.meaning p) := by
  obtain ⟨key, value⟩ := p
  have hvalue : WrittenValue value.toList := h.value
  rw [WrittenParameter.toList_text, WrittenParameter.front, readParameter]
  by_cases hkey : key = ""
  · subst hkey
    rw [if_pos rfl, List.nil_append, cutTopAt?_equals_value hb hvalue]
    simp [trim_blanks_append hb, trim_eq_self hvalue.trimmed, hvalue.ne_nil,
      WrittenParameter.meaning]
  · have htoken : Token key.toList := h.key.resolve_left hkey
    have hseparator : key.toList ++ " = ".toList ++ value.toList =
        key.toList ++ ' ' :: '=' :: ' ' :: value.toList := by simp
    have hleft : trim (b ++ (key.toList ++ [' '])) = key.toList := by
      rw [trim_blanks_append hb, trim_append_blanks blanks_space, trim_eq_self htoken.trimmed]
    have hright : trim (' ' :: value.toList) = value.toList := by
      rw [← List.singleton_append, trim_blanks_append blanks_space, trim_eq_self hvalue.trimmed]
    rw [if_neg hkey, hseparator, cutTopAt?_equals_key hb htoken]
    simp [hleft, hright, hvalue.ne_nil, WrittenParameter.meaning]

/-! ## All parameters -/

theorem read_of_no_parenthesis {cs : List Char} (h : cutAt? (· == '(') (trim cs) = none) :
    read cs = (TypeRef.readName cs).map ofName := by
  rw [read, h]

theorem read_of_parentheses {cs name rest inner : List Char}
    (hopen : cutAt? (· == '(') (trim cs) = some (name, rest))
    (hclose : withoutSuffix? [')'] (trimEnd rest) = some inner) :
    read cs = TypeRef.readName name >>= fun name =>
      if (trim inner).isEmpty then .ok (ofName name)
      else readParameters (ofName name) (splitTop ',' inner) := by
  simp only [read, hopen, hclose]
  rfl

theorem setIn_of_not_mem {key : String} {parameters : List (String × ParameterValue)}
    (h : key ∉ parameters.map Prod.fst) (value : ParameterValue) :
    setIn key value parameters = parameters ++ [(key, value)] := by
  induction parameters with
  | nil => rfl
  | cons p rest ih =>
    obtain ⟨k, v⟩ := p
    rw [List.map_cons, List.mem_cons, not_or] at h
    rw [setIn, if_neg (Ne.symm h.1), ih h.2, List.cons_append]

theorem readParameters_of_pairs {pairs : List (List Char × (String × ParameterValue))}
    (hread : ∀ pair ∈ pairs, readParameter pair.1 = .ok pair.2) {a : Annotation}
    (hkeys : ((a.parameters ++ pairs.map Prod.snd).map Prod.fst).Nodup) :
    readParameters a (pairs.map Prod.fst) =
      .ok { a with parameters := a.parameters ++ pairs.map Prod.snd } := by
  -- The parameters that are read are behind those of the annotation, which grows on the way.
  induction pairs generalizing a with
  | nil => simp [readParameters]
  | cons pair pairs ih =>
    obtain ⟨piece, key, value⟩ := pair
    have hfresh : key ∉ a.parameters.map Prod.fst := by
      intro hmem
      rw [List.map_append, List.nodup_append] at hkeys
      exact hkeys.2.2 key hmem key (by simp) rfl
    have hset : (a.set key value).parameters = a.parameters ++ [(key, value)] :=
      setIn_of_not_mem hfresh value
    have hrest := ih (fun p hp => hread p (List.mem_cons_of_mem _ hp)) (a := a.set key value)
      (by rw [hset]; simpa using hkeys)
    rw [hset] at hrest
    rw [List.map_cons, readParameters]
    refine bind_eq_ok_iff.2 ⟨(key, value), hread _ List.mem_cons_self, ?_⟩
    show readParameters (a.set key value) (pairs.map Prod.fst) = _
    rw [hrest]
    simp [set]

end Annotation

/-! ## Annotations -/

/-- An annotation as it is written.  Without parameters it may be written with an empty pair of
parentheses or without them. -/
structure WrittenAnnotation where
  typeName : String
  parameters : Option (List (String × String))

namespace WrittenAnnotation

/-- The pairs of keys and values, in the order in which they are written. -/
def pairs (a : WrittenAnnotation) : List (String × String) := a.parameters.getD []

def inner (pairs : List (String × String)) : List Char :=
  joinWith ", ".toList (pairs.map fun p => (WrittenParameter.text p).toList)

def text (a : WrittenAnnotation) : String :=
  match a.parameters with
  | none => a.typeName
  | some pairs =>
    a.typeName ++ "(" ++ ", ".intercalate (pairs.map WrittenParameter.text) ++ ")"

/-- The annotation that is meant. -/
def meaning (a : WrittenAnnotation) : Annotation :=
  ⟨a.typeName, a.pairs.map WrittenParameter.meaning⟩

/-- A type name with a value alone, or with any number of values under different keys. -/
structure WellFormed (a : WrittenAnnotation) : Prop where
  typeName : TypeName a.typeName.toList
  value : ∀ p ∈ a.pairs, WrittenValue p.2.toList
  key : (∃ value, a.pairs = [("", value)]) ∨
    (∀ p ∈ a.pairs, Token p.1.toList) ∧ (a.pairs.map Prod.fst).Nodup

variable {a : WrittenAnnotation}

theorem pairs_of_some {own : List (String × String)} (h : a.parameters = some own) :
    a.pairs = own := by
  rw [pairs, h]
  rfl

theorem WellFormed.parameter (h : a.WellFormed) : ∀ p ∈ a.pairs, WrittenParameter p := by
  intro p hp
  refine ⟨?_, h.value p hp⟩
  rcases h.key with ⟨value, hpairs⟩ | ⟨hkeys, -⟩
  · rw [hpairs, List.mem_singleton] at hp
    exact .inl (by rw [hp])
  · exact .inr (hkeys p hp)

theorem WellFormed.nodup (h : a.WellFormed) : (a.pairs.map Prod.fst).Nodup := by
  rcases h.key with ⟨value, hpairs⟩ | ⟨-, hkeys⟩
  · rw [hpairs]
    exact List.nodup_cons.2 ⟨List.not_mem_nil, List.nodup_nil⟩
  · exact hkeys

theorem toList_text_none (h : a.parameters = none) : a.text.toList = a.typeName.toList := by
  rw [text, h]

theorem toList_text_some {pairs : List (String × String)} (h : a.parameters = some pairs) :
    a.text.toList = a.typeName.toList ++ '(' :: (inner pairs ++ [')']) := by
  rw [text, h, String.toList_append, String.toList_append, String.toList_append,
    String.toList_intercalate, List.map_map, inner, joinWith_eq_intercalate]
  simp [Function.comp_def]

theorem balanced_inner {pairs : List (String × String)}
    (h : ∀ p ∈ pairs, WrittenParameter p) : Balanced (inner pairs) := by
  have hseparator : Balanced ", ".toList := balanced_of_isQuiet (List.all_eq_true.1 rfl)
  refine hseparator.joinWith fun piece hpiece => ?_
  obtain ⟨p, hp, rfl⟩ := List.mem_map.1 hpiece
  exact (h p hp).balanced

/-- The pieces of a list of parameters, of which all but the first have a blank in front. -/
def pieces : List (String × String) → List (List Char × (String × String))
  | [] => []
  | p :: rest =>
    ((WrittenParameter.text p).toList, p) ::
      rest.map fun p => (' ' :: (WrittenParameter.text p).toList, p)

theorem map_snd_pieces (pairs : List (String × String)) : (pieces pairs).map Prod.snd = pairs := by
  cases pairs with
  | nil => rfl
  | cons p rest => simp [pieces, Function.comp_def]

theorem exists_blanks_of_mem_pieces {pairs : List (String × String)}
    {piece : List Char × (String × String)} (h : piece ∈ pieces pairs) :
    piece.2 ∈ pairs ∧ ∃ b, Blanks b ∧ piece.1 = b ++ (WrittenParameter.text piece.2).toList := by
  cases pairs with
  | nil => cases h
  | cons p rest =>
    rcases List.mem_cons.1 h with rfl | h
    · exact ⟨List.mem_cons_self, [], blanks_nil, rfl⟩
    · obtain ⟨q, hq, rfl⟩ := List.mem_map.1 h
      exact ⟨List.mem_cons_of_mem _ hq, [' '], blanks_space, rfl⟩

theorem splitTop_inner {pairs : List (String × String)} (hne : pairs ≠ [])
    (h : ∀ p ∈ pairs, WrittenParameter p) :
    splitTop ',' (inner pairs) = (pieces pairs).map Prod.fst := by
  have hjoin : inner pairs = joinWith [','] ((pieces pairs).map Prod.fst) := by
    obtain ⟨p, rest, rfl⟩ := List.exists_cons_of_ne_nil hne
    have hseparator : ", ".toList = ',' :: [' '] := rfl
    rw [inner, hseparator, List.map_cons, joinWith_cons_separator]
    simp [pieces, Function.comp_def]
  have hpieces : (pieces pairs).map Prod.fst ≠ [] := by
    obtain ⟨p, rest, rfl⟩ := List.exists_cons_of_ne_nil hne
    exact List.cons_ne_nil _ _
  rw [hjoin]
  refine splitTop_joinWith rfl hpieces fun cs hcs => ?_
  obtain ⟨piece, hpiece, rfl⟩ := List.mem_map.1 hcs
  obtain ⟨hmem, b, hb, hfst⟩ := exists_blanks_of_mem_pieces hpiece
  have hp := h piece.2 hmem
  rw [hfst]
  exact ⟨hb.balanced.append hp.balanced, hb.not_mem_exposed_append rfl hp.comma_not_mem_exposed⟩

theorem readParameters_inner {pairs : List (String × String)} (hne : pairs ≠ [])
    (h : ∀ p ∈ pairs, WrittenParameter p) (hkeys : (pairs.map Prod.fst).Nodup) (name : String) :
    Annotation.readParameters (.ofName name) (splitTop ',' (inner pairs)) =
      .ok ⟨name, pairs.map WrittenParameter.meaning⟩ := by
  let read (piece : List Char × (String × String)) : List Char × (String × ParameterValue) :=
    (piece.1, WrittenParameter.meaning piece.2)
  have hfst : ((pieces pairs).map read).map Prod.fst = (pieces pairs).map Prod.fst := by
    rw [List.map_map]
    rfl
  have hsnd : ((pieces pairs).map read).map Prod.snd = pairs.map WrittenParameter.meaning := by
    rw [List.map_map, ← map_snd_pieces pairs, List.map_map, map_snd_pieces]
    rfl
  have hread : ∀ pair ∈ (pieces pairs).map read,
      Annotation.readParameter pair.1 = .ok pair.2 := by
    intro pair hpair
    obtain ⟨piece, hpiece, rfl⟩ := List.mem_map.1 hpair
    obtain ⟨hmem, b, hb, hpiece⟩ := exists_blanks_of_mem_pieces hpiece
    show Annotation.readParameter piece.1 = .ok (WrittenParameter.meaning piece.2)
    rw [hpiece]
    exact Annotation.readParameter_blanks_append (h piece.2 hmem) hb
  have hmeaning : (pairs.map WrittenParameter.meaning).map Prod.fst = pairs.map Prod.fst := by
    rw [List.map_map]
    rfl
  have hparameters := Annotation.readParameters_of_pairs hread (a := .ofName name) (by
    rw [hsnd, Annotation.ofName, List.nil_append, hmeaning]
    exact hkeys)
  rw [hfst, hsnd] at hparameters
  rw [splitTop_inner hne h, hparameters]
  rfl

/-! ## Annotations are read back -/

theorem WellFormed.trimmed_text (h : a.WellFormed) : Trimmed a.text.toList := by
  cases hparameters : a.parameters with
  | none =>
    rw [toList_text_none hparameters]
    exact h.typeName.trimmed
  | some pairs =>
    have hclose : Trimmed [')'] := trimmed_of_isBlank (List.forall_mem_singleton.2 rfl)
    have htrimmed := trimmed_append h.typeName.trimmed h.typeName.ne_nil hclose
      (List.cons_ne_nil _ _) ('(' :: inner pairs)
    rw [toList_text_some hparameters]
    simpa using htrimmed

theorem WellFormed.readName_typeName (h : a.WellFormed) :
    TypeRef.readName a.typeName.toList = .ok a.typeName := by
  rw [TypeRef.readName_eq_ok_iff, trim_eq_self h.typeName.trimmed]
  exact ⟨h.typeName, String.ofList_toList⟩

theorem WellFormed.ne_parenthesis (h : a.WellFormed) :
    ∀ c ∈ a.typeName.toList, (c == '(') = false := by
  intro c hc
  exact beq_eq_false_iff_ne.2 (ne_of_class (h.typeName.isNameChar c hc) (by decide +kernel))

theorem trim_inner_ne_nil {pairs : List (String × String)} (hne : pairs ≠ [])
    (h : ∀ p ∈ pairs, WrittenParameter p) : trim (inner pairs) ≠ [] := by
  obtain ⟨p, rest, rfl⟩ := List.exists_cons_of_ne_nil hne
  obtain ⟨c, hc, hblank⟩ := (h p List.mem_cons_self).exists_isBlank_eq_false
  have hmem : c ∈ inner (p :: rest) := by
    rw [inner, List.map_cons]
    cases rest with
    | nil => exact hc
    | cons q rest =>
      rw [List.map_cons, joinWith_cons _ _ (List.cons_ne_nil _ _), List.append_assoc]
      exact List.mem_append_left _ hc
  intro hnil
  rw [trim_eq_nil_iff.1 hnil c hmem] at hblank
  cases hblank

theorem read_text (h : a.WellFormed) : Annotation.read a.text.toList = .ok a.meaning := by
  cases hparameters : a.parameters with
  | none =>
    have hopen : cutAt? (· == '(') (trim a.text.toList) = none := by
      rw [trim_eq_self h.trimmed_text, toList_text_none hparameters]
      exact cutAt?_eq_none_iff.2 h.ne_parenthesis
    have hread := Annotation.read_of_no_parenthesis hopen
    rw [hread, toList_text_none hparameters, h.readName_typeName, meaning, pairs, hparameters]
    rfl
  | some pairs =>
    have hpairs := pairs_of_some hparameters
    have hopen : cutAt? (· == '(') (trim a.text.toList) =
        some (a.typeName.toList, inner pairs ++ [')']) := by
      rw [trim_eq_self h.trimmed_text, toList_text_some hparameters]
      exact cutAt?_append_cons h.ne_parenthesis rfl _
    have hclose : withoutSuffix? [')'] (trimEnd (inner pairs ++ [')'])) =
        some (inner pairs) := by
      rw [trimEnd_eq_self, withoutSuffix?_append]
      intro c hc
      rw [List.getLast?_concat] at hc
      cases hc
      rfl
    have hread := Annotation.read_of_parentheses hopen hclose
    rw [hread, h.readName_typeName]
    show (if (trim (inner pairs)).isEmpty then _ else _) = _
    by_cases hne : pairs = []
    · subst hne
      rw [meaning, hpairs]
      rfl
    · have hwritten := hpairs ▸ h.parameter
      have hempty : ¬ (trim (inner pairs)).isEmpty = true := by
        rw [List.isEmpty_iff]
        exact trim_inner_ne_nil hne hwritten
      rw [if_neg hempty, readParameters_inner hne hwritten (hpairs ▸ h.nodup), meaning, hpairs]

end WrittenAnnotation

end TypeRules
