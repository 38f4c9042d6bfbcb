import Mathlib.Data.List.Induction
import TypeRules.Proofs.Wrapper.Step

/-! # Names in the text of a type

The text of a data type consists of names and of the signs between them.

* `DataType.pieces` takes the text apart, `flatMap_chars_pieces` puts it together again.
* `DataType.envelopes` lists the arguments of all envelopes that can be seen.  Of these only the
  first one is written.
* `DataType.mem_mentions_iff` — what a type imports are the names in its text, but not those below
  a wildcard, and the names in all other arguments of envelopes.
* `imports_wrapAll` is the statement about types in configured wrappers.
-/

namespace TypeRules

/-! ## Pieces of a text -/

inductive Piece where
  /-- The name of a type; it is covered if it is below a wildcard. -/
  | type (id : QualifiedName) (covered : Bool)
  | wildcard
  | noContent (boxed : Bool)
  | sign (text : String)

namespace Piece

def chars : Piece → List Char
  | type id _ => id.name.toList
  | wildcard => wildcardName.toList
  | noContent boxed => (DataType.noContent boxed).id.name.toList
  | sign text => text.toList

@[simp] theorem chars_type (id : QualifiedName) (covered : Bool) :
    (type id covered).chars = id.name.toList := rfl

@[simp] theorem chars_sign (text : String) : (sign text).chars = text.toList := rfl

/-- The qualified names that the piece relies on. -/
def mentions : Piece → List String
  | type id _ => id.mentions
  | _ => []

/-- Of these names, those that are imported. -/
def imported : Piece → List String
  | type id false => id.mentions
  | _ => []

@[simp] theorem imported_type (id : QualifiedName) : (type id false).imported = id.mentions := rfl

@[simp] theorem imported_covered (id : QualifiedName) : (type id true).imported = [] := rfl

@[simp] theorem imported_wildcard : wildcard.imported = [] := rfl

@[simp] theorem imported_noContent (boxed : Bool) : (noContent boxed).imported = [] := rfl

@[simp] theorem imported_sign (text : String) : (sign text).imported = [] := rfl

theorem mem_mentions_of_mem_imported {p : Piece} {name : String} (h : name ∈ p.imported) :
    name ∈ p.mentions := by
  cases p with
  | type id covered =>
    cases covered with
    | false => exact h
    | true => cases h
  | _ => cases h

/-- The name of an argument, which may be the wildcard. -/
def head (id : QualifiedName) (covered : Bool) : Piece :=
  if id.name = wildcardName then wildcard else type id covered

@[simp] theorem chars_head (id : QualifiedName) (covered : Bool) :
    (head id covered).chars = id.name.toList := by
  rw [head]
  split
  · next h => rw [h]; rfl
  · rfl

theorem mem_imported_head {name : String} {id : QualifiedName} {covered : Bool} :
    name ∈ (head id covered).imported ↔
      covered = false ∧ id.name ≠ wildcardName ∧ name ∈ id.mentions := by
  rw [head]
  split
  · next h => simp [h]
  · next h => cases covered <;> simp [h]

/-- A front with an argument in angle brackets. -/
def around (front argument : List Piece) : List Piece :=
  front ++ sign "<" :: (argument ++ [sign ">"])

@[simp] theorem flatMap_chars_around (front argument : List Piece) :
    (around front argument).flatMap chars =
      front.flatMap chars ++ '<' :: (argument.flatMap chars ++ ['>']) := by
  simp [around]

@[simp] theorem exists_imported_around {name : String} {front argument : List Piece} :
    (∃ p ∈ around front argument, name ∈ p.imported) ↔
      (∃ p ∈ front, name ∈ p.imported) ∨ ∃ p ∈ argument, name ∈ p.imported := by
  simp [around, or_and_right, exists_or]

end Piece

theorem flatMap_intercalate {α β : Type} (f : α → List β) (separator : List α)
    (lists : List (List α)) :
    (separator.intercalate lists).flatMap f =
      (separator.flatMap f).intercalate (lists.map fun list => list.flatMap f) := by
  induction lists using List.twoStepInduction with
  | nil => rfl
  | singleton => simp
  | cons_cons first second rest _ ih =>
    simp [List.intercalate_cons_cons, ih second]

theorem exists_mem_intercalate {α : Type} {P : α → Prop} {separator : List α}
    (h : ∀ a ∈ separator, ¬ P a) {lists : List (List α)} :
    (∃ a ∈ separator.intercalate lists, P a) ↔ ∃ list ∈ lists, ∃ a ∈ list, P a := by
  have hseparator : ¬ ∃ a ∈ separator, P a := fun ⟨a, ha, hP⟩ => h a ha hP
  induction lists using List.twoStepInduction with
  | nil => simp
  | singleton => simp
  | cons_cons first second rest _ ih =>
    rw [List.exists_mem_cons_iff]
    simp only [List.intercalate_cons_cons, List.mem_append, or_and_right, exists_or, hseparator,
      or_false]
    exact or_congr Iff.rfl (ih second)

/-! ## Arguments of wrappers -/

namespace GenericType

def args : GenericType → List GenericType
  | mk _ args => args

/-- Induction on an argument: a fact that passes from all arguments to the whole holds
everywhere. -/
@[elab_as_elim]
theorem induct {motive : GenericType → Prop}
    (mk : ∀ id args, (∀ arg ∈ args, motive arg) → motive (.mk id args)) (a : GenericType) :
    motive a :=
  match a with
  | .mk id args => mk id args fun arg _ => induct mk arg

mutual

def pieces (covered : Bool) : GenericType → List Piece
  | mk id [] => [.head id covered]
  | mk id (a :: as) =>
    Piece.around [.head id covered]
      ([Piece.sign ", "].intercalate (argPieces (covered || id.name == wildcardName) (a :: as)))

def argPieces (covered : Bool) : List GenericType → List (List Piece)
  | [] => []
  | a :: as => a.pieces covered :: argPieces covered as

end

@[simp] theorem argPieces_eq_map (covered : Bool) (as : List GenericType) :
    argPieces covered as = as.map (pieces covered) := by
  induction as with
  | nil => rfl
  | cons a as ih => simp [argPieces, ih]

@[simp] theorem typeNames_eq_map (as : List GenericType) : typeNames as = as.map typeName := by
  induction as with
  | nil => rfl
  | cons a as ih => simp [typeNames, ih]

@[simp] theorem mentionsOf_eq_flatMap (as : List GenericType) :
    mentionsOf as = as.flatMap mentions := by
  induction as with
  | nil => rfl
  | cons a as ih => simp [mentionsOf, ih]

theorem flatMap_chars_pieces (covered : Bool) (a : GenericType) :
    (a.pieces covered).flatMap Piece.chars = a.typeName.toList := by
  induction a using induct generalizing covered with
  | mk id args ih =>
    cases args with
    | nil => simp [pieces, typeName]
    | cons arg args =>
      have hargs : ((argPieces (covered || id.name == wildcardName) (arg :: args)).map fun list =>
          list.flatMap Piece.chars) = (arg :: args).map fun a => a.typeName.toList := by
        rw [argPieces_eq_map, List.map_map]
        exact List.map_congr_left fun a ha => ih a ha _
      rw [pieces, Piece.flatMap_chars_around, flatMap_intercalate, hargs, typeName,
        typeNames_eq_map]
      simp only [String.toList_append, String.toList_intercalate, List.map_map]
      simp [Function.comp_def]

theorem exists_imported_pieces {name : String} {covered : Bool} {a : GenericType} :
    (∃ p ∈ a.pieces covered, name ∈ p.imported) ↔ covered = false ∧ name ∈ a.mentions := by
  induction a using induct generalizing covered with
  | mk id args ih =>
    have hhead : (∃ p ∈ [Piece.head id covered], name ∈ p.imported) ↔
        covered = false ∧ id.name ≠ wildcardName ∧ name ∈ id.mentions := by
      rw [List.exists_mem_cons_iff, Piece.mem_imported_head]
      simp
    cases args with
    | nil =>
      rw [pieces, hhead, mentions]
      split
      · next h => simp [h]
      · next h => simp [h]
    | cons arg args =>
      have hargs : (∃ p ∈ [Piece.sign ", "].intercalate
            (argPieces (covered || id.name == wildcardName) (arg :: args)), name ∈ p.imported) ↔
          covered = false ∧ id.name ≠ wildcardName ∧ name ∈ mentionsOf (arg :: args) := by
        rw [exists_mem_intercalate (by simp), argPieces_eq_map, mentionsOf_eq_flatMap,
          List.mem_flatMap]
        constructor
        · rintro ⟨list, hlist, hname⟩
          obtain ⟨a, ha, rfl⟩ := List.mem_map.1 hlist
          obtain ⟨hcovered, hname⟩ := (ih a ha).1 hname
          rw [Bool.or_eq_false_iff, beq_eq_false_iff_ne] at hcovered
          exact ⟨hcovered.1, hcovered.2, a, ha, hname⟩
        · rintro ⟨hcovered, hid, a, ha, hname⟩
          refine ⟨_, List.mem_map_of_mem ha, (ih a ha).2 ⟨?_, hname⟩⟩
          rw [Bool.or_eq_false_iff, beq_eq_false_iff_ne]
          exact ⟨hcovered, hid⟩
      rw [pieces, Piece.exists_imported_around, hhead, hargs, mentions]
      split
      · next h => simp [h]
      · next h => simp [h, and_or_left]

end GenericType

/-! ## Data types -/

namespace DataType

open Piece (around)

def pieces : DataType → List Piece
  | simple id => [.type id false]
  | collection id item => around [.type id false] item.pieces
  | mapped id item _ => around [.type id false] item.pieces
  | single id inner => around [.type id false] inner.pieces
  | result id inner generics replacement =>
    if replacement then [.type id false]
    else
      match generics with
      | [] => around [.type id false] inner.pieces
      | generic :: _ => around [.type id false] (around (generic.pieces false) inner.pieces)
  | nullable id inner _ => around [.type id false] inner.pieces
  | noContent boxed => [.noContent boxed]

/-- The arguments of the envelopes in a type, without those that a replacement hides. -/
def envelopes : DataType → List (List GenericType)
  | simple _ => []
  | collection _ item => item.envelopes
  | mapped _ item _ => item.envelopes
  | single _ inner => inner.envelopes
  | result _ inner generics replacement => if replacement then [] else generics :: inner.envelopes
  | nullable _ inner _ => inner.envelopes
  | noContent _ => []

theorem flatMap_chars_pieces (t : DataType) : t.pieces.flatMap Piece.chars = t.typeName.toList := by
  induction t with
  | simple id => simp [pieces, typeName]
  | collection id item ih => simp [pieces, typeName, ih]
  | mapped id item multi ih => simp [pieces, typeName, ih]
  | single id inner ih => simp [pieces, typeName, ih]
  | result id inner generics replacement ih =>
    cases replacement with
    | true => simp [pieces, typeName]
    | false =>
      cases generics with
      | nil => simp [pieces, typeName, ih]
      | cons generic others => simp [pieces, typeName, ih, generic.flatMap_chars_pieces]
  | nullable id inner initial ih => simp [pieces, typeName, ih]
  | noContent boxed => simp [pieces, typeName, Piece.chars]

/-- A type imports names that are written, and names in arguments that are not. -/
theorem mem_mentions_iff {name : String} {t : DataType} :
    name ∈ t.mentions ↔ (∃ p ∈ t.pieces, name ∈ p.imported) ∨
      ∃ args ∈ t.envelopes, ∃ a ∈ args.tail, ∃ p ∈ a.pieces false, name ∈ p.imported := by
  induction t with
  | simple id => simp [mentions, pieces, envelopes]
  | collection id item ih => simp [mentions, pieces, envelopes, ih, or_assoc]
  | mapped id item multi ih => simp [mentions, pieces, envelopes, ih, or_assoc]
  | single id inner ih => simp [mentions, pieces, envelopes, ih, or_assoc]
  | result id inner generics replacement ih =>
    cases replacement with
    | true => simp [mentions, pieces, envelopes]
    | false =>
      cases generics with
      | nil => simp [mentions, pieces, envelopes, ih, or_assoc]
      | cons generic others =>
        have hwritten : (∃ p ∈ (result id inner (generic :: others) false).pieces,
            name ∈ p.imported) ↔ name ∈ id.mentions ∨ name ∈ generic.mentions ∨
              ∃ p ∈ inner.pieces, name ∈ p.imported := by
          simp [pieces, GenericType.exists_imported_pieces]
        have hother : (∃ args ∈ (result id inner (generic :: others) false).envelopes,
            ∃ a ∈ args.tail, ∃ p ∈ a.pieces false, name ∈ p.imported) ↔
              name ∈ others.flatMap GenericType.mentions ∨ ∃ args ∈ inner.envelopes,
                ∃ a ∈ args.tail, ∃ p ∈ a.pieces false, name ∈ p.imported := by
          simp [envelopes, GenericType.exists_imported_pieces]
        rw [hwritten, hother]
        simp only [mentions, Bool.false_eq_true, if_false, GenericType.mentionsOf_eq_flatMap,
          List.flatMap_cons, List.mem_append, ih, or_assoc, or_comm, or_left_comm]
  | nullable id inner initial ih => simp [mentions, pieces, envelopes, ih, or_assoc]
  | noContent boxed => simp [mentions, pieces, envelopes]

theorem mem_insertName {name other : String} {names : List String} :
    name ∈ insertName other names ↔ name = other ∨ name ∈ names := by
  induction names with
  | nil => simp [insertName]
  | cons first rest ih =>
    rw [insertName]
    split
    · simp
    · split
      · next h => simp [h]
      · simp [ih, or_left_comm]

theorem mem_imports {name : String} {t : DataType} : name ∈ t.imports ↔ name ∈ t.mentions := by
  have hset : ∀ names : List String, name ∈ nameSet names ↔ name ∈ names := by
    intro names
    induction names with
    | nil => simp [nameSet]
    | cons first rest ih =>
      rw [nameSet, List.foldr_cons, mem_insertName, List.mem_cons]
      exact or_congr Iff.rfl ih
  exact hset t.mentions

theorem pairwise_insertName {name : String} {names : List String}
    (h : names.Pairwise (· < ·)) : (insertName name names).Pairwise (· < ·) := by
  induction names with
  | nil => exact List.pairwise_singleton _ _
  | cons first rest ih =>
    obtain ⟨hfirst, hrest⟩ := List.pairwise_cons.1 h
    rw [insertName]
    split
    · next hlt =>
      refine List.pairwise_cons.2 ⟨fun other hother => ?_, h⟩
      rcases List.mem_cons.1 hother with rfl | hother
      · exact hlt
      · exact String.lt_trans hlt (hfirst other hother)
    · next hlt =>
      split
      · exact h
      · next hne =>
        refine List.pairwise_cons.2 ⟨fun other hother => ?_, ih hrest⟩
        rcases mem_insertName.1 hother with rfl | hother
        · by_contra hother
          exact hne (String.le_antisymm (String.not_lt.1 hother) (String.not_lt.1 hlt))
        · exact hfirst other hother

theorem pairwise_imports (t : DataType) : t.imports.Pairwise (· < ·) := by
  have hset : ∀ names : List String, (nameSet names).Pairwise (· < ·) := by
    intro names
    induction names with
    | nil => exact .nil
    | cons first rest ih => exact pairwise_insertName ih
  exact hset t.mentions

/-! ## Types before they are wrapped -/

/-- A type that is simple, without content, or a collection of such types. -/
inductive Unwrapped : DataType → Prop where
  | simple (id : QualifiedName) : Unwrapped (.simple id)
  | collection (id : QualifiedName) {item : DataType} (hitem : Unwrapped item) :
      Unwrapped (.collection id item)
  | noContent (boxed : Bool) : Unwrapped (.noContent boxed)

theorem Unwrapped.envelopes {t : DataType} (h : t.Unwrapped) : t.envelopes = [] := by
  induction h with
  | simple id => rfl
  | collection id _ ih => exact ih
  | noContent boxed => rfl

@[simp] theorem envelopes_boxed (t : DataType) : t.boxed.envelopes = t.envelopes := by
  cases t <;> rfl

theorem envelopes_of_item? {t item : DataType} (h : t.item? = some item) :
    t.envelopes = item.envelopes := by
  cases t with
  | collection id item' => cases h; rfl
  | mapped id item' multi => cases h; rfl
  | _ => cases h

end DataType

/-! ## Wrappers -/

/-- The arguments are those of an envelope that is handed out for some query. -/
def Config.EnvelopeArgs (c : Config) (args : List GenericType) : Prop :=
  ∃ q r, (c.setting .result q).value = some r ∧ args = c.options.generics r.target

theorem Config.Wraps.envelopes {c : Config} {q : Query} {w : Wrapper} {t u : DataType}
    (h : c.Wraps q w t u) (ht : ∀ args ∈ t.envelopes, c.EnvelopeArgs args) :
    ∀ args ∈ u.envelopes, c.EnvelopeArgs args := by
  intro args hargs
  cases h with
  | alone => exact ht args hargs
  | @result t r hrule _ =>
    rw [DataType.envelopes] at hargs
    split at hargs
    · cases hargs
    · cases hargs with
      | head => exact ⟨q, r, hrule, rfl⟩
      | tail _ hargs =>
        rw [DataType.envelopes_boxed] at hargs
        exact ht args hargs
  | single _ _ => exact ht args hargs
  | multi _ _ hitem => exact ht args (by rwa [DataType.envelopes_of_item? hitem])
  | nullable _ => exact ht args hargs

theorem Config.envelopeArgs_wrapAll (c : Config) (steps : List (Wrapper × Query)) {s : DataType}
    (hs : s.Unwrapped) : ∀ args ∈ (c.wrapAll steps s).envelopes, c.EnvelopeArgs args := by
  refine wrapAll_induction (fun q w t u h ht => h.envelopes ht) steps ?_
  rw [hs.envelopes]
  exact nofun

/-- Whatever wrappers are around a type, its pieces put together are its text.  It imports, in order
and without repeats, what is written, apart from names below a wildcard, and what the second and
later arguments of its envelopes are made of, which are not written.  If there are no such names and
arguments, it imports exactly what is written. -/
theorem imports_wrapAll {s : DataType} (hs : s.Unwrapped) (c : Config)
    (steps : List (Wrapper × Query)) :
    let t := c.wrapAll steps s
    t.pieces.flatMap Piece.chars = t.typeName.toList ∧ t.imports.Pairwise (· < ·) ∧
      (∀ args ∈ t.envelopes, c.EnvelopeArgs args) ∧
      (∀ name, name ∈ t.imports ↔ (∃ p ∈ t.pieces, name ∈ p.imported) ∨
        ∃ args ∈ t.envelopes, ∃ a ∈ args.tail, ∃ p ∈ a.pieces false, name ∈ p.imported) ∧
      ((∀ args ∈ t.envelopes, args.length ≤ 1) → (∀ id, .type id true ∉ t.pieces) →
        ∀ name, name ∈ t.imports ↔ ∃ p ∈ t.pieces, name ∈ p.mentions) := by
  intro t
  have himports : ∀ name, name ∈ t.imports ↔ (∃ p ∈ t.pieces, name ∈ p.imported) ∨
      ∃ args ∈ t.envelopes, ∃ a ∈ args.tail, ∃ p ∈ a.pieces false, name ∈ p.imported :=
    fun name => DataType.mem_imports.trans DataType.mem_mentions_iff
  refine ⟨t.flatMap_chars_pieces, t.pairwise_imports, c.envelopeArgs_wrapAll steps hs, himports,
    fun hlength hcovered name => ?_⟩
  rw [himports]
  constructor
  · rintro (⟨p, hp, hname⟩ | ⟨args, hargs, a, ha, -⟩)
    · exact ⟨p, hp, Piece.mem_mentions_of_mem_imported hname⟩
    · have htail := List.length_pos_of_mem ha
      rw [List.length_tail] at htail
      have hshort := hlength args hargs
      omega
  · rintro ⟨p, hp, hname⟩
    refine .inl ⟨p, hp, ?_⟩
    cases p with
    | type id covered =>
      cases covered with
      | false => exact hname
      | true => exact absurd hp (hcovered id)
    | _ => cases hname

/-- An envelope with two arguments, and below one path an envelope with one. -/
def twoArguments : Document :=
  { Document.empty with
    map := .mk { Clauses.empty with result := some "io.Wrap<io.A, io.B>" }
      [("/foo", .mk { Clauses.empty with result := some "io.Wrap<io.A>" } [] [] [])] [] [] }

def twoArgumentsConfig : Config where
  options := twoArguments.options
  repository :=
    { Repository.empty with
      global := { Level.empty with
        result := some ⟨none, .mk "io.Wrap" [.ofName "io.A", .ofName "io.B"]⟩ }
      endpoints := [("/foo", ⟨{ Level.empty with
        result := some ⟨none, .mk "io.Wrap" [.ofName "io.A"]⟩ }, []⟩)] }

theorem imports_oneArgument :
    let items : DataType := .collection ⟨"List", "java.util"⟩ (.simple ⟨"Foo", "io"⟩)
    let t : DataType := .result ⟨"Wrap", "io"⟩ items [.mk ⟨"A", "io"⟩ []] false
    items.Unwrapped ∧
      twoArgumentsConfig.wrapAll [(.result, Query.empty.withPath "/foo")] items = t ∧
      ∀ name, name ∈ t.imports ↔ ∃ p ∈ t.pieces, name ∈ p.mentions := by
  intro items t
  have hitems : items.Unwrapped := .collection _ (.simple _)
  have ht : twoArgumentsConfig.wrapAll [(.result, Query.empty.withPath "/foo")] items = t := by
    decide +kernel
  have hcovered : ∀ id, Piece.type id true ∉ t.pieces := by
    simp [t, items, DataType.pieces, GenericType.pieces, Piece.around, Piece.head, wildcardName]
  obtain ⟨-, -, -, -, himports⟩ :=
    imports_wrapAll hitems twoArgumentsConfig [(.result, Query.empty.withPath "/foo")]
  rw [ht] at himports
  exact ⟨hitems, ht, himports (by simp [t, items, DataType.envelopes]) hcovered⟩

/-- The second argument is imported, but it is not in the text. -/
theorem imports_secondArgument :
    let t := twoArgumentsConfig.wrapAll [(.result, .empty)] (.simple ⟨"Foo", "io"⟩)
    twoArguments.config = .ok twoArgumentsConfig ∧ t.typeName = "Wrap<A<Foo>>" ∧
      "io.B" ∈ t.imports ∧ ¬ ∃ p ∈ t.pieces, "io.B" ∈ p.mentions := by
  decide +kernel

end TypeRules
