import TypeRules.Proofs.DataType.Pieces
import TypeRules.Proofs.Wrapper.Payload

/-! # No content in wrappers

No content has two names: one inside of envelopes and one everywhere else.  Which one is written is
settled by the wrapper that comes directly around it, and stays so whatever wrappers follow.

* `Config.covers`, `Config.replaces` — whether a wrapper goes around what is no collection, and
  whether it hides what is in it; `Config.coveredIf_wrap` says that it does so.
* `Config.innermost?` is the wrapper directly around no content.
* `DataType.noContent_mem_pieces_iff` — no content is written if nothing hides it.
* `noContent_wrapAll` is the statement about wrappers one after the other.
-/

namespace TypeRules

/-! ## Types around no content -/

namespace DataType

/-- Whether something on the way down to the payload hides what is in it. -/
def replaced : DataType → Bool
  | simple _ => false
  | collection _ item => item.replaced
  | mapped _ item _ => item.replaced
  | single _ inner => inner.replaced
  | result _ inner _ replacement => replacement || inner.replaced
  | nullable _ inner _ => inner.replaced
  | noContent _ => false

/-- A type that wrappers only go around: it is no collection, and not without content. -/
def Closed (t : DataType) : Prop := t.item? = none ∧ ∀ boxed, t ≠ .noContent boxed

theorem Closed.boxed {t : DataType} (h : t.Closed) : t.boxed = t := by
  cases t with
  | noContent before => exact absurd rfl (h.2 before)
  | _ => rfl

end DataType

theorem GenericType.noContent_not_mem_pieces (boxed covered : Bool) (a : GenericType) :
    Piece.noContent boxed ∉ a.pieces covered := by
  have hhead : ∀ id covered, Piece.noContent boxed ≠ Piece.head id covered := by
    intro id covered
    rw [Piece.head]
    split <;> simp
  induction a using GenericType.induct generalizing covered with
  | mk id args ih =>
    cases args with
    | nil => simpa [pieces] using hhead id covered
    | cons arg args =>
      rw [pieces, argPieces_eq_map]
      intro hmem
      have hargs : Piece.noContent boxed ∈ [Piece.sign ", "].intercalate
          ((arg :: args).map (pieces (covered || id.name == wildcardName))) := by
        simpa [Piece.around, hhead id covered] using hmem
      obtain ⟨list, hlist, p, hp, rfl⟩ := (exists_mem_intercalate
        (P := fun p => p = Piece.noContent boxed) (by simp)).1 ⟨_, hargs, rfl⟩
      obtain ⟨a, ha, rfl⟩ := List.mem_map.1 hlist
      exact ih a ha _ hp

namespace DataType

/-- No content is written at the end of the way down, unless something hides it. -/
theorem noContent_mem_pieces_iff {boxed : Bool} {t : DataType} :
    Piece.noContent boxed ∈ t.pieces ↔ t.replaced = false ∧ t.payload = .noContent boxed := by
  induction t with
  | simple id => simp [pieces, payload]
  | collection id item ih => simpa [pieces, Piece.around, replaced, payload] using ih
  | mapped id item multi ih => simpa [pieces, Piece.around, replaced, payload] using ih
  | single id inner ih => simpa [pieces, Piece.around, replaced, payload] using ih
  | result id inner generics replacement ih =>
    cases replacement with
    | true => simp [pieces, replaced]
    | false =>
      cases generics with
      | nil => simpa [pieces, Piece.around, replaced, payload] using ih
      | cons generic others =>
        have hgeneric := generic.noContent_not_mem_pieces boxed false
        simpa [pieces, Piece.around, replaced, payload, hgeneric] using ih
  | nullable id inner initial ih => simpa [pieces, Piece.around, replaced, payload] using ih
  | noContent before => simp [pieces, replaced, payload, eq_comm]

theorem infix_typeName_of_mem_pieces {t : DataType} {p : Piece} (h : p ∈ t.pieces) :
    p.chars <:+: t.typeName.toList := by
  obtain ⟨front, back, hpieces⟩ := List.append_of_mem h
  refine ⟨front.flatMap Piece.chars, back.flatMap Piece.chars, ?_⟩
  simp [← t.flatMap_chars_pieces, hpieces]

/-- What a wrapper may put around a type that is no collection.  Only an envelope changes this type,
and only an envelope can hide it. -/
inductive Cover (hides : Bool) : Wrapper → DataType → DataType → Prop where
  | result (id : QualifiedName) (generics : List GenericType) (t : DataType) :
      Cover hides .result t (.result id t.boxed generics hides)
  | single (id : QualifiedName) (t : DataType) (hhides : hides = false) :
      Cover hides .single t (.single id t)
  | nullable (id : QualifiedName) (initial : Option String) (t : DataType)
      (hhides : hides = false) : Cover hides .nullable t (.nullable id t initial)

namespace Cover

variable {hides : Bool} {w : Wrapper} {t u : DataType}

theorem closed (h : Cover hides w t u) : u.Closed := by
  cases h <;> exact ⟨rfl, nofun⟩

theorem replaced (h : Cover hides w t u) : u.replaced = (hides || t.replaced) := by
  cases h with
  | result => cases t <;> rfl
  | single _ _ hhides => rw [hhides]; rfl
  | nullable _ _ _ hhides => rw [hhides]; rfl

theorem payload_of_closed (h : Cover hides w t u) (ht : t.Closed) : u.payload = t.payload := by
  cases h with
  | result => rw [payload, ht.boxed]
  | single => rfl
  | nullable => rfl

theorem payload_of_noContent {before : Bool} (h : Cover hides w (.noContent before) u) :
    u.payload = .noContent (before || w == .result) := by
  cases h with
  | result => cases before <;> rfl
  | single => cases before <;> rfl
  | nullable => cases before <;> rfl

end Cover

end DataType

/-! ## One wrapper -/

theorem ResultRule.isReplacement_of_isPlain {r : ResultRule} (h : r.isPlain = true) :
    r.isReplacement = false := by
  rw [isPlain, Bool.and_eq_true, Option.isNone_iff_eq_none] at h
  rw [isReplacement, h.1]
  rfl

/-- A wrapper either leaves a type alone or puts a node around it, as the two flags say. -/
def DataType.CoveredIf (covers hides : Bool) (w : Wrapper) (t u : DataType) : Prop :=
  (covers = false ∧ hides = false ∧ u = t) ∨ (covers = true ∧ Cover hides w t u)

theorem Options.coveredIf_wrapResult (o : Options) (rule : Option ResultRule) (t : DataType) :
    t.CoveredIf (rule.any fun r => !r.isPlain) (rule.any ResultRule.isReplacement) .result
      (o.wrapResult rule t) := by
  cases rule with
  | none => exact .inl ⟨rfl, rfl, rfl⟩
  | some r =>
    rw [Option.any_some, Option.any_some, wrapResult]
    cases hplain : r.isPlain with
    | true => exact .inl ⟨rfl, ResultRule.isReplacement_of_isPlain hplain, rfl⟩
    | false => exact .inr ⟨rfl, .result _ _ t⟩

theorem DataType.coveredIf_wrapSingle (rule : Option TypeRule) (t : DataType) :
    t.CoveredIf (rule.any fun r => !r.isPlain) false .single (t.wrapSingle rule) := by
  cases rule with
  | none => exact .inl ⟨rfl, rfl, rfl⟩
  | some r =>
    rw [Option.any_some, wrapSingle]
    cases r.isPlain with
    | true => exact .inl ⟨rfl, rfl, rfl⟩
    | false => exact .inr ⟨rfl, .single _ t rfl⟩

theorem DataType.coveredIf_wrapNullable (rule : Option NullRule) (t : DataType) :
    t.CoveredIf rule.isSome false .nullable (t.wrapNullable rule) := by
  cases rule with
  | none => exact .inl ⟨rfl, rfl, rfl⟩
  | some r => exact .inr ⟨rfl, .nullable _ _ t rfl⟩

/-- Only a collection has items that another collection could take over. -/
theorem DataType.wrapMulti_of_item?_none {t : DataType} (ht : t.item? = none)
    (rule : Option TypeRule) : t.wrapMulti rule = t := by
  cases rule <;> simp [wrapMulti, ht]

namespace Config

/-- Whether a wrapper goes around a type that is no collection, as configured for a query. -/
def covers (c : Config) : Wrapper × Query → Bool
  | (.result, q) => (c.setting .result q).value.any fun r : ResultRule => !r.isPlain
  | (.single, q) => !q.array && (c.setting .single q).value.any fun r : TypeRule => !r.isPlain
  | (.multi, _) => false
  | (.nullable, q) => (c.setting .nullable q).value.isSome

/-- Whether a wrapper is an envelope that takes the place of what is in it. -/
def replaces (c : Config) : Wrapper × Query → Bool
  | (.result, q) => (c.setting .result q).value.any ResultRule.isReplacement
  | (.single, _) | (.multi, _) | (.nullable, _) => false

theorem coveredIf_wrap (c : Config) (step : Wrapper × Query) {t : DataType}
    (ht : t.item? = none) :
    t.CoveredIf (c.covers step) (c.replaces step) step.1 (c.wrap step.1 step.2 t) := by
  obtain ⟨w, q⟩ := step
  cases w with
  | result => exact c.options.coveredIf_wrapResult _ t
  | single =>
    rw [covers, replaces, wrap]
    cases q.array with
    | true => exact .inl ⟨rfl, rfl, rfl⟩
    | false => exact t.coveredIf_wrapSingle _
  | multi =>
    refine .inl ⟨rfl, rfl, ?_⟩
    rw [wrap]
    split
    · exact DataType.wrapMulti_of_item?_none ht _
    · rfl
  | nullable => exact t.coveredIf_wrapNullable _

/-! ## Several wrappers -/

/-- The first wrapper that goes around a type that is no collection. -/
def innermost? (c : Config) (steps : List (Wrapper × Query)) : Option Wrapper :=
  (steps.find? c.covers).map Prod.fst

theorem payload_wrapAll_of_closed (c : Config) (steps : List (Wrapper × Query)) {t : DataType}
    (ht : t.Closed) : (c.wrapAll steps t).payload = t.payload ∧
      (c.wrapAll steps t).replaced = (t.replaced || steps.any c.replaces) := by
  induction steps generalizing t with
  | nil => exact ⟨rfl, (Bool.or_false _).symm⟩
  | cons step steps ih =>
    rw [wrapAll, List.foldl_cons, List.any_cons]
    rcases c.coveredIf_wrap step ht.1 with ⟨-, hreplaces, halone⟩ | ⟨-, hcover⟩
    · rw [halone, hreplaces]
      exact ih ht
    · obtain ⟨hpayload, hreplaced⟩ := ih hcover.closed
      rw [hcover.replaced, Bool.or_comm (c.replaces step), Bool.or_assoc] at hreplaced
      exact ⟨hpayload.trans (hcover.payload_of_closed ht), hreplaced⟩

/-- No content is boxed for good or stays as it is for good with the first wrapper around it. -/
theorem payload_wrapAll_noContent (c : Config) (steps : List (Wrapper × Query)) (before : Bool) :
    (c.wrapAll steps (.noContent before)).payload =
        .noContent (before || c.innermost? steps == some .result) ∧
      (c.wrapAll steps (.noContent before)).replaced = steps.any c.replaces := by
  induction steps with
  | nil => exact ⟨by simp [wrapAll, innermost?, DataType.payload], rfl⟩
  | cons step steps ih =>
    rw [wrapAll, List.foldl_cons, List.any_cons, innermost?, List.find?_cons]
    have hvalue : (DataType.noContent before).item? = none := rfl
    rcases c.coveredIf_wrap step hvalue with ⟨hcovers, hreplaces, halone⟩ | ⟨hcovers, hcover⟩
    · rw [halone, hcovers, hreplaces]
      exact ih
    · obtain ⟨hpayload, hreplaced⟩ := c.payload_wrapAll_of_closed steps hcover.closed
      rw [hcover.replaced, DataType.replaced, Bool.or_false] at hreplaced
      rw [hcovers, Option.map_some, Option.some_beq_some]
      exact ⟨hpayload.trans hcover.payload_of_noContent, hreplaced⟩

theorem innermost?_of_first {c : Config} {front back : List (Wrapper × Query)}
    {step : Wrapper × Query} (hstep : c.covers step = true)
    (hfront : front.any c.covers = false) :
    c.innermost? (front ++ step :: back) = some step.1 := by
  have hnone : front.find? c.covers = none := by
    simpa using hfront
  rw [innermost?, List.find?_append, hnone, Option.none_or, List.find?_cons, hstep]
  rfl

end Config

/-! ## Main result -/

/-- Whatever wrappers are put around no content: it is written in the text, unless one of them is a
replacement, and with the name of an object type exactly if the wrapper directly around it is an
envelope.  An envelope further outside makes no difference, and wrappers that follow the first one
make none either.  So no content in an envelope is an object type if no other wrapper is between. -/
theorem noContent_wrapAll (c : Config) (steps : List (Wrapper × Query)) (before : Bool) :
    let t := c.wrapAll steps (.noContent before)
    t.pieces.flatMap Piece.chars = t.typeName.toList ∧
      (∀ boxed, Piece.noContent boxed ∈ t.pieces ↔
        steps.any c.replaces = false ∧ boxed = (before || c.innermost? steps == some .result)) ∧
      ∀ front q back, steps = front ++ (.result, q) :: back → c.covers (.result, q) = true →
        front.any c.covers = false → steps.any c.replaces = false →
        "Void".toList <:+: t.typeName.toList ∧ Piece.noContent false ∉ t.pieces := by
  intro t
  obtain ⟨hpayload, hreplaced⟩ := c.payload_wrapAll_noContent steps before
  have hwritten : ∀ boxed, Piece.noContent boxed ∈ t.pieces ↔
      steps.any c.replaces = false ∧ boxed = (before || c.innermost? steps == some .result) := by
    intro boxed
    rw [DataType.noContent_mem_pieces_iff, hpayload, hreplaced, DataType.noContent.injEq,
      eq_comm (a := boxed)]
  refine ⟨t.flatMap_chars_pieces, hwritten, fun front q back hsteps hcovers hfront hvisible => ?_⟩
  have hboxed : (before || c.innermost? steps == some .result) = true := by
    rw [hsteps, Config.innermost?_of_first hcovers hfront, beq_self_eq_true, Bool.or_true]
  rw [hboxed] at hwritten
  refine ⟨?_, fun hmem => Bool.false_ne_true ((hwritten false).1 hmem).2⟩
  exact DataType.infix_typeName_of_mem_pieces ((hwritten true).2 ⟨hvisible, rfl⟩)

/-- An envelope and a wrapper for single values. -/
def envelopeAndSingle : Document :=
  { Document.empty with
    map := .mk { Clauses.empty with result := some "io.Envelope", single := some "io.Mono" }
      [] [] [] }

def envelopeAndSingleConfig : Config where
  options := envelopeAndSingle.options
  repository :=
    { Repository.empty with
      global := { Level.empty with
        result := some ⟨none, .ofName "io.Envelope"⟩
        single := some ⟨some "single", none, .ofName "io.Mono", false, false⟩ } }

/-- With the envelope inside, no content is an object type. -/
theorem noContent_envelopeInside :
    let steps : List (Wrapper × Query) :=
      [(.multi, Query.empty.withArray), (.result, .empty), (.single, .empty)]
    let t := envelopeAndSingleConfig.wrapAll steps (.noContent false)
    envelopeAndSingle.config = .ok envelopeAndSingleConfig ∧
      t.typeName = "Mono<Envelope<Void>>" ∧ "Void".toList <:+: t.typeName.toList ∧
      Piece.noContent false ∉ t.pieces := by
  intro steps t
  have hsteps : steps =
      [(.multi, Query.empty.withArray)] ++ (.result, .empty) :: [(.single, .empty)] := rfl
  obtain ⟨-, -, hboxed⟩ := noContent_wrapAll envelopeAndSingleConfig steps false
  exact ⟨by decide +kernel, by decide +kernel,
    hboxed _ _ _ hsteps (by decide +kernel) (by decide +kernel) (by decide +kernel)⟩

/-- With the envelope outside it is not. -/
theorem noContent_envelopeOutside :
    let t := envelopeAndSingleConfig.wrapAll [(.single, .empty), (.result, .empty)]
      (.noContent false)
    envelopeAndSingle.config = .ok envelopeAndSingleConfig ∧
      t = .result ⟨"Envelope", "io"⟩ (.single ⟨"Mono", "io"⟩ (.noContent false)) [] false ∧
      t.typeName = "Envelope<Mono<void>>" ∧ ¬ "Void".toList <:+: t.typeName.toList := by
  decide +kernel

end TypeRules
