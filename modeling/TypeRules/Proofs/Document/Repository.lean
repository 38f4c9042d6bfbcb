import TypeRules.Document.Repository
import TypeRules.Proofs.Except
import TypeRules.Summary

/-! # Documents and their repositories

The repository of a document has one rule for every rule text that counts, where the text stands,
and there is a repository only if all these texts are accepted.

* `Item` is a rule text together with its place, which decides how it is read; `Block.items` lists
  the items of a document in the order in which they are read.
* `Clauses.Converts`, `Block.ConvertsEndpoint` and `Block.Converts` relate what is written with
  what is made of it, position by position.
* `Document.writtenSummary` is the summary as it can be counted in the document.
* `repository_iff` is the statement about documents.

Each function gets two lemmas, one for success and one for the refusal that decides.
-/

namespace TypeRules

/-! ## Items -/

inductive Item where
  | result (text : String)
  | single (text : String)
  | multi (text : String)
  | nullable (text : String)
  /-- An entry about types or schemas. -/
  | type (entry : Entry)
  | parameter (entry : ParameterEntry)
  | response (entry : Entry)
  | extension (text : String)
  deriving DecidableEq, Repr

/-- Why the item is refused at its place, if it is. -/
def Item.reason? : Item → Option Error
  | result text => refusal? (ResultRule.read text)
  | single text => refusal? (TypeRule.readWrapper .single text)
  | multi text => refusal? (TypeRule.readWrapper .multi text)
  | nullable text => refusal? (NullRule.read text)
  | type entry => refusal? entry.typeRule
  | parameter entry => refusal? entry.rule
  | response entry => refusal? entry.contentRule
  | extension text => refusal? (NameAnnotationRule.read text)

def Clauses.items (c : Clauses) : List Item :=
  c.result.toList.map .result ++ c.single.toList.map .single ++ c.multi.toList.map .multi ++
    c.nullable.toList.map .nullable ++ c.types.map .type ++ c.schemas.map .type ++
    c.parameters.map .parameter ++ c.responses.map .response

namespace Block

/-- The items of a path: those of its methods come before its own. -/
def endpointItems (b : Block) : List Item :=
  (HttpMethod.all.filterMap b.method?).flatMap (fun inner => inner.clauses.items) ++
    b.clauses.items

def items (b : Block) : List Item :=
  b.clauses.items ++ b.paths.flatMap (fun path => path.2.endpointItems) ++
    b.extensions.flatMap fun extension => extension.2.map .extension

end Block

/-! ## What is written and what is made of it -/

/-- A level that is made of clauses: settings and rules are what the texts are read as, one for
one. -/
structure Clauses.Converts (c : Clauses) (l : Level) : Prop where
  result : Option.Rel (fun text rule => ResultRule.read text = .ok rule) c.result l.result
  single : Option.Rel (fun text rule => TypeRule.readWrapper .single text = .ok rule)
    c.single l.single
  multi : Option.Rel (fun text rule => TypeRule.readWrapper .multi text = .ok rule) c.multi l.multi
  nullable : Option.Rel (fun text rule => NullRule.read text = .ok rule) c.nullable l.nullable
  types : List.Forall₂ (fun entry rule => entry.typeRule = .ok rule) c.types l.types
  schemas : List.Forall₂ (fun entry rule => entry.typeRule = .ok rule) c.schemas l.schemas
  parameters : List.Forall₂ (fun entry rule => entry.rule = .ok rule) c.parameters l.parameters
  responses : List.Forall₂ (fun entry rule => entry.contentRule = .ok rule) c.responses l.responses
  resultStyle : l.resultStyle = c.resultStyle
  resultStatus : l.resultStatus = c.resultStatus
  bodyStyle : l.bodyStyle = c.bodyStyle
  exclude : l.exclude = c.exclude

namespace Block

/-- An endpoint that is made of the block of a path.  It has a level for each method with a block,
in the order of `HttpMethod.all`. -/
structure ConvertsEndpoint (b : Block) (e : Endpoint) : Prop where
  level : b.clauses.Converts e.level
  methods : List.Forall₂
    (fun method own => ∃ inner, b.method? method = some inner ∧
      own.1 = method ∧ inner.clauses.Converts own.2)
    (HttpMethod.all.filter fun method => (b.method? method).isSome) e.methods

structure Converts (b : Block) (r : Repository) : Prop where
  global : b.clauses.Converts r.global
  endpoints : List.Forall₂ (fun path own => own.1 = path.1 ∧ path.2.ConvertsEndpoint own.2)
    b.paths r.endpoints
  extensions : List.Forall₂
    (fun extension own => own.1 = extension.1 ∧
      List.Forall₂ (fun text rule => NameAnnotationRule.read text = .ok rule) extension.2 own.2)
    b.extensions r.extensions

end Block

/-! ## Lists -/

theorem findSome?_flatMap {α β γ : Type} (f : β → Option γ) (g : α → List β) (xs : List α) :
    (xs.flatMap g).findSome? f = xs.findSome? fun x => (g x).findSome? f := by
  induction xs with
  | nil => rfl
  | cons x xs ih =>
    rw [List.flatMap_cons, List.findSome?_append, ih, List.findSome?_cons]
    cases (g x).findSome? f <;> rfl

theorem forall₂_filterMap_iff {α β γ : Type} {f : α → Option β} {R : β → γ → Prop} {xs : List α}
    {zs : List γ} :
    List.Forall₂ R (xs.filterMap f) zs ↔
      List.Forall₂ (fun x z => ∃ y, f x = some y ∧ R y z) (xs.filter fun x => (f x).isSome) zs := by
  induction xs generalizing zs with
  | nil => exact ⟨fun h => by cases h; exact .nil, fun h => by cases h; exact .nil⟩
  | cons x xs ih =>
    cases hx : f x with
    | none => simpa [hx] using ih
    | some y =>
      rw [List.filterMap_cons_some hx, List.filter_cons_of_pos (by rw [hx]; rfl)]
      constructor
      · intro h
        cases h with
        | cons hy h => exact .cons ⟨y, hx, hy⟩ (ih.1 h)
      · intro h
        cases h with
        | cons hy h =>
          obtain ⟨y', hy', hR⟩ := hy
          rw [hx] at hy'
          cases hy'
          exact .cons hR (ih.2 h)

theorem map_eq_map_of_forall₂ {κ α β γ : Type} {R : α → β → Prop} {f : κ × α → γ} {g : κ × β → γ}
    {xs : List (κ × α)} {ys : List (κ × β)}
    (h : List.Forall₂ (fun x y => y.1 = x.1 ∧ R x.2 y.2) xs ys)
    (hR : ∀ key x y, R x y → f (key, x) = g (key, y)) : xs.map f = ys.map g := by
  induction h with
  | nil => rfl
  | @cons x y xs ys hxy _ ih =>
    obtain ⟨key, x⟩ := x
    obtain ⟨_, y⟩ := y
    obtain ⟨rfl, hxy⟩ := hxy
    rw [List.map_cons, List.map_cons, ih, hR _ x y hxy]

/-! ## Levels -/

namespace Clauses

theorem level_eq_ok_iff {c : Clauses} {l : Level} : c.level = .ok l ↔ c.Converts l := by
  rw [level]
  constructor
  · intro h
    obtain ⟨result, hresult, h⟩ := bind_eq_ok_iff.1 h
    obtain ⟨single, hsingle, h⟩ := bind_eq_ok_iff.1 h
    obtain ⟨multi, hmulti, h⟩ := bind_eq_ok_iff.1 h
    obtain ⟨nullable, hnullable, h⟩ := bind_eq_ok_iff.1 h
    obtain ⟨types, htypes, h⟩ := bind_eq_ok_iff.1 h
    obtain ⟨schemas, hschemas, h⟩ := bind_eq_ok_iff.1 h
    obtain ⟨parameters, hparameters, h⟩ := bind_eq_ok_iff.1 h
    obtain ⟨responses, hresponses, h⟩ := bind_eq_ok_iff.1 h
    cases h
    exact {
      result := optionMapM_eq_ok_iff.1 hresult
      single := optionMapM_eq_ok_iff.1 hsingle
      multi := optionMapM_eq_ok_iff.1 hmulti
      nullable := optionMapM_eq_ok_iff.1 hnullable
      types := mapM_eq_ok_iff_forall₂.1 htypes
      schemas := mapM_eq_ok_iff_forall₂.1 hschemas
      parameters := mapM_eq_ok_iff_forall₂.1 hparameters
      responses := mapM_eq_ok_iff_forall₂.1 hresponses
      resultStyle := rfl
      resultStatus := rfl
      bodyStyle := rfl
      exclude := rfl }
  · intro h
    rw [optionMapM_eq_ok_iff.2 h.result, optionMapM_eq_ok_iff.2 h.single,
      optionMapM_eq_ok_iff.2 h.multi, optionMapM_eq_ok_iff.2 h.nullable,
      mapM_eq_ok_iff_forall₂.2 h.types, mapM_eq_ok_iff_forall₂.2 h.schemas,
      mapM_eq_ok_iff_forall₂.2 h.parameters, mapM_eq_ok_iff_forall₂.2 h.responses,
      ← h.resultStyle, ← h.resultStatus, ← h.bodyStyle, ← h.exclude]
    rfl

theorem refusal?_level (c : Clauses) : refusal? c.level = c.items.findSome? Item.reason? := by
  -- Whether a text is refused does not depend on what the texts before it are read as.
  have hlevel : refusal? c.level =
      (refusal? (c.result.mapM ResultRule.read)).or
        ((refusal? (c.single.mapM (TypeRule.readWrapper .single))).or
          ((refusal? (c.multi.mapM (TypeRule.readWrapper .multi))).or
            ((refusal? (c.nullable.mapM NullRule.read)).or
              ((refusal? (c.types.mapM Entry.typeRule)).or
                ((refusal? (c.schemas.mapM Entry.typeRule)).or
                  ((refusal? (c.parameters.mapM ParameterEntry.rule)).or
                    ((refusal? (c.responses.mapM Entry.contentRule)).or none))))))) :=
    refusal?_bind fun _ => refusal?_bind fun _ => refusal?_bind fun _ => refusal?_bind fun _ =>
      refusal?_bind fun _ => refusal?_bind fun _ => refusal?_bind fun _ =>
        refusal?_bind fun _ => rfl
  simp only [hlevel, items, refusal?_optionMapM, refusal?_mapM, List.findSome?_append,
    List.findSome?_map, Option.or_assoc, Option.or_none]
  rfl

end Clauses

/-! ## Repositories -/

namespace Block

theorem map_snd_methods (b : Block) :
    b.methods.map Prod.snd = HttpMethod.all.filterMap b.method? := by
  rw [methods, List.map_filterMap]
  congr 1
  funext method
  cases b.method? method <;> rfl

theorem forall₂_methods_iff {R : Block → Level → Prop} {b : Block}
    {own : List (HttpMethod × Level)} :
    List.Forall₂ (fun x y => y.1 = x.1 ∧ R x.2 y.2) b.methods own ↔
      List.Forall₂
        (fun method y => ∃ inner, b.method? method = some inner ∧ y.1 = method ∧ R inner y.2)
        (HttpMethod.all.filter fun method => (b.method? method).isSome) own := by
  rw [methods, forall₂_filterMap_iff]
  simp

theorem endpoint_eq_ok_iff {b : Block} {e : Endpoint} :
    b.endpoint = .ok e ↔ b.ConvertsEndpoint e := by
  rw [endpoint, bind_eq_ok_iff]
  constructor
  · rintro ⟨own, hown, h⟩
    obtain ⟨level, hlevel, h⟩ := bind_eq_ok_iff.1 h
    cases h
    have hmethods := (mapM_keyed_eq_ok_iff (f := fun inner : Block => inner.clauses.level)).1 hown
    simp only [Clauses.level_eq_ok_iff] at hmethods
    exact ⟨Clauses.level_eq_ok_iff.1 hlevel, forall₂_methods_iff.1 hmethods⟩
  · rintro ⟨hlevel, hmethods⟩
    have hown := forall₂_methods_iff.2 hmethods
    simp only [← Clauses.level_eq_ok_iff] at hown
    refine ⟨e.methods,
      (mapM_keyed_eq_ok_iff (f := fun inner : Block => inner.clauses.level)).2 hown, ?_⟩
    rw [Clauses.level_eq_ok_iff.2 hlevel]
    rfl

theorem refusal?_endpoint (b : Block) :
    refusal? b.endpoint = b.endpointItems.findSome? Item.reason? := by
  have hendpoint : refusal? b.endpoint =
      (refusal? (b.methods.mapM fun method => return (method.1, ← method.2.clauses.level))).or
        ((refusal? b.clauses.level).or none) :=
    refusal?_bind fun _ => refusal?_bind fun _ => rfl
  rw [hendpoint, refusal?_mapM_keyed fun inner : Block => inner.clauses.level, endpointItems,
    List.findSome?_append, findSome?_flatMap, ← map_snd_methods, List.findSome?_map,
    Option.or_none]
  simp only [Clauses.refusal?_level]
  rfl

theorem repository_eq_ok_iff {b : Block} {r : Repository} :
    b.repository = .ok r ↔ b.Converts r := by
  rw [repository, bind_eq_ok_iff]
  constructor
  · rintro ⟨whole, hwhole, h⟩
    obtain ⟨endpoints, hendpoints, h⟩ := bind_eq_ok_iff.1 h
    obtain ⟨extensions, hextensions, h⟩ := bind_eq_ok_iff.1 h
    cases h
    have hendpoints := mapM_keyed_eq_ok_iff.1 hendpoints
    have hextensions := mapM_keyed_eq_ok_iff.1 hextensions
    simp only [endpoint_eq_ok_iff] at hendpoints
    simp only [mapM_eq_ok_iff_forall₂] at hextensions
    exact ⟨Clauses.level_eq_ok_iff.1 hwhole, hendpoints, hextensions⟩
  · rintro ⟨hwhole, hendpoints, hextensions⟩
    simp only [← endpoint_eq_ok_iff] at hendpoints
    simp only [← mapM_eq_ok_iff_forall₂] at hextensions
    refine ⟨r.global, Clauses.level_eq_ok_iff.2 hwhole, ?_⟩
    rw [mapM_keyed_eq_ok_iff.2 hendpoints, mapM_keyed_eq_ok_iff.2 hextensions]
    rfl

theorem refusal?_repository (b : Block) :
    refusal? b.repository = b.items.findSome? Item.reason? := by
  have hrepository : refusal? b.repository =
      (refusal? b.clauses.level).or
        ((refusal? (b.paths.mapM fun path => return (path.1, ← path.2.endpoint))).or
          ((refusal? (b.extensions.mapM fun extension =>
            return (extension.1, ← extension.2.mapM NameAnnotationRule.read))).or none)) :=
    refusal?_bind fun _ => refusal?_bind fun _ => refusal?_bind fun _ => rfl
  rw [hrepository, refusal?_mapM_keyed, refusal?_mapM_keyed, items, List.findSome?_append,
    List.findSome?_append, findSome?_flatMap, findSome?_flatMap, Option.or_none, Option.or_assoc]
  simp only [Clauses.refusal?_level, refusal?_endpoint, refusal?_mapM, List.findSome?_map]
  rfl

theorem exists_repository_iff (b : Block) :
    (∃ r, b.repository = .ok r) ↔ ∀ item ∈ b.items, item.reason? = none := by
  rw [← refusal?_eq_none_iff, refusal?_repository, List.findSome?_eq_none_iff]

end Block

/-! ## Summaries -/

/-- The number of entries that are written. -/
def Clauses.entryCount (c : Clauses) : Nat :=
  c.types.length + c.schemas.length + c.parameters.length + c.responses.length

def Clauses.writtenSummary (c : Clauses) : String :=
  countText c.entryCount ++ if c.exclude then " (excluded)" else ""

def Block.writtenSummary (path : String) (b : Block) : List String :=
  ("path " ++ path ++ ": " ++ b.clauses.writtenSummary) ::
    b.methods.map fun method =>
      "  " ++ method.1.text ++ ": " ++ method.2.clauses.writtenSummary

/-- The lines of the summary, with the entries that are written in place of rules. -/
def Document.writtenSummary (d : Document) : List String :=
  ("package: " ++ d.options.basePackage) ::
    ("global: " ++ countText d.map.clauses.entryCount) ::
    (d.map.paths.flatMap fun path => path.2.writtenSummary path.1) ++
    d.map.extensions.map fun extension =>
      "extension " ++ extension.1 ++ ": " ++ countText extension.2.length

namespace Clauses.Converts

variable {c : Clauses} {l : Level}

theorem ruleCount_eq (h : c.Converts l) : l.ruleCount = c.entryCount := by
  rw [Level.ruleCount, entryCount, h.types.length_eq, h.schemas.length_eq,
    h.parameters.length_eq, h.responses.length_eq]

theorem summary_eq (h : c.Converts l) : l.summary = c.writtenSummary := by
  rw [Level.summary, writtenSummary, h.ruleCount_eq, h.exclude]

end Clauses.Converts

theorem Block.ConvertsEndpoint.summary_eq {b : Block} {e : Endpoint} (h : b.ConvertsEndpoint e)
    (path : String) : e.summary path = b.writtenSummary path := by
  have hmethods := map_eq_map_of_forall₂ (forall₂_methods_iff.2 h.methods)
    (f := fun method => "  " ++ method.1.text ++ ": " ++ method.2.clauses.writtenSummary)
    (g := fun own => "  " ++ own.1.text ++ ": " ++ own.2.summary)
    fun method inner level hlevel => by rw [hlevel.summary_eq]
  rw [Block.writtenSummary, hmethods, ← h.level.summary_eq]
  rfl

theorem Block.Converts.summary_eq {d : Document} {r : Repository} (h : d.map.Converts r) :
    Config.summary ⟨r, d.options⟩ = d.writtenSummary := by
  have hendpoints := map_eq_map_of_forall₂ h.endpoints
    (f := fun path => path.2.writtenSummary path.1) (g := fun own => own.2.summary own.1)
    fun path inner endpoint hendpoint => (hendpoint.summary_eq path).symm
  have hextensions := map_eq_map_of_forall₂ h.extensions
    (f := fun extension => "extension " ++ extension.1 ++ ": " ++ countText extension.2.length)
    (g := fun own => "extension " ++ own.1 ++ ": " ++ countText own.2.length)
    fun name texts rules hrules => by rw [hrules.length_eq]
  rw [Document.writtenSummary, hextensions, ← h.global.ruleCount_eq, List.flatMap_def, hendpoints,
    ← List.flatMap_def]
  rfl

/-! ## Main result -/

/-- A document has a repository if all its items are accepted at their places.  The rules then
stand where their texts stand, one for one, and the summary counts what is written.  Otherwise the
first item that is refused decides. -/
theorem repository_iff (d : Document) :
    ((∃ r, d.map.repository = .ok r) ↔ ∀ item ∈ d.map.items, item.reason? = none) ∧
      (∀ r, d.map.repository = .ok r ↔ d.map.Converts r) ∧
      (∀ r, d.map.repository = .ok r → Config.summary ⟨r, d.options⟩ = d.writtenSummary) ∧
      ∀ e, d.map.repository = .error e ↔ ∃ front item back, d.map.items = front ++ item :: back ∧
        item.reason? = some e ∧ ∀ other ∈ front, other.reason? = none := by
  refine ⟨d.map.exists_repository_iff, fun r => Block.repository_eq_ok_iff, fun r h => ?_,
    fun e => ?_⟩
  · exact (Block.repository_eq_ok_iff.1 h).summary_eq
  · rw [← refusal?_eq_some_iff, Block.refusal?_repository, List.findSome?_eq_some_iff]

/-- A global rule, and a path whose methods are written in another order than that of
`HttpMethod.all`. -/
def twoMethods : Document :=
  let clauses (entries : List Entry) : Clauses := { Clauses.empty with types := entries }
  let block (entries : List Entry) : Block := .mk (clauses entries) [] [] []
  let path : Block := .mk (clauses []) [] []
    [(.post, block [⟨"Foo => List", ["io.Foo"]⟩, ⟨"Bar @ io.Bar", []⟩]), (.get, block [])]
  { Document.empty with
    packageName := some "io"
    map := .mk (clauses [⟨"Foo => io.Foo", []⟩]) [("/foo", path)] [("x-foo", ["a @ io.A"])] [] }

theorem summary_twoMethods :
    ∃ r, twoMethods.map.repository = .ok r ∧ Config.summary ⟨r, twoMethods.options⟩ =
      ["package: io", "global: 1 rules", "path /foo: 0 rules", "  GET: 0 rules",
        "  POST: 2 rules", "extension x-foo: 1 rules"] := by
  have haccepted : ∀ item ∈ twoMethods.map.items, item.reason? = none := by decide +kernel
  obtain ⟨r, hr⟩ := (repository_iff twoMethods).1.2 haccepted
  exact ⟨r, hr, ((repository_iff twoMethods).2.2.1 r hr).trans (by decide +kernel)⟩

end TypeRules
