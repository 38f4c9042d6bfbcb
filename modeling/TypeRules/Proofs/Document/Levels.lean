import TypeRules.Proofs.Document.Entries
import TypeRules.Proofs.Document.Repository
import TypeRules.Proofs.Repository.Scopes

/-! # Where rules come from

Every rule that is in a repository was written somewhere in its document.

* `Repository.levels` lists all levels, `mem_levels_of_level?` finds the levels of scopes there.
* `Block.Converts.exists_clauses` — every level is made of the clauses of some block.
* `Block.Converts.exists_item`, `Block.Converts.exists_extension` — every rule in a list and every
  rule of an extension is made of an item of the document.
* `Block.clausesOf` are the clauses that a document has for a scope.  `Block.Converts.levelOf` — the
  level of a scope is made of them.
-/

namespace TypeRules

theorem exists_of_forall₂ {α β : Type} {R : α → β → Prop} {xs : List α} {ys : List β}
    (h : List.Forall₂ R xs ys) {y : β} (hy : y ∈ ys) : ∃ x ∈ xs, R x y := by
  induction h with
  | nil => cases hy
  | @cons x z xs zs hxz _ ih =>
    cases hy with
    | head => exact ⟨x, List.mem_cons_self, hxz⟩
    | tail _ hy =>
      obtain ⟨x', hx', hR⟩ := ih hy
      exact ⟨x', List.mem_cons_of_mem x hx', hR⟩

/-! ## Levels -/

def Endpoint.levels (e : Endpoint) : List Level := e.level :: e.methods.map Prod.snd

def Repository.levels (r : Repository) : List Level :=
  r.global :: r.endpoints.flatMap fun entry => entry.2.levels

theorem mem_of_map_find? {κ α : Type} [BEq κ] {entries : List (κ × α)} {key : κ} {value : α}
    (h : (entries.find? fun entry => entry.1 == key).map Prod.snd = some value) :
    ∃ entry ∈ entries, entry.2 = value := by
  obtain ⟨entry, hentry, hvalue⟩ := Option.map_eq_some_iff.1 h
  exact ⟨entry, List.mem_of_find?_eq_some hentry, hvalue⟩

theorem Repository.mem_levels_of_level? {r : Repository} {s : Scope} {l : Level}
    (h : r.level? s = some l) : l ∈ r.levels := by
  cases s with
  | global =>
    cases h
    exact List.mem_cons_self
  | path path =>
    obtain ⟨endpoint, hendpoint, rfl⟩ := Option.map_eq_some_iff.1 h
    obtain ⟨entry, hentry, rfl⟩ := mem_of_map_find? hendpoint
    exact List.mem_cons_of_mem _ (List.mem_flatMap.2 ⟨entry, hentry, List.mem_cons_self⟩)
  | method path method =>
    obtain ⟨endpoint, hendpoint, hmethod⟩ := Option.bind_eq_some_iff.1 h
    obtain ⟨entry, hentry, rfl⟩ := mem_of_map_find? hendpoint
    obtain ⟨own, hown, rfl⟩ := mem_of_map_find? hmethod
    have hlevel : own.2 ∈ entry.2.levels := List.mem_cons_of_mem _ (List.mem_map_of_mem hown)
    exact List.mem_cons_of_mem _ (List.mem_flatMap.2 ⟨entry, hentry, hlevel⟩)

theorem Repository.mem_levels_of_mem_chain {r : Repository} {q : Query} {entry : Scope × Level}
    (h : entry ∈ r.chain q) : entry.2 ∈ r.levels := by
  rw [chain_eq_filterMap_scopes] at h
  obtain ⟨s, -, hentry⟩ := List.mem_filterMap.1 h
  obtain ⟨level, hlevel, rfl⟩ := Option.map_eq_some_iff.1 hentry
  exact mem_levels_of_level? hlevel

/-! ## Items -/

namespace Item

def text : Item → String
  | result text => text
  | single text => text
  | multi text => text
  | nullable text => text
  | type entry => entry.rule
  | parameter entry => entry.text
  | response entry => entry.rule
  | extension text => text

/-- The type arguments that are given apart. -/
def generics : Item → List String
  | type entry => entry.generics
  | parameter entry => entry.generics
  | response entry => entry.generics
  | _ => []

end Item

theorem Clauses.Converts.exists_item {c : Clauses} {l : Level} (h : c.Converts l) {b : Bucket}
    {rule : Rule} (hrule : rule ∈ l.bucket b) :
    ∃ item ∈ c.items, rule.MadeFor b item.text item.generics := by
  cases b with
  | types =>
    obtain ⟨entry, hentry, hread⟩ := exists_of_forall₂ h.types hrule
    exact ⟨.type entry, by simp [items, hentry], Entry.madeFor_of_typeRule hread⟩
  | schemas =>
    obtain ⟨entry, hentry, hread⟩ := exists_of_forall₂ h.schemas hrule
    obtain ⟨hkind, hmade⟩ := Entry.madeFor_of_typeRule hread
    exact ⟨.type entry, by simp [items, hentry], hkind, hmade⟩
  | parameters =>
    obtain ⟨entry, hentry, hread⟩ := exists_of_forall₂ h.parameters hrule
    exact ⟨.parameter entry, by simp [items, hentry], ParameterEntry.madeFor_of_rule hread⟩
  | responses =>
    obtain ⟨entry, hentry, hread⟩ := exists_of_forall₂ h.responses hrule
    exact ⟨.response entry, by simp [items, hentry], Entry.madeFor_of_contentRule hread⟩

namespace Block

theorem items_subset_endpointItems {b inner : Block} {method : HttpMethod}
    (hmethod : method ∈ HttpMethod.all) (h : b.method? method = some inner) :
    inner.clauses.items ⊆ b.endpointItems := by
  intro item hitem
  have hinner : inner ∈ HttpMethod.all.filterMap b.method? :=
    List.mem_filterMap.2 ⟨method, hmethod, h⟩
  exact List.mem_append_left _ (List.mem_flatMap.2 ⟨inner, hinner, hitem⟩)

theorem ConvertsEndpoint.exists_clauses {b : Block} {e : Endpoint} (h : b.ConvertsEndpoint e)
    {l : Level} (hl : l ∈ e.levels) : ∃ c : Clauses, c.Converts l ∧ c.items ⊆ b.endpointItems := by
  cases hl with
  | head => exact ⟨b.clauses, h.level, List.subset_append_right _ _⟩
  | tail _ hl =>
    obtain ⟨own, hown, rfl⟩ := List.mem_map.1 hl
    obtain ⟨method, hmethod, inner, hinner, -, hlevel⟩ := exists_of_forall₂ h.methods hown
    exact ⟨inner.clauses, hlevel,
      items_subset_endpointItems (List.mem_of_mem_filter hmethod) hinner⟩

namespace Converts

variable {b : Block} {r : Repository}

theorem exists_clauses (h : b.Converts r) {l : Level} (hl : l ∈ r.levels) :
    ∃ c : Clauses, c.Converts l ∧ c.items ⊆ b.items := by
  cases hl with
  | head =>
    refine ⟨b.clauses, h.global, fun item hitem => ?_⟩
    exact List.mem_append_left _ (List.mem_append_left _ hitem)
  | tail _ hl =>
    obtain ⟨entry, hentry, hl⟩ := List.mem_flatMap.1 hl
    obtain ⟨path, hpath, -, hendpoint⟩ := exists_of_forall₂ h.endpoints hentry
    obtain ⟨c, hc, hitems⟩ := hendpoint.exists_clauses hl
    refine ⟨c, hc, fun item hitem => ?_⟩
    have hpaths : item ∈ b.paths.flatMap fun path => path.2.endpointItems :=
      List.mem_flatMap.2 ⟨path, hpath, hitems hitem⟩
    exact List.mem_append_left _ (List.mem_append_right _ hpaths)

theorem exists_item (h : b.Converts r) {l : Level} (hl : l ∈ r.levels) {bucket : Bucket}
    {rule : Rule} (hrule : rule ∈ l.bucket bucket) :
    ∃ item ∈ b.items, rule.MadeFor bucket item.text item.generics := by
  obtain ⟨c, hc, hitems⟩ := h.exists_clauses hl
  obtain ⟨item, hitem, hmade⟩ := hc.exists_item hrule
  exact ⟨item, hitems hitem, hmade⟩

theorem exists_extension (h : b.Converts r) {own : String × List NameAnnotationRule}
    (hown : own ∈ r.extensions) {rule : NameAnnotationRule} (hrule : rule ∈ own.2) :
    ∃ item ∈ b.items, (Rule.annotateName rule).MadeOf item.text item.generics := by
  obtain ⟨extension, hextension, -, hrules⟩ := exists_of_forall₂ h.extensions hown
  obtain ⟨text, htext, hread⟩ := exists_of_forall₂ hrules hrule
  have hitem : Item.extension text ∈ extension.2.map Item.extension := List.mem_map_of_mem htext
  exact ⟨.extension text,
    List.mem_append_right _ (List.mem_flatMap.2 ⟨extension, hextension, hitem⟩),
    NameAnnotationRule.madeOf_of_read hread⟩

end Converts

end Block

/-! ## Clauses of scopes -/

theorem rel_lookup {κ α β : Type} [BEq κ] [LawfulBEq κ] {R : α → β → Prop} {xs : List (κ × α)}
    {ys : List (κ × β)} (h : List.Forall₂ (fun x y => y.1 = x.1 ∧ R x.2 y.2) xs ys) (key : κ) :
    Option.Rel R (xs.lookup key) ((ys.find? fun entry => entry.1 == key).map Prod.snd) := by
  induction h with
  | nil => exact .none
  | @cons x y xs ys hxy _ ih =>
    obtain ⟨_, x⟩ := x
    obtain ⟨own, y⟩ := y
    obtain ⟨rfl, hxy⟩ := hxy
    by_cases hkey : own = key
    · subst hkey
      simpa using hxy
    · have hkey' : (key == own) = false := beq_eq_false_iff_ne.2 (Ne.symm hkey)
      simpa [List.lookup_cons, hkey, hkey'] using ih

section Related

variable {α β γ δ : Type} {R : α → β → Prop} {S : γ → δ → Prop} {x : Option α} {y : Option β}

theorem rel_map {f : α → γ} {g : β → δ} (h : Option.Rel R x y)
    (hfg : ∀ a b, R a b → S (f a) (g b)) : Option.Rel S (x.map f) (y.map g) := by
  cases h with
  | none => exact .none
  | some h => exact .some (hfg _ _ h)

theorem rel_bind {f : α → Option γ} {g : β → Option δ} (h : Option.Rel R x y)
    (hfg : ∀ a b, R a b → Option.Rel S (f a) (g b)) : Option.Rel S (x.bind f) (y.bind g) := by
  cases h with
  | none => exact .none
  | some h => exact hfg _ _ h

theorem getD_of_rel {a : α} {b : β} (h : Option.Rel R x y) (hab : R a b) :
    R (x.getD a) (y.getD b) := by
  cases h with
  | none => exact hab
  | some h => exact h

end Related

theorem lookup_filterMap {κ α : Type} [DecidableEq κ] (f : κ → Option α) (keys : List κ)
    (key : κ) :
    (keys.filterMap fun k => (f k).map fun value => (k, value)).lookup key =
      if key ∈ keys then f key else none := by
  induction keys with
  | nil => rfl
  | cons k keys ih =>
    by_cases hkey : k = key
    · subst hkey
      cases hf : f k with
      | none => simp [hf, ih]
      | some value => simp [hf]
    · have hkey' : (key == k) = false := beq_eq_false_iff_ne.2 (Ne.symm hkey)
      cases hf : f k with
      | none => simp [hf, ih, Ne.symm hkey]
      | some value => simp [hf, ih, hkey', List.lookup_cons, Ne.symm hkey]

namespace Block

def clauses? (b : Block) : Scope → Option Clauses
  | .global => some b.clauses
  | .path path => (b.paths.lookup path).map clauses
  | .method path method =>
    (b.paths.lookup path).bind fun inner => (inner.method? method).map clauses

/-- The clauses of a scope.  Where the document has none they are those that say nothing. -/
def clausesOf (b : Block) (s : Scope) : Clauses := (b.clauses? s).getD Clauses.empty

theorem lookup_methods (b : Block) (method : HttpMethod) :
    b.methods.lookup method = b.method? method := by
  rw [methods, lookup_filterMap, if_pos method.mem_all]

theorem ConvertsEndpoint.method? {b : Block} {e : Endpoint} (h : b.ConvertsEndpoint e)
    (method : HttpMethod) :
    Option.Rel Clauses.Converts ((b.method? method).map clauses) (e.method? method) := by
  have hrel := rel_map (S := Clauses.Converts) (f := clauses) (g := id)
    (rel_lookup (forall₂_methods_iff.2 h.methods) method) fun _ _ hlevel => hlevel
  rw [lookup_methods, Option.map_id] at hrel
  exact hrel

theorem Converts.level? {b : Block} {r : Repository} (h : b.Converts r) (s : Scope) :
    Option.Rel Clauses.Converts (b.clauses? s) (r.level? s) := by
  cases s with
  | global => exact .some h.global
  | path path => exact rel_map (rel_lookup h.endpoints path) fun _ _ hpath => hpath.level
  | method path method =>
    exact rel_bind (rel_lookup h.endpoints path) fun _ _ hpath => hpath.method? method

theorem Converts.levelOf {b : Block} {r : Repository} (h : b.Converts r) (s : Scope) :
    (b.clausesOf s).Converts (r.levelOf s) :=
  getD_of_rel (h.level? s) (Clauses.level_eq_ok_iff.1 rfl)

end Block

end TypeRules
