import TypeRules.Proofs.Document.Levels
import TypeRules.Proofs.Lookup.Settled
import TypeRules.Proofs.Rule.Format

/-! # Rules that are looked up by a name

The name of a parameter or the value of an extension is free text in front of an operator.  A rule
keeps the part of it that a source has as its name, and queries ask for names as they are.

* `Source.name_readRule_eq_iff` — the part is the whole name unless it has a colon and no slash.
* `Topic.findings_of_only` — what a lookup finds if only one level has a rule for it.
* `Document.SaysOnly` — documents with a single rule, which is about a parameter;
  `Document.saying` is one of them for each scope.
* `value_named` — a rule with a name in front of it answers for the part, and for nothing else.
-/

namespace TypeRules

open Text

/-! ## The part of a name that counts -/

namespace Source

theorem name_readRule_eq_iff {name : String} (hname : Trimmed name.toList) :
    (readRule name.toList).name = name ↔ '/' ∈ name.toList ∨ ':' ∉ name.toList := by
  constructor
  · intro h
    by_cases hslash : '/' ∈ name.toList
    · exact .inl hslash
    · rw [readRule_of_not_mem hslash] at h
      have hcolon := colon_not_mem_name_read name.toList
      rw [h] at hcolon
      exact .inr hcolon
  · intro h
    rw [readRule_of_kept h, trim_eq_self hname, String.ofList_toList]

theorem name_readRule_of_colon {name : String} {front back : List Char} (hslash : '/' ∉ name.toList)
    (hsplit : name.toList = front ++ ':' :: back) (hfront : ':' ∉ front) :
    (readRule name.toList).name.toList = trim front := by
  have hcut : cutAt? (· == ':') name.toList = some (front, back) := by
    rw [hsplit]
    refine cutAt?_append_cons (fun c hc => ?_) rfl back
    rw [beq_eq_false_iff_ne]
    rintro rfl
    exact hfront hc
  rw [readRule_of_not_mem hslash, read, hcut]
  exact String.toList_ofList

end Source

/-! ## A single rule for a lookup -/

namespace Topic

variable {topic : Topic} {r : Repository} {s : Scope} {rule : Rule}

theorem applying_of_only (h : ∀ t, topic.list (r.levelOf t) = if t = s then [rule] else [])
    (q : Query) (t : Scope) :
    topic.applying q (r.levelOf t) =
      if t = s ∧ topic.accepts q rule = true then [rule] else [] := by
  rw [applying, h]
  by_cases ht : t = s <;> simp [ht, List.filter_cons]

/-- Of different scopes, only the one with the rule contributes to what is found. -/
theorem found_of_only (h : ∀ t, topic.list (r.levelOf t) = if t = s then [rule] else [])
    (q : Query) {scopes : List Scope} (hnodup : scopes.Nodup) :
    ((scopes.map fun t => (t, topic.applying q (r.levelOf t))).filter fun finding =>
        !finding.2.isEmpty) =
      if s ∈ scopes ∧ topic.accepts q rule = true then [(s, [rule])] else [] := by
  induction scopes with
  | nil => simp
  | cons t scopes ih =>
    obtain ⟨ht, hrest⟩ := List.nodup_cons.1 hnodup
    rw [List.map_cons, List.filter_cons, ih hrest, applying_of_only h]
    by_cases hts : t = s
    · subst hts
      by_cases haccepts : topic.accepts q rule = true <;> simp [ht, haccepts]
    · simp [hts, Ne.symm hts]

theorem findings_of_only (h : ∀ t, topic.list (r.levelOf t) = if t = s then [rule] else [])
    (q : Query) :
    topic.findings r q =
      if s ∈ q.scopes ∧ topic.accepts q rule = true then [(s, [rule])] else [] :=
  found_of_only h q (nodup_scopes q)

end Topic

/-! ## Documents with a single rule -/

/-- The only rule of the document is an entry about a parameter, in the clauses of the scope. -/
structure Document.SaysOnly (d : Document) (s : Scope) (e : ParameterEntry) : Prop where
  items : d.map.items = [.parameter e]
  parameters : ∀ t, (d.map.clausesOf t).parameters = if t = s then [e] else []

namespace Document.SaysOnly

variable {d : Document} {s : Scope} {e : ParameterEntry}

theorem exists_findings (h : d.SaysOnly s e) {rule : Rule} (he : e.rule = .ok rule) :
    ∃ r, d.config = .ok ⟨r, d.options⟩ ∧
      ∀ topic : Topic, topic.list = Level.parameters → ∀ q, topic.findings r q =
        if s ∈ q.scopes ∧ topic.accepts q rule = true then [(s, [rule])] else [] := by
  have haccepted : ∀ item ∈ d.map.items, item.reason? = none := by
    intro item hitem
    rw [h.items, List.mem_singleton] at hitem
    rw [hitem, Item.reason?, he]
    rfl
  obtain ⟨r, hr⟩ := d.map.exists_repository_iff.2 haccepted
  refine ⟨r, by rw [config, hr]; rfl, fun topic hlist => Topic.findings_of_only fun t => ?_⟩
  have hparameters := ((Block.repository_eq_ok_iff.1 hr).levelOf t).parameters
  rw [h.parameters, ← mapM_eq_ok_iff_forall₂] at hparameters
  rw [hlist]
  by_cases ht : t = s
  · rw [if_pos ht, mapM_cons_ok he] at hparameters
    rw [if_pos ht]
    exact (Except.ok.inj hparameters).symm
  · rw [if_neg ht] at hparameters ⊢
    exact (Except.ok.inj hparameters).symm

theorem single_value (h : d.SaysOnly s e) {r : NameRule} (he : e.rule = .ok (.name r)) :
    ∃ c, d.config = .ok c ∧ ∀ q, (c.single .parameterName q).value =
      .ok (if s ∈ q.scopes ∧ q.name = some r.parameter then
        some (Rule.settle c.options.basePackage (.name r)) else none) := by
  obtain ⟨repository, hconfig, hfindings⟩ := h.exists_findings he
  refine ⟨_, hconfig, fun q => ?_⟩
  have haccepts : SingleLookup.parameterName.topic.accepts q (.name r) = true ↔
      q.name = some r.parameter := beq_iff_eq
  rw [TypeRules.single_value, hfindings SingleLookup.parameterName.topic rfl q]
  simp only [haccepts]
  split <;> rfl

theorem stacked_value (h : d.SaysOnly s e) {r : NameAnnotationRule}
    (he : e.rule = .ok (.annotateName r)) :
    ∃ c, d.config = .ok c ∧ ∀ q, (c.stacked .parameterNameAnnotations q).value =
      if s ∈ q.scopes ∧ q.name = some r.name then
        [Rule.settle c.options.basePackage (.annotateName r)] else [] := by
  obtain ⟨repository, hconfig, hfindings⟩ := h.exists_findings he
  refine ⟨_, hconfig, fun q => ?_⟩
  have haccepts : StackedLookup.parameterNameAnnotations.topic.accepts q (.annotateName r) = true ↔
      q.name = some r.name := beq_iff_eq
  rw [TypeRules.stacked_value, hfindings StackedLookup.parameterNameAnnotations.topic rfl q]
  simp only [haccepts]
  split <;> rfl

theorem nearest_value (h : d.SaysOnly s e) {r : AddRule} (he : e.rule = .ok (.add r)) :
    ∃ c, d.config = .ok c ∧ ∀ q, (c.nearest .addParameters q).value =
      if s ∈ q.scopes then [Rule.settle c.options.basePackage (.add r)] else [] := by
  obtain ⟨repository, hconfig, hfindings⟩ := h.exists_findings he
  refine ⟨_, hconfig, fun q => ?_⟩
  have haccepts : NearestLookup.addParameters.topic.accepts q (.add r) = true ↔ True :=
    ⟨fun _ => trivial, fun _ => rfl⟩
  rw [TypeRules.nearest_value, hfindings NearestLookup.addParameters.topic rfl q]
  simp only [haccepts, and_true]
  split <;> rfl

end Document.SaysOnly

theorem lookup_singleton {κ α : Type} [DecidableEq κ] (own key : κ) (value : α) :
    [(own, value)].lookup key = if key = own then some value else none := by
  by_cases h : key = own
  · simp [h]
  · simp [List.lookup_cons, h, beq_eq_false_iff_ne.2 h]

theorem Block.endpointItems_mk_singleton (c : Clauses) (method : HttpMethod) (inner : Block) :
    (mk c [] [] [(method, inner)]).endpointItems = inner.clauses.items ++ c.items := by
  have hinner : HttpMethod.all.filterMap (mk c [] [] [(method, inner)]).method? = [inner] := by
    cases method <;> rfl
  rw [endpointItems, hinner, List.flatMap_singleton]
  rfl

theorem Block.clausesOf_mk_path (c : Clauses) (path : String) (inner : Block) (own : String) :
    (mk c [(path, inner)] [] []).clausesOf (.path own) =
      if own = path then inner.clauses else Clauses.empty := by
  rw [clausesOf, clauses?, paths, lookup_singleton]
  split <;> rfl

theorem Block.clausesOf_mk_method (c : Clauses) (path : String) (inner : Block) (own : String)
    (method : HttpMethod) :
    (mk c [(path, inner)] [] []).clausesOf (.method own method) =
      if own = path then ((inner.method? method).map clauses).getD Clauses.empty
      else Clauses.empty := by
  rw [clausesOf, clauses?, paths, lookup_singleton]
  split <;> rfl

/-- The document that says something about a parameter in one scope, and nothing else. -/
def Document.saying (e : ParameterEntry) (s : Scope) : Document :=
  let own : Block := .mk { Clauses.empty with parameters := [e] } [] [] []
  { Document.empty with
    map := match s with
      | .global => own
      | .path path => .mk Clauses.empty [(path, own)] [] []
      | .method path method =>
        .mk Clauses.empty [(path, .mk Clauses.empty [] [] [(method, own)])] [] [] }

theorem Document.saysOnly_saying (e : ParameterEntry) (s : Scope) : (saying e s).SaysOnly s e where
  items := by
    cases s with
    | global => rfl
    | path path => rfl
    | method path method =>
      rw [saying, Block.items, Block.paths, List.flatMap_singleton,
        Block.endpointItems_mk_singleton]
      rfl
  parameters t := by
    cases s with
    | global => cases t <;> rfl
    | path path =>
      cases t with
      | global => rfl
      | path own =>
        rw [saying, Block.clausesOf_mk_path]
        by_cases hpath : own = path <;> simp [Block.clauses, Clauses.empty, hpath]
      | method own method =>
        rw [saying, Block.clausesOf_mk_method]
        simp [Block.method?, Block.writtenMethods, Clauses.empty]
    | method path method =>
      cases t with
      | global => rfl
      | path own =>
        rw [saying, Block.clausesOf_mk_path]
        simp [Block.clauses, Clauses.empty]
      | method own other =>
        rw [saying, Block.clausesOf_mk_method, Block.method?, Block.writtenMethods,
          lookup_singleton]
        by_cases hpath : own = path <;> by_cases hmethod : other = method <;>
          simp [Block.clauses, Clauses.empty, hpath, hmethod]

/-! ## Extensions -/

/-- A rule of an extension is handed out if its name is among the values. -/
theorem mem_extension_value_iff {c : Config} {extension : String} {rule : NameAnnotationRule}
    (h : rule ∈ c.repository.extension extension) (values : List String) :
    rule.settle c.options.basePackage ∈ (c.extension extension values).value ↔
      rule.name ∈ values := by
  rw [extension_value, List.mem_map]
  constructor
  · rintro ⟨other, hother, heq⟩
    obtain ⟨value, hvalue, hmem⟩ := List.mem_flatMap.1 hother
    have hname : other.name = rule.name := (NameAnnotationRule.mk.inj heq).1
    rw [← hname, beq_iff_eq.1 (List.mem_filter.1 hmem).2]
    exact hvalue
  · intro hmem
    refine ⟨rule, List.mem_flatMap.2 ⟨rule.name, hmem, ?_⟩, rfl⟩
    exact List.mem_filter.2 ⟨h, beq_self_eq_true _⟩

theorem Document.mem_extension {d : Document} {c : Config} (h : d.config = .ok c)
    {extension : String} {texts : List String}
    (hextension : d.map.extensions.lookup extension = some texts) {text : String}
    (htext : text ∈ texts) {rule : NameAnnotationRule}
    (hrule : NameAnnotationRule.read text = .ok rule) :
    rule ∈ c.repository.extension extension := by
  obtain ⟨r, hr, rfl⟩ := map_eq_ok_iff.1 h
  have hrel := rel_lookup (Block.repository_eq_ok_iff.1 hr).extensions extension
  rw [hextension] at hrel
  rw [Repository.extension]
  cases hfound : (r.extensions.find? fun entry => entry.1 == extension).map Prod.snd with
  | none =>
    rw [hfound] at hrel
    cases hrel
  | some rules =>
    rw [hfound] at hrel
    cases hrel with
    | some hrules =>
      obtain ⟨other, hother, hread⟩ := exists_of_forall₂ hrules.flip htext
      rw [hrule] at hread
      cases hread
      exact hother

/-! ## Main result -/

/-- A rule with a name in front of its operator answers for the name up to the first colon, or for
the whole name if there is a slash in it or no colon.  It does so for no other name. -/
theorem value_named {name target annotation : String} (hname : LeftText name.toList)
    (htrimmed : Trimmed name.toList) {t : Target} (ht : t.WrittenAs target.toList)
    {a : Annotation} (ha : Annotation.read annotation.toList = .ok a) :
    ∃ key : String, (key = name ↔ '/' ∈ name.toList ∨ ':' ∉ name.toList) ∧
      (∀ front back, '/' ∉ name.toList → ':' ∉ front → name.toList = front ++ ':' :: back →
        key.toList = trim front) ∧
      (∀ d s, Document.SaysOnly d s (.name ⟨name ++ " => " ++ target, []⟩) →
        ∃ c, d.config = .ok c ∧ ∀ q, (c.single .parameterName q).value =
          .ok (if s ∈ q.scopes ∧ q.name = some key then
            some (Rule.settle c.options.basePackage
              (.name ⟨key, some key, none, t.type, t.primitive, t.array⟩)) else none)) ∧
      (∀ d s, Document.SaysOnly d s (.name ⟨name ++ " @ " ++ annotation, []⟩) →
        ∃ c, d.config = .ok c ∧ ∀ q, (c.stacked .parameterNameAnnotations q).value =
          if s ∈ q.scopes ∧ q.name = some key then
            [Rule.settle c.options.basePackage (.annotateName ⟨key, a⟩)] else []) ∧
      (∀ d s, Document.SaysOnly d s (.add ⟨name ++ " => " ++ target, []⟩) →
        ∃ c, d.config = .ok c ∧ ∀ q, (c.nearest .addParameters q).value =
          if s ∈ q.scopes then [Rule.settle c.options.basePackage
            (.add ⟨key, ⟨none, none, t.type, t.primitive, t.array⟩, none⟩)] else []) ∧
      NameAnnotationRule.read (name ++ " @ " ++ annotation) = .ok ⟨key, a⟩ ∧
      ∀ d c extension texts, Document.config d = .ok c →
        d.map.extensions.lookup extension = some texts →
        (name ++ " @ " ++ annotation) ∈ texts → ∀ values,
          (NameAnnotationRule.settle c.options.basePackage ⟨key, a⟩ ∈
            (c.extension extension values).value ↔ key ∈ values) := by
  have hmap := Phrase.readText_map hname ht
  have hannotate := Phrase.readText_annotate hname ha
  have hread : NameAnnotationRule.read (name ++ " @ " ++ annotation) =
      .ok ⟨(Source.readRule name.toList).name, a⟩ := bind_eq_ok_iff.2 ⟨_, hannotate, rfl⟩
  refine ⟨(Source.readRule name.toList).name, Source.name_readRule_eq_iff htrimmed,
    fun front back hslash hfront hsplit => Source.name_readRule_of_colon hslash hsplit hfront,
    fun d s hd => hd.single_value (r := ⟨_, some _, none, t.type, t.primitive, t.array⟩) ?_,
    fun d s hd => hd.stacked_value (r := ⟨_, a⟩) ?_,
    fun d s hd => hd.nearest_value ?_, hread,
    fun d c extension texts hc hextension htext values =>
      mem_extension_value_iff (Document.mem_extension hc hextension htext hread) values⟩
  · exact bind_eq_ok_iff.2 ⟨_, hmap, bind_eq_ok_iff.2
      ⟨_, bind_eq_ok_iff.2 ⟨_, t.type.applyTo_nil, rfl⟩, rfl⟩⟩
  · exact bind_eq_ok_iff.2 ⟨_, hannotate, rfl⟩
  · exact bind_eq_ok_iff.2 ⟨_, hmap, bind_eq_ok_iff.2
      ⟨_, bind_eq_ok_iff.2 ⟨_, t.type.applyTo_nil, rfl⟩, rfl⟩⟩

/-- A name with a blank, a colon and a slash, for a parameter of one method; and a name with a colon
and no slash, whose back part is lost, for an additional parameter and for an extension. -/
theorem value_named_slashAndColon :
    (∃ c, (Document.saying (.name ⟨"a/b: c" ++ " => " ++ "Map<A, List<?>>", []⟩)
        (.method "/foo" .get)).config = .ok c ∧
      ∀ q : Query, (c.single .parameterName (((q.withPath "/foo").withMethod .get).withName
        "a/b: c")).value = .ok (some (Rule.settle c.options.basePackage (.name ⟨"a/b: c",
          some "a/b: c", none, .mk "Map" [.ofName "A", .mk "List" [.ofName "?"]],
          false, false⟩)))) ∧
    (∃ c, (Document.saying (.add ⟨"foo:bar" ++ " => " ++ "Map<A, List<?>>", []⟩)
        .global).config = .ok c ∧
      ∀ q : Query, (c.nearest .addParameters q).value = [Rule.settle c.options.basePackage
        (.add ⟨"foo", ⟨none, none, .mk "Map" [.ofName "A", .mk "List" [.ofName "?"]],
          false, false⟩, none⟩)]) ∧
    NameAnnotationRule.read ("foo:bar" ++ " @ " ++ "io.A(1)") =
      .ok ⟨"foo", ⟨"io.A", [("", .simple "1")]⟩⟩ := by
  have ht : Target.WrittenAs ⟨.mk "Map" [.ofName "A", .mk "List" [.ofName "?"]], false, false⟩
      "Map<A, List<?>>".toList := by decide +kernel
  have ha : Annotation.read "io.A(1)".toList = .ok ⟨"io.A", [("", .simple "1")]⟩ := by
    decide +kernel
  have hslash : LeftText "a/b: c".toList := by decide +kernel
  have hcolon : LeftText "foo:bar".toList := by decide +kernel
  obtain ⟨key, hkey, -, hsingle, -⟩ := value_named hslash (by decide +kernel) ht ha
  obtain ⟨front, -, hfront, -, -, hadd, hread, -⟩ := value_named hcolon (by decide +kernel) ht ha
  obtain rfl : key = "a/b: c" := hkey.2 (.inl (by decide))
  obtain rfl : front = "foo" := String.toList_inj.1
    (hfront "foo".toList "bar".toList (by decide) (by decide) (by decide +kernel))
  refine ⟨?_, ?_, hread⟩
  · obtain ⟨c, hc, hvalue⟩ := hsingle _ _ (Document.saysOnly_saying _ (.method "/foo" .get))
    exact ⟨c, hc, fun q => by rw [hvalue, if_pos ⟨List.mem_cons_self, rfl⟩]⟩
  · obtain ⟨c, hc, hvalue⟩ := hadd _ _ (Document.saysOnly_saying _ .global)
    exact ⟨c, hc, fun q => by rw [hvalue, if_pos (global_mem_scopes q)]⟩

/-- With a colon in its name, the only rule of a document does not answer for its name, and answers
for another one. -/
theorem value_named_colon_lost :
    let d := Document.saying (.name ⟨"foo:bar => io.oap.Foo", []⟩) .global
    let value (name : String) :=
      d.config.toOption.map fun c => (c.single .parameterName (Query.empty.withName name)).value
    LeftText "foo:bar".toList ∧ d.SaysOnly .global (.name ⟨"foo:bar => io.oap.Foo", []⟩) ∧
      value "foo:bar" = some (.ok none) ∧
      value "foo" = some (.ok (some (.name
        ⟨"foo", ⟨some "foo", none, .ofName "io.oap.Foo", false, false⟩⟩))) := by
  intro d value
  exact ⟨by decide +kernel, Document.saysOnly_saying _ _, by decide +kernel, by decide +kernel⟩

end TypeRules
